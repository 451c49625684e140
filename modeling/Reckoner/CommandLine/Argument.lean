import Reckoner.Text.Digit

/-!
The arguments of the command line, one at a time. An argument with a dash in front names
options, unless it can only be a path. Options of one letter may be joined behind one dash,
with or without an equals sign behind the first. Long ones stand alone behind two dashes and
may be cut short as long as one name is left.
-/

set_option autoImplicit false
set_option relaxedAutoImplicit false

namespace Reckoner

/-- The options of the command line. -/
inductive Flag
  | help
  | ast
  | tokens
  | interactive
  | verbose
  deriving DecidableEq, Repr

namespace Flag

/-- All options. -/
def all : List Flag := [help, ast, tokens, interactive, verbose]

/-- The letter of an option, which is written behind one dash. -/
def letter : Flag → Char
  | help => 'h'
  | ast => 'a'
  | tokens => 't'
  | interactive => 'i'
  | verbose => 'v'

/-- The long name of an option, which is written behind two dashes. -/
def name : Flag → String
  | help => "help"
  | ast => "ast"
  | tokens => "tokens"
  | interactive => "interactive"
  | verbose => "verbose"

/-- The option with the given letter. -/
def ofLetter? (c : Char) : Option Flag :=
  all.find? (·.letter = c)

/-- The options whose long names start as given. -/
def startingWith (start : List Char) : List Flag :=
  all.filter fun flag ↦ start.isPrefixOf flag.name.toList

theorem ofLetter?_letter (flag : Flag) : ofLetter? flag.letter = some flag := by
  cases flag <;> rfl

theorem startingWith_name (flag : Flag) : startingWith flag.name.toList = [flag] := by
  cases flag <;> decide

end Flag

/-- What an argument is in front of the mark that ends the options. -/
inductive Argument
  | path (text : String)
  | flags (flags : List Flag)
  /-- Neither: an unknown option, a start of several names, or letters or a value out of place. -/
  | invalid
  deriving DecidableEq, Repr

namespace Argument

/-- Whether the text is made of digits of any script, or has a point and more digits behind. -/
def isDecimalNumber (text : List Char) : Bool :=
  match text.dropWhile Text.isDecimal with
  | [] => text ≠ []
  | '.' :: fraction => fraction ≠ [] && fraction.all Text.isDecimal
  | _ => false

/-- The text without the line break at its end, if there is one. -/
def withoutLineBreak (text : List Char) : List Char :=
  if text.getLast? = some '\n' then text.dropLast else text

/-- What a text is that starts with a dash but not with the name of an option: a path if the
rest is a number or there is a space in it. The number may have a line break behind it. -/
def ofUnnamed (text : String) (rest : List Char) : Argument :=
  if isDecimalNumber (withoutLineBreak rest) || rest.contains ' ' then path text else invalid

/-- The options whose letters are joined to a first one. An equals sign may stand in front of
them, but not without them. -/
def joined? : List Char → Option (List Flag)
  | ['='] => none
  | '=' :: letters => letters.mapM Flag.ofLetter?
  | letters => letters.mapM Flag.ofLetter?

/-- What a text with the given letters behind one dash is. The first letter decides whether
it is an option; the others must be options then. -/
def ofLetters (text : String) (first : Char) (others : List Char) : Argument :=
  match Flag.ofLetter? first with
  | none => ofUnnamed text (first :: others)
  | some flag =>
    match joined? others with
    | some more => flags (flag :: more)
    | none => invalid

/-- What a text with the given word behind two dashes is. Up to an equals sign the word is the
start of the name of an option, which is the one that is meant if it is the only one. -/
def ofWord (text : String) (word : List Char) : Argument :=
  match Flag.startingWith (word.takeWhile (· ≠ '=')) with
  | [] => ofUnnamed text ('-' :: word)
  | [flag] => if word.contains '=' then invalid else flags [flag]
  | _ => invalid

/-- What a text is. A dash alone is a path. -/
def ofText (text : String) : Argument :=
  match text.toList with
  | '-' :: '-' :: word => ofWord text word
  | '-' :: first :: others => ofLetters text first others
  | _ => path text

end Argument

end Reckoner
