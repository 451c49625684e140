import Reckoner.CommandLine.Options
import Reckoner.Expr.Printing
import Reckoner.Session

/-!
The program as a whole: what it writes for given options, file and input. Without a file,
or if asked to, it evaluates the lines of its input behind a prompt, up to the first blank
one. What becomes of these lines does not count for success.
-/

set_option autoImplicit false
set_option relaxedAutoImplicit false

namespace Reckoner

/-- What is written to both outputs, and whether all went well. -/
structure Transcript where
  out : String
  err : String
  ok : Bool
  deriving DecidableEq, Repr

namespace Transcript

/-- Nothing written. -/
def empty : Transcript := ⟨"", "", true⟩

/-- One transcript behind the other. All went well if it did in both. -/
def append (first second : Transcript) : Transcript :=
  ⟨first.out ++ second.out, first.err ++ second.err, first.ok && second.ok⟩

end Transcript

namespace CommandLine

/-- Lines as they are written. -/
def written (lines : List String) : String :=
  String.join (lines.map (· ++ "\n"))

/-- The line for the tokens of a statement, if they are asked for and can be read. -/
def tokenLines (limit : Nat) (options : Options) (statement : String) : List String :=
  if options.showTokens then
    match Session.tokenize limit statement with
    | .ok tokens => [Token.renderAll tokens]
    | .error _ => []
  else []

/-- Evaluates a statement and writes what came of it. -/
def evaluate (limit : Nat) (options : Options) (session : Session) (statement : String) :
    Transcript × Session :=
  let tokens := tokenLines limit options statement
  match session.parse limit statement with
  | (.error failure, next) => (⟨written tokens, written [failure.report], false⟩, next)
  | (.ok expr, next) =>
    let tree := if options.showTree then [expr.render] else []
    match next.execute limit expr with
    | .error failure => (⟨written (tokens ++ tree), written [failure.report], false⟩, next)
    | .ok value =>
      let result := if value.display = "" then [] else [value.display]
      (⟨written (tokens ++ tree ++ result), "", true⟩, next)

/-- Evaluates statements one after the other. -/
def evaluateAll (limit : Nat) (options : Options) (session : Session) :
    List String → Transcript × Session
  | [] => (.empty, session)
  | statement :: rest =>
    let (first, next) := evaluate limit options session statement
    let (others, last) := evaluateAll limit options next rest
    (first.append others, last)

/-- Evaluates the statements of a file. -/
def evaluateFile (limit : Nat) (options : Options) (session : Session) (source : String) :
    Transcript × Session :=
  evaluateAll limit options session (Source.statements (Source.normalize source))

/-- What is written in front of every line of input. -/
def prompt : String := "> "

/-- Whether a line of input ends the conversation. -/
def isLast (line : String) : Bool :=
  Text.isBlankText line.toList

/-- Evaluates lines of input up to a blank one or to the end of input. -/
def converse (limit : Nat) (options : Options) (session : Session) : List String → Transcript
  | [] => ⟨prompt ++ "\n", "", true⟩
  | line :: rest =>
    if isLast line then ⟨prompt, "", true⟩
    else
      let (first, next) := evaluate limit options session line
      (Transcript.mk prompt "" true).append (first.append (converse limit options next rest))

/-- What is written about a path without a file. -/
def missingFile : Transcript := ⟨"", "the path specified does not exist\n", false⟩

/-- What is written about arguments that cannot be understood. -/
def usage : String := "usage: reckoner [-a] [-t] [-i] [-v] [path]\n"

/-- All that the program writes. The file is the text at the path, if there is one. -/
def transcript (limit : Nat) (options : Options) (file : Option String) (input : String) :
    Transcript :=
  match options.path with
  | none => { converse limit options .standard (Source.lines input) with ok := true }
  | some _ =>
    match file with
    | none => missingFile
    | some source =>
      let (batch, session) := evaluateFile limit options .standard source
      if options.interactive then
        { batch.append (converse limit options session (Source.lines input)) with ok := batch.ok }
      else batch

/-- The exit status. -/
def status (transcript : Transcript) : Nat :=
  if transcript.ok then 0 else 1

end CommandLine

end Reckoner
