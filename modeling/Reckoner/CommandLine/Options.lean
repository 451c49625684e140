import Reckoner.CommandLine.Argument

/-!
What a command line asks for. Options stand in any order around the path, of which there is
at most one, and behind `--` nothing is an option.
-/

set_option autoImplicit false
set_option relaxedAutoImplicit false

namespace Reckoner

/-- What the command line asks for. -/
structure Options where
  /-- The file to evaluate. -/
  path : Option String
  /-- To evaluate lines of input even if there is a file. -/
  interactive : Bool
  showTokens : Bool
  showTree : Bool
  /-- To keep a log of the work, for which there is nothing to write. -/
  verbose : Bool
  deriving DecidableEq, Repr

namespace Options

/-- No options and no path. -/
def initial : Options := ⟨none, false, false, false, false⟩

/-- The options with one more. Who asks for help gets the usage only, and no work is done. -/
def addFlag (options : Options) : Flag → Option Options
  | .help => none
  | .ast => some { options with showTree := true }
  | .tokens => some { options with showTokens := true }
  | .interactive => some { options with interactive := true }
  | .verbose => some { options with verbose := true }

/-- The options with a path, unless there is one. -/
def addPath (options : Options) (path : String) : Option Options :=
  if options.path.isNone then some { options with path := some path } else none

/-- The options that arguments ask for; none if they cannot be understood. The mark that ends
the options stands next to the path: behind a path there may be nothing between it and the
mark, and nothing after it. -/
def ofArguments (options : Options) : List String → Option Options
  | [] => some options
  | "--" :: paths => if options.path.isNone then paths.foldlM addPath options else none
  | argument :: rest =>
    match Argument.ofText argument with
    | .path text =>
      (options.addPath text).bind fun next ↦
        if rest = ["--"] then some next else next.ofArguments rest
    | .flags flags => (flags.foldlM addFlag options).bind (ofArguments · rest)
    | .invalid => none

end Options

end Reckoner
