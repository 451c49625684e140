import Reckoner.CommandLine

/-!
The program's entry. All decisions are made by the functions on transcripts; here arguments,
file and lines of input are fetched and what is to be written is written.
-/

set_option autoImplicit false
set_option relaxedAutoImplicit false

namespace Reckoner

/-- Writes a transcript. -/
def Transcript.write (transcript : Transcript) : IO Unit := do
  IO.print transcript.out
  IO.eprint transcript.err
  (← IO.getStdout).flush

/-- The text of a file, if it can be read. -/
def readFile? (path : String) : IO (Option String) := do
  try
    return some (← IO.FS.readFile path)
  catch _ =>
    return none

namespace CommandLine

/-- The next line of input and the lines that were read with it, if there is one. -/
def nextLine (waiting : List String) : IO (Option (String × List String)) := do
  match waiting with
  | line :: rest => return some (line, rest)
  | [] =>
    match Source.lines (← (← IO.getStdin).getLine) with
    | [] => return none
    | line :: rest => return some (line, rest)

/-- Evaluates lines of input as they come in. -/
partial def talk (options : Options) (session : Session) (waiting : List String) : IO Unit := do
  IO.print prompt
  (← IO.getStdout).flush
  match ← nextLine waiting with
  | none => IO.print "\n"
  | some (line, rest) =>
    if isLast line then return ()
    let (transcript, next) := evaluate nestingLimit options session line
    transcript.write
    talk options next rest

end CommandLine

end Reckoner

open Reckoner Reckoner.CommandLine in
/-- Runs the program and returns its exit status. -/
def main (arguments : List String) : IO UInt32 := do
  match Options.initial.ofArguments arguments with
  | none =>
    IO.eprint usage
    return 2
  | some options =>
    match options.path with
    | none =>
      talk options .standard []
      return 0
    | some path =>
      match ← readFile? path with
      | none =>
        missingFile.write
        return (status missingFile).toUInt32
      | some source =>
        let (batch, session) := evaluateFile nestingLimit options .standard source
        batch.write
        if options.interactive then talk options session []
        return (status batch).toUInt32
