import Stubwise.Command
import Stubwise.Files.Host

namespace Stubwise.Program

def internalError : String :=
  "Internal error\nThis is a bug. Please report it.\n"

def readLine (question : String) : IO (Option String) := do
  let output ← IO.getStdout
  output.putStr question
  output.flush
  let line ← (← IO.getStdin).getLine
  if line.isEmpty then return none
  return some (String.ofList (Text.dropEndWhile (· == '\n') line.toList))

partial def readBlock (entry : String) : IO (Option String) := do
  match ← readLine "... " with
  | none => return none
  | some line =>
    if line.toList.all Char.isWhitespace then return some entry
    else readBlock (entry ++ "\n" ++ line)

def readEntry : IO (Option String) := do
  match ← readLine ">>> " with
  | none => return none
  | some line =>
    if (Text.dropEndWhile Char.isWhitespace line.toList).getLast? == some ':' then readBlock line
    else return some line

partial def converse (coloured : Bool) (frame : Nat) (session : Session) : IO UInt32 := do
  match ← readEntry with
  | none => do
    IO.println ""
    return 0
  | some entry =>
    let kept := String.ofList
      (Text.dropEndWhile Char.isWhitespace (entry.toList.dropWhile Char.isWhitespace))
    if kept.isEmpty then converse coloured frame session
    else if kept == ":quit" then return 0
    else
      let source := if kept == ":names" then kept else entry
      match (Dialogue.eval coloured frame source).run.run session with
      | (.error _, _) => do
        IO.eprint internalError
        return 1
      | (.ok reply, session) => do
        IO.eprint reply.reports
        IO.print reply.output
        converse coloured frame session

def startDialogue (coloured : Bool) (session : Session) : IO UInt32 := do
  IO.println
    s!"stubinfer {Command.version}. Enter statements; :names lists bindings, :quit exits."
  match Session.addModuleFrame.run.run session with
  | (.ok frame, session) => converse coloured frame session
  | (.error _, _) => do
    IO.eprint internalError
    return 1

def run (arguments : List String) : IO UInt32 := do
  let coloured ← (← IO.getStdout).isTty
  match ← ({ files := Host.files, coloured } : Command.Context IO).run arguments with
  | .finished outcome => do
    IO.print outcome.output
    IO.eprint outcome.errors
    return UInt32.ofNat outcome.code
  | .dialogue session => startDialogue coloured session
  | .crashed => do
    IO.eprint internalError
    return 1

end Stubwise.Program

def main (arguments : List String) : IO UInt32 :=
  Stubwise.Program.run arguments
