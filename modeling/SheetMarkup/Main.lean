import SheetMarkup.Command.Arguments

/-!
# The program

Reads the templates named on the command line and writes what the command comes to.
-/

open SheetMarkup.Command

/-- What is found in the file system. -/
def readContent (path : String) : IO Content := do
  try
    return .ofBytes (← IO.FS.readBinFile path)
  catch _ =>
    return .missing

def main (arguments : List String) : IO UInt32 := do
  match invocation? arguments with
  | none =>
    (← IO.getStderr).putStr usage
    return 2
  | some invocation =>
    let outcome ← invocation.runWith readContent
    (← IO.getStdout).putStr outcome.output
    (← IO.getStderr).putStr outcome.errors
    return UInt32.ofNat outcome.status
