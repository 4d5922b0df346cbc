import Logo.CommandLine.Run

/-!
# The program

Reads the arguments and the program's file, and prints what there is to say.
-/

open Logo

def readFailure : IO.Error → String
  | .noFileOrDirectory _ _ details => details.capitalize
  | .inappropriateType _ _ details => details.capitalize
  | .permissionDenied _ _ details => details.capitalize
  | error => toString error

/-- A random choice of words, or of a seed. -/
def anyNumber : IO Nat := IO.rand 0 (Nat.pow 2 62)

def conclude (conclusion : CommandLine.Conclusion) : IO UInt32 := do
  IO.print conclusion.out
  IO.eprint conclusion.err
  match conclusion.ending with
  | .exit status => return UInt32.ofNat status
  | .idle => return 0
  | .undecodable =>
    IO.eprintln "The program is not text in UTF-8."
    return 1
  | .unnameable =>
    IO.eprintln "No file can have this name."
    return 1
  | .fault fault =>
    IO.eprintln (reprStr fault)
    return 1

def main (arguments : List String) : IO UInt32 := do
  let exclamation := exclamation (← anyNumber) (← anyNumber) (← anyNumber)
  match CommandLine.start arguments exclamation with
  | .finished conclusion => conclude conclusion
  | .reading options language =>
    let directory := (← IO.currentDir).toString
    let path := CommandLine.programPath directory options.program
    let contents ←
      try pure (Except.ok (← IO.FS.readBinFile path))
      catch error => pure (Except.error (readFailure error))
    let draws := Draws.seeded (UInt64.ofNat (← anyNumber))
    conclude
      (CommandLine.proceed options language path contents draws exclamation)
