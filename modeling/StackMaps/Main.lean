import StackMaps.CommandLine

/-!
# The program

Reads a listing from a file or from the standard input, and writes it with
recomputed bodies to the standard output.
-/

open StackMaps CommandLine

/-- Read the standard input to its end. -/
partial def readInput (stream : IO.FS.Stream) (lines : String) : IO String := do
  let line ← stream.getLine
  if line.isEmpty then return lines else readInput stream (lines ++ line)

/-- Recompute the listing that the arguments name. -/
def main (arguments : List String) : IO UInt32 := do
  match readArguments .initial arguments with
  | .error fault =>
      IO.eprintln ("error: " ++ fault.message)
      return 2
  | .ok options =>
      match options.input with
      | none =>
          IO.eprintln ("error: " ++ UsageFault.missingInput.message)
          return 2
      | some input =>
          let source ←
            if input = "-" then readInput (← IO.getStdin) "" else IO.FS.readFile input
          match recomputeText options source with
          | .ok text =>
              IO.print text
              return 0
          | .error error =>
              IO.eprintln ("Error: " ++ error.message)
              return 1
