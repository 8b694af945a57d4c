import BlockScript.CommandLine
/-!
# The program

Reads the file that the arguments name and carries out the report of the command line.
-/

open BlockScript

/-- What a path leads to. -/
def entryAt (path : String) : IO CommandLine.Entry := do
  try
    return .file (← IO.FS.readFile path)
  catch e =>
    match e with
    | .inappropriateType .. => return .directory
    | _ => return .missing

/-- The program. -/
def main (arguments : List String) : IO UInt32 := do
  let entry ← match CommandLine.inputPath? arguments with
    | some path => entryAt path
    | none => pure .missing
  let report := CommandLine.run arguments fun _ => entry
  for (path, text) in report.written do
    IO.FS.writeFile path text
  IO.print report.out
  match report.ending with
  | .exit status complaint =>
    if let some complaint := complaint then
      IO.eprint complaint.text
    return status.toUInt32
  | .abort error =>
    IO.eprintln error.report
    return 1
  | .notAFile path =>
    IO.eprintln (path ++ " is a directory")
    return 1
