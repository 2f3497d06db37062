import IntervalDump.CommandLine
/-!
# The program

Fetches the files that the arguments name, runs the command on them and prints what it gives: the
report on standard output, notices of errors on standard error.
-/

open IntervalDump

/-- What a path of the file system leads to. -/
def fetch (path : String) : IO Dump.File := do
  try
    let bytes ← IO.FS.readBinFile path
    return .content bytes.toList
  catch error =>
    match error with
    | .noFileOrDirectory .. => return .missing
    | .inappropriateType _ code _ => return if code = 20 then .notADirectory else .directory
    | .invalidArgument _ code _ =>
      return if code = 36 then .nameTooLong else .closed (toString error)
    | _ => return .closed (toString error)

/-- Runs the program and prints what it leaves. -/
def main (arguments : List String) : IO UInt32 := do
  let files ← (CommandLine.paths arguments).mapM fun path => return (path, ← fetch path)
  let result := CommandLine.run (fun path => (files.lookup path).getD .missing) arguments
  for notice in result.notices do
    if notice.level = .error then
      IO.eprintln s!"[{notice.level.name} simdump] {CommandLine.noticeText notice}"
  IO.print result.output
  return result.exit
