import JerkLimit.CommandLine

/-!
# Main — the command

The files of the machine as a `FileSystem`, and the command that runs on them. It prints nothing:
its answer is the files that it writes and its exit code.
-/

namespace JerkLimit

/-- Whether an action succeeds. -/
def succeeds (action : IO Unit) : IO Bool := do
  try
    action
    return true
  catch _ => return false

instance : FileSystem IO where
  read path := do
    try
      return some (← IO.FS.readBinFile path)
    catch _ => return none
  create path := succeeds (IO.FS.writeFile path "")
  append path text := do
    let file ← IO.FS.Handle.mk path .append
    file.putStr text
  makeDirectories path := succeeds do
    if endsInDot (pathNames path) then
      let before := "/".intercalate (namesBefore (pathNames path))
      unless before.isEmpty do IO.FS.createDirAll before
      discard (IO.FS.realPath path)
    else IO.FS.createDirAll path

end JerkLimit

def main (args : List String) : IO UInt32 := do
  let exit ← JerkLimit.CommandLine.execute args
  return exit.code.toUInt32
