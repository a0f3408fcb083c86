import DocIdent.CommandLine

/-!
# The program

Reads the directory in which it is called, performs the call on it, writes back the files that the
call changed, and reports.
-/

namespace DocIdent.Program

/-- What stands in a directory. -/
partial def readDirectory (path : String) : IO (List (String × Node)) := do
  let found ← (← IO.FS.realPath path).readDir
  found.toList.mapM fun entry => do
    if ← entry.path.isDir then
      return (entry.fileName, .directory (← readDirectory (Path.join path entry.fileName)))
    else
      return (entry.fileName, .file (← IO.FS.readBinFile entry.path))

/-- Writes the files of a tree that another tree does not have. -/
def writeChanges (old new : FileTree) : IO Unit := do
  let before := old.top.files ""
  for (path, content) in new.top.files "" do
    if !(before.any fun f => f.1 == path && f.2 == content) then
      IO.FS.writeBinFile path content

/-- The tree that a call works on. Only a command needs to see it. -/
def readTree : Invocation → IO FileTree
  | .run _ => do return ⟨← readDirectory "."⟩
  | _ => return {}

end DocIdent.Program

/-- The program. -/
def main (arguments : List String) : IO UInt32 := do
  let invocation := DocIdent.Invocation.ofArguments arguments
  let tree ← DocIdent.Program.readTree invocation
  let (result, changed) := invocation.perform tree
  DocIdent.Program.writeChanges tree changed
  IO.print result.output
  IO.eprint result.errors
  return result.exitCode.toUInt32
