import TreeLint.Command.Basic

/-! The program. It reads the files below the working directory, runs the command on them, writes
back the files that the command changed, and shows the response. -/

namespace TreeLint

/-- What is at a directory entry and below it; the bytes of the files are added to those that there
are, and what cannot be read is left out. -/
partial def readEntry (entry : IO.FS.DirEntry) :
    StateT (List (Nat × List UInt8)) IO (Option (String × Entry)) := do
  try
    if ← entry.path.isDir then
      let inner ← (← entry.path.readDir).toList.filterMapM readEntry
      return some (entry.fileName, .directory {} inner)
    else
      let bytes ← IO.FS.readBinFile entry.path
      modifyGet fun contents =>
        (some (entry.fileName, .file contents.length {}), (contents.length, bytes.toList) :: contents)
  catch _ => return none

def readFiles : IO FileSystem := do
  let place ← IO.currentDir
  let start := (Path.ofString place.toString).segments
  let (entries, contents) ← ((← place.readDir).toList.filterMapM readEntry).run []
  return FileSystem.putEntry { entries := [], start, contents } start (.directory {} entries)

def writeFiles (files : List (List String × List UInt8)) : IO Unit :=
  files.forM fun (names, bytes) =>
    IO.FS.writeBinFile (Path.text ⟨.root, names⟩) (ByteArray.mk bytes.toArray)

/-- Show how the program is used, where the arguments ask for that or are used wrongly. -/
def showUsage (arguments : List String) : IO Unit :=
  match Command.Task.ofArguments arguments with
  | some .help => Command.usage.forM IO.println
  | some _ => pure ()
  | none => Command.usage.forM IO.eprintln

end TreeLint

attribute [local instance] TreeLint.Host.usual

open TreeLint in
def main (arguments : List String) : IO UInt32 := do
  let files ← readFiles
  let done := Command.run (← IO.currentDir).toString files arguments
  writeFiles (FileSystem.changes files done.files)
  match done.result with
  | .error error =>
    IO.eprintln ((error.message? Host.half?).getD "error")
    return 1
  | .ok response =>
    showUsage arguments
    IO.print response.stdout
    (response.console.flatMap Report.Output.plain).forM IO.println
    return response.exitCode.toUInt32
