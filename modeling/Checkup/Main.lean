import Checkup.Program.CommandLine
import Std.Time.DateTime.Timestamp

/-!
# The executable

Reads the current directory, the environment and the clock, runs the program on
them, and carries out what it comes to: files are written back where they
differ, and texts are printed. The current directory is the top of the tree; what
is outside is neither read nor written.
-/

namespace Checkup.Main

/-- The target of a link as the tree has it, by where it leads: names from the directory of the
link, which is `depth` directories below the top. A target outside the top stays absolute, and so
leads nowhere in the tree. -/
def linkTarget (top : String) (depth : Nat) (target : String) : String :=
  if Path.isWithin target top then
    let below := (Path.components target).drop (Path.components top).length
    "/".intercalate (List.replicate depth ".." ++ "." :: below)
  else target

/-- Reads what is at a path, `depth` directories below the top. Special files are left out. A link
whose target is missing leads nowhere in the tree; writing through it is refused, though a file
system would make the target. -/
partial def readNode (top : String) (depth : Nat) (entry : IO.FS.DirEntry) :
    IO (Option (String × FileTree)) := do
  match (← entry.path.symlinkMetadata).type with
  | .dir =>
    let nodes ← (← entry.path.readDir).toList.filterMapM (readNode top (depth + 1))
    return some (entry.fileName, .directory nodes)
  | .file => return some (entry.fileName, .file (← IO.FS.readBinFile entry.path))
  | .symlink =>
    let target ←
      try
        pure (linkTarget top depth (← IO.FS.realPath entry.path).toString)
      catch _ => pure "/"
    return some (entry.fileName, .link target)
  | .other => return none

/-- Reads the current directory. -/
def readFiles : IO FileTree := do
  let here ← IO.currentDir
  let top ← IO.FS.realPath here
  return .directory (← (← here.readDir).toList.filterMapM (readNode top.toString 0))

/-- The variables that logging looks at. -/
def readEnvironment : IO Environment := do
  let names := [Logging.filterVariable, Logging.formatVariable, Logging.destinationVariable]
  let entries ← names.filterMapM fun name => do
    return (← IO.getEnv name).map (name, ·)
  return OrderedMap.ofList entries

/-- Writes files that are new or have changed, below a path, and removes files and links that are
gone. No program makes a link or removes a directory. -/
partial def writeFiles (path : String) (before after : FileTree) : IO Unit := do
  for (name, node) in after.entries do
    let path := Path.join path name
    match before.child? name, node with
    | some (.file old), .file new => if old.data ≠ new.data then IO.FS.writeBinFile path new
    | _, .file new => IO.FS.writeBinFile path new
    | old, .directory _ =>
      if old.isNone then IO.FS.createDir path
      writeFiles path (old.getD .empty) node
    | _, .link _ => pure ()
  for (name, node) in before.entries do
    unless node.isDirectory || (after.child? name).isSome do
      IO.FS.removeFile (Path.join path name)

end Checkup.Main

/-- Runs the program in the current directory. -/
def main (arguments : List String) : IO UInt32 := do
  let files ← Checkup.Main.readFiles
  let now ← Std.Time.Timestamp.now
  let ending := Checkup.CommandLine.run arguments (← Checkup.Main.readEnvironment)
    now.toSecondsSinceUnixEpoch.toInt files
  Checkup.Main.writeFiles "." files ending.files
  IO.print ending.out
  IO.eprint ending.err
  return UInt32.ofNat ending.exitCode
