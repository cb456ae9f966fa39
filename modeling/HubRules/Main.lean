import HubRules.Command.Run

/-!
# The program

Reads the files that a command can see into a tree, runs the command on the tree, writes
back what it changed, and prints what it says.
-/

namespace HubRules.Main

def pathOf (names : List String) : String :=
  match names with
  | first :: rest =>
    if first = FileTree.systemRoot then "/" ++ "/".intercalate rest else "/".intercalate names
  | [] => "."

def contentOf (bytes : ByteArray) : Content :=
  match String.fromUTF8? bytes with
  | some text => .text text
  | none => .binary bytes.toList

/-- The tree with a file of the disk, or a folder and all that is in it. What cannot be
read is left out. -/
partial def load (tree : FileTree) (names : List String) : IO FileTree := do
  try
    let path ← IO.FS.realPath (pathOf names)
    if ← path.isDir then
      let mut tree := tree.set names .folder
      for entry in ← path.readDir do
        tree ← load tree (names ++ [entry.fileName])
      return tree
    else if ← path.pathExists then
      return tree.set names (.file (contentOf (← IO.FS.readBinFile path)))
    else return tree
  catch _ => return tree

/-- The tree with what is at a path of the disk, and the folders on the way there. -/
def loadPath (tree : FileTree) (path : String) : IO FileTree := do
  try
    let _ ← IO.FS.realPath path
    let folder := (FilePath.parent? path).getD ""
    load ((tree.makeFolders folder).toOption.getD tree) (FileTree.namesOf path)
  catch _ => return tree

/-- The files that a command can see: those below its root, and the configuration file
that the environment names. -/
def visible (arguments : List String) (lookup : String → Option String) : IO FileTree := do
  match CommandLine.ofArguments? arguments with
  | some (.run _ options) =>
    let tree ← loadPath .empty options.root
    match lookup BuildInputs.configurationVariable with
    | some file => loadPath tree (FilePath.join options.root file)
    | none => return tree
  | _ => return .empty

/-- Writes what is different in a tree to the disk. -/
def save (old new : FileTree) : IO Unit := do
  for (names, entry) in new.entries do
    if old.at? names != some entry then
      match entry with
      | .folder => IO.FS.createDirAll (pathOf names)
      | .file (.text text) => IO.FS.writeFile (pathOf names) text
      | .file (.binary bytes) => IO.FS.writeBinFile (pathOf names) ⟨bytes.toArray⟩

/-- The values of the variables that inputs are read from. -/
def environment : IO (List (String × String)) :=
  BuildInputs.variableNames.filterMapM fun name => do
    return (← IO.getEnv name).map (name, ·)

end HubRules.Main

open HubRules in
/-- Runs the program; the exit code tells what kind of failure there was. -/
def main (arguments : List String) : IO UInt32 := do
  let values ← Main.environment
  let lookup (name : String) : Option String := List.lookup name values
  let tree ← Main.visible arguments lookup
  let (outcome, changed) : Except CommandError String × FileTree :=
    StateT.run (ExceptT.run (Command.runArguments arguments lookup)) tree
  Main.save tree changed
  match outcome with
  | .ok text =>
    IO.print text
    return 0
  | .error .usage =>
    IO.eprintln CommandError.usage.message
    return CommandError.usage.exitCode.toUInt32
  | .error cause =>
    IO.eprintln ("Error: " ++ cause.message)
    return cause.exitCode.toUInt32
