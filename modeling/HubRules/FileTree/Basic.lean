import HubRules.Text.Basic

/-!
# File trees

The files that a build reads and writes, as a value: every path from the root
leads to a file or a folder. Each operation gives its result and, where it
writes, the new tree, or the reason for which the system refuses it. An entry is
found where it was set, and nothing else changes (`at?_set`). Paths are texts with slashes;
joining them and taking the parent look at no file.
-/

namespace HubRules

namespace FilePath

/-- A path below another one; an absolute path stands for itself. -/
def join (base below : String) : String :=
  if below.toList.head? = some '/' || base.isEmpty then below
  else if base.toList.getLast? = some '/' then base ++ below
  else base ++ "/" ++ below

/-- The names that a path leads through; empty names and single dots lead nowhere. -/
def names (path : String) : List String :=
  ((Text.split '/' path.toList).map String.ofList).filter fun name => name ≠ "" && name ≠ "."

/-- Whether no system takes a path: the character of code zero ends paths there. -/
def isInvalid (path : String) : Bool := path.toList.any (·.toNat == 0)

/-- Whether a path can only mean a folder. -/
def endsAsFolder (path : String) : Bool :=
  match (Text.split '/' path.toList).getLast? with
  | some last => last.isEmpty || last = ['.'] || last = ['.', '.']
  | none => false

/-- The text without trailing slashes and single dots. -/
def trimmed (parts : List Text) : List Text :=
  (parts.reverse.dropWhile fun part => part.isEmpty || part = ['.']).reverse

/-- The path of the folder that holds a path, if it has one. -/
def parent? (path : String) : Option String :=
  let parts := Text.split '/' path.toList
  match parts with
  | [] => none
  | first :: rest =>
    match trimmed rest with
    | [] => if first.isEmpty then none else some ""
    | kept =>
      let above := first :: trimmed kept.dropLast
      some (if above = [[]] then "/" else String.ofList (Text.join ['/'] above))

end FilePath

/-- What a file holds: text, or bytes that are no UTF-8. -/
inductive Content where
  | text (text : String)
  | binary (bytes : List UInt8)
  deriving DecidableEq, Repr

/-- What is at a path. -/
inductive Entry where
  | file (content : Content)
  | folder
  deriving DecidableEq, Repr

/-- Why the system refuses an operation on a file. -/
inductive FileError where
  | notFound
  | alreadyExists
  | notFolder
  | isFolder
  | notText
  | invalidName
  deriving DecidableEq, Repr

def FileError.message : FileError → String
  | .notFound => "No such file or directory (os error 2)"
  | .alreadyExists => "File exists (os error 17)"
  | .notFolder => "Not a directory (os error 20)"
  | .isFolder => "Is a directory (os error 21)"
  | .notText => "stream did not contain valid UTF-8"
  | .invalidName => "file name contained an unexpected NUL byte"

/-- A tree: what is at which path, given as the names that lead there from the working
folder. A path that begins with `/` leads there from the system's root, and one that
begins with `..` from a folder above the working one. -/
structure FileTree where
  entries : List (List String × Entry)

namespace FileTree

def empty : FileTree := ⟨[]⟩

/-- The name that stands for the system's root. -/
def systemRoot : String := "/"

/-- Whether names lead to a folder that is there in every tree: the working folder, one
above it or the system's root. -/
def isAnchor (names : List String) : Bool := names = [systemRoot] || names.all (· = "..")

/-- The folder above a folder; the system's root is above itself. -/
def above (names : List String) : List String :=
  if names = [systemRoot] then names
  else if isAnchor names then names ++ [".."]
  else names.dropLast

def namesOf (path : String) : List String :=
  (if path.toList.head? = some '/' then [systemRoot] else []) ++ FilePath.names path

/-- What is at a sequence of names. -/
def at? (tree : FileTree) (names : List String) : Option Entry :=
  if isAnchor names then some .folder else tree.entries.lookup names

/-- Sets what is at a sequence of names, in place if something is there. -/
def setEntries : List (List String × Entry) → List String → Entry → List (List String × Entry)
  | [], names, entry => [(names, entry)]
  | (key, old) :: rest, names, entry =>
    if key == names then (key, entry) :: rest else (key, old) :: setEntries rest names entry

/-- The tree with an entry at a sequence of names. -/
def set (tree : FileTree) (names : List String) (entry : Entry) : FileTree :=
  ⟨setEntries tree.entries names entry⟩

theorem lookup_setEntries (entries : List (List String × Entry)) (names key : List String)
    (entry : Entry) :
    (setEntries entries names entry).lookup key =
      if key = names then some entry else entries.lookup key := by
  induction entries with
  | nil => grind [setEntries]
  | cons member rest ih =>
    obtain ⟨first, old⟩ := member
    simp only [setEntries]
    by_cases h : first = names <;> grind

theorem at?_set (tree : FileTree) (names key : List String) (entry : Entry) :
    (tree.set names entry).at? key =
      if isAnchor key then some .folder
      else if key = names then some entry else tree.at? key := by
  simp only [at?, set, lookup_setEntries]
  split <;> simp_all

/-- Where a path leads. All names before the last one must be folders. -/
def locateFrom (tree : FileTree) : List String → List String → Except FileError (List String)
  | here, [] => .ok here
  | here, name :: rest =>
    match tree.at? here with
    | none => .error .notFound
    | some (.file _) => .error .notFolder
    | some .folder =>
      locateFrom tree (if name = ".." then above here else here ++ [name]) rest

/-- Where a path leads; an empty one leads nowhere. -/
def locate (tree : FileTree) (path : String) : Except FileError (List String) :=
  if path.isEmpty then .error .notFound
  else if FilePath.isInvalid path then .error .invalidName
  else locateFrom tree [] (namesOf path)

/-- Whether there is anything at a path. -/
def exists? (tree : FileTree) (path : String) : Bool :=
  match tree.locate path with
  | .ok names =>
    match tree.at? names with
    | some .folder => true
    | some (.file _) => !FilePath.endsAsFolder path
    | none => false
  | .error _ => false

def isFolder (tree : FileTree) (path : String) : Bool :=
  match tree.locate path with
  | .ok names => tree.at? names = some .folder
  | .error _ => false

def read (tree : FileTree) (path : String) : Except FileError Content := do
  let names ← tree.locate path
  match tree.at? names with
  | none => throw .notFound
  | some .folder => throw .isFolder
  | some (.file content) => if FilePath.endsAsFolder path then throw .notFolder else return content

def readText (tree : FileTree) (path : String) : Except FileError String := do
  match ← tree.read path with
  | .text text => return text
  | .binary _ => throw .notText

/-- Writes a file; the folder that holds it must be there. -/
def write (tree : FileTree) (path : String) (content : Content) : Except FileError FileTree := do
  let names ← tree.locate path
  if (tree.at? names.dropLast).isNone then throw .notFound
  match tree.at? names with
  | some .folder => throw .isFolder
  | some (.file _) =>
    if FilePath.endsAsFolder path then throw .notFolder
    else return tree.set names (.file content)
  | none =>
    if FilePath.endsAsFolder path then throw .isFolder
    else if (tree.at? names.dropLast) = some .folder then return tree.set names (.file content)
    else throw .notFolder

/-- Makes the folders on the way down a path that are not there yet. -/
def makeFoldersFrom (tree : FileTree) :
    List String → List String → Except FileError FileTree
  | _, [] => .ok tree
  | here, name :: rest =>
    if name = ".." then makeFoldersFrom tree (above here) rest
    else
      match tree.at? (here ++ [name]) with
      | some .folder => makeFoldersFrom tree (here ++ [name]) rest
      | some (.file _) => .error (if rest.isEmpty then .alreadyExists else .notFolder)
      | none => makeFoldersFrom (tree.set (here ++ [name]) .folder) (here ++ [name]) rest

/-- Makes a folder and those above it. If it is refused, there is no new tree. A system keeps the
folders that were made before a name was refused, which can only be on a path with `..`. -/
def makeFolders (tree : FileTree) (path : String) : Except FileError FileTree :=
  if FilePath.isInvalid path then .error .invalidName
  else makeFoldersFrom tree [] (namesOf path)

/-- Removes what is at a path, with everything below it. -/
def remove (tree : FileTree) (path : String) : Except FileError FileTree := do
  let names ← tree.locate path
  match tree.at? names with
  | none => throw .notFound
  | some _ => return ⟨tree.entries.filter fun entry => !names.isPrefixOf entry.1⟩

end FileTree

end HubRules
