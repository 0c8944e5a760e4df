/-!
# Files

Reading a file either yields its text or fails in one of three ways. `Directory` is a
directory held in memory: files under relative paths, and the directories on the way.
-/

namespace ContractAsm.CommandLine

inductive FileError where
  | missing
  | isDirectory
  | notDirectory
deriving DecidableEq, Repr

def FileError.message (path : String) : FileError → String
  | missing => "ENOENT: no such file or directory, open '" ++ path ++ "'"
  | isDirectory => "EISDIR: illegal operation on a directory, read"
  | notDirectory => "ENOTDIR: not a directory, open '" ++ path ++ "'"

/-- Files, each under the names on the way to it and its own, with their texts. -/
structure Directory where
  files : List (List String × String)

namespace Directory

def splitPath (path : String) : List String :=
  let parts := path.toList.foldr (fun c parts =>
    if c = '/' then [] :: parts
    else match parts with
      | [] => [[c]]
      | part :: rest => (c :: part) :: rest) [[]]
  parts.map String.ofList

def isName (part : String) : Bool := part ≠ "" && part ≠ "."

def ofFiles (files : List (String × String)) : Directory :=
  ⟨files.map fun (path, text) => ((splitPath path).filter isName, text)⟩

def file? (directory : Directory) (place : List String) : Option String := directory.files.lookup place

/-- Whether a place is a directory: the outermost one, or one on the way to a file. -/
def isDirectory (directory : Directory) (place : List String) : Bool :=
  place.isEmpty || directory.files.any fun file => place.isPrefixOf file.1 && place != file.1

/-- Where the parts of a path lead: to a place inside the directory, or to one of the
directories around it, of whose files nothing is known. -/
inductive Place where
  | inside (place : List String)
  | around
deriving DecidableEq, Repr

def follow (directory : Directory) : Place → List String → Except FileError Place
  | place, [] => .ok place
  | .around, part :: rest =>
      if isName part && part ≠ ".." then .error .missing else follow directory .around rest
  | .inside place, part :: rest =>
      if directory.isDirectory place then
        if !isName part then follow directory (.inside place) rest
        else if part ≠ ".." then follow directory (.inside (place ++ [part])) rest
        else if place.isEmpty then follow directory .around rest
        else follow directory (.inside place.dropLast) rest
      else if (directory.file? place).isSome then .error .notDirectory
      else .error .missing

/-- Where a path starts: an absolute one outside. -/
def start (path : String) : Place :=
  if path.toList.head? = some '/' then .around else .inside []

def read (directory : Directory) (path : String) : Except FileError String := do
  if path = "" then throw .missing
  match ← directory.follow (start path) (splitPath path) with
  | .around => throw .isDirectory
  | .inside place =>
      match directory.file? place with
      | some text => return text
      | none => throw (if directory.isDirectory place then .isDirectory else .missing)

end Directory

end ContractAsm.CommandLine
