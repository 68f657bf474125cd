import LayeredSql.File

/-! # Folders in memory

A folder held as data, to run everything without a disk. Paths are relative to the folder. Of what
lies outside of it only the directories above it are known, and nothing that they hold. -/

namespace LayeredSql

inductive FolderEntry where
  | file (bytes : ByteArray)
  | directory

/-- The entries of a folder by the parts of their paths, the latest first. -/
structure Folder where
  entries : List (List String × FolderEntry)

namespace Folder

def empty : Folder := ⟨[]⟩

/-- The parts of a path inside the folder, where two dots take the part in front of them away. -/
def resolve (path : String) : List String :=
  (Path.parts path).foldl
    (fun parts part => if part = ".." then parts.dropLast else parts ++ [part]) []

/-- Puts an entry at a path, in place of what is there. -/
def write (f : Folder) (path : String) (entry : FolderEntry) : Folder :=
  ⟨(resolve path, entry) :: f.entries⟩

/-- What stands at exactly these parts. A folder is there when something is in it. -/
def at? (f : Folder) (parts : List String) : Option FolderEntry :=
  match f.entries.lookup parts with
  | some entry => some entry
  | none =>
    if parts.isEmpty || f.entries.any fun entry => parts.isPrefixOf entry.1 then some .directory
    else none

/-- A place that a path leads through. -/
inductive Place where
  | inside (parts : List String)
  /-- A directory above the folder. -/
  | above

namespace Place

def entry? (f : Folder) : Place → Option FolderEntry
  | inside parts => f.at? parts
  | above => some .directory

def parent : Place → Place
  | inside parts => if parts.isEmpty then above else inside parts.dropLast
  | above => above

/-- The place of an entry in a directory, if it can be known. -/
def child? (name : String) : Place → Option Place
  | inside parts => some (inside (parts ++ [name]))
  | above => none

end Place

/-- The greatest number of bytes in a part of a path. -/
def maxPartBytes : Nat := 255

/-- The greatest number of bytes in a path. -/
def maxPathBytes : Nat := 4095

/-- Follows the parts of a path from a place. -/
def walk (f : Folder) (here : Place) : List String → Except FileFault FolderEntry
  | [] =>
    match here.entry? f with
    | some entry => .ok entry
    | none => .error .missing
  | part :: rest =>
    match here.entry? f with
    | none => .error .missing
    | some (.file _) => .error .notDirectory
    | some .directory =>
      if maxPartBytes < part.utf8ByteSize then .error .nameTooLong
      else if part = "" ∨ part = "." then walk f here rest
      else if part = ".." then walk f here.parent rest
      else
        match here.child? part with
        | some place => walk f place rest
        | none => .error .missing

/-- Where a path starts: a slash in front leads out of the folder. -/
def start (path : String) : Place := if path.toList.head? = some '/' then .above else .inside []

/-- The text of the file at a path. A slash at the end asks for a directory. -/
def read (f : Folder) : Files := fun path =>
  if path.toList.contains '\x00' then
    .error (.other "file name contained an unexpected NUL byte")
  else if maxPathBytes < path.utf8ByteSize then .error .nameTooLong
  else
    match f.walk (start path) (Path.cut path) with
    | .error fault => .error fault
    | .ok .directory => .error .directory
    | .ok (.file bytes) =>
      match String.fromUTF8? bytes with
      | some source => .ok source
      | none => .error .notText

end Folder

end LayeredSql
