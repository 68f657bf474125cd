import LayeredSql.Config
import LayeredSql.Plan.Parse

/-! # Files

Reading plans and configurations from files. The files themselves are a function from paths to
texts, so that nothing here touches a disk. -/

namespace LayeredSql

/-- Why a file cannot be read. -/
inductive FileFault where
  | missing
  | notDirectory
  | directory
  | nameTooLong
  | notText
  | other (reason : String)
deriving DecidableEq, Repr

def FileFault.message : FileFault → String
  | missing => "No such file or directory (os error 2)"
  | notDirectory => "Not a directory (os error 20)"
  | directory => "Is a directory (os error 21)"
  | nameTooLong => "File name too long (os error 36)"
  | notText => "stream did not contain valid UTF-8"
  | other reason => reason

/-- The texts of files by path. -/
abbrev Files := String → Except FileFault String

namespace Path

/-- The path cut at its slashes. -/
def cut (path : String) : List String := (path.toList.splitOn '/').map String.ofList

/-- The parts of a path that name something. -/
def parts (path : String) : List String :=
  (cut path).filter fun part => part ≠ "" && part ≠ "."

/-- The part of a file name behind its last dot. A name whose only dot is in front has none. -/
def nameExtension? (name : List Char) : Option (List Char) :=
  let behind := name.reverse.takeWhile (· ≠ '.')
  if behind.length + 1 < name.length then some behind.reverse else none

/-- The extension of the last part of a path. -/
def extension? (path : String) : Option String :=
  match (parts path).getLast? with
  | some name => if name = ".." then none else (nameExtension? name.toList).map String.ofList
  | none => none

end Path

/-- A plan file is TOML when its extension says so in any case, and JSON otherwise. -/
def planFormat (path : String) : DocumentFormat :=
  match Path.extension? path with
  | some ext => if Text.eqIgnoringAsciiCase ext "toml" then .toml else .json
  | none => .json

namespace Plan

def load (files : Files) (path : String) : Except Error Plan :=
  match files path with
  | .error fault => .error (.planFile path fault.message)
  | .ok source => parse (planFormat path) source

end Plan

namespace Config

/-- Reads a configuration file and reports it. -/
def load (files : Files) (path : String) : Logged (Except Error Config) :=
  match files path with
  | .error fault => pure (.error (.file fault.message))
  | .ok source =>
    ⟨parse source,
      match parse source with
      | .ok config => [.loadedConfig path config.dialect]
      | .error _ => []⟩

end Config

end LayeredSql
