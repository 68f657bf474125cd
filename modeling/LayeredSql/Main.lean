import LayeredSql.Command

/-! # The program

Reads what a request needs, lets the library answer, and writes the answer. -/

namespace LayeredSql.Main

def faultOfCode (code : UInt32) (e : IO.Error) : FileFault :=
  if code = 2 then .missing
  else if code = 20 then .notDirectory
  else if code = 21 then .directory
  else if code = 36 then .nameTooLong
  else .other (toString e)

def faultOf (e : IO.Error) : FileFault :=
  match e with
  | .noFileOrDirectory _ code _ | .inappropriateType _ code _ | .invalidArgument _ code _
  | .otherError code _ => faultOfCode code e
  | _ => .other (toString e)

def readText (path : String) : IO (Except FileFault String) := do
  try
    match String.fromUTF8? (← IO.FS.readBinFile path) with
    | some source => return .ok source
    | none => return .error .notText
  catch e => return .error (faultOf e)

/-- The files at the given paths, read once. -/
def readAll (paths : List String) : IO Files := do
  let read ← paths.mapM fun path => do return (path, ← readText path)
  return fun path => (read.lookup path).getD (.error .missing)

/-- The environment variables that the program looks at. -/
def environment : IO (String → Option String) := do
  let names := [Config.dialectSetting, Config.projectSetting, Config.datasetSetting]
  let read ← names.mapM fun name => do return (name, ← IO.getEnv name)
  return fun name => (read.lookup name).join

def failureText : Command.Failure → String
  | .usage => "error: the arguments make no request\n\n" ++ (Command.Topic.program.page none).usageText
  | .error e => "error: " ++ e.message ++ "\n"

end LayeredSql.Main

open LayeredSql in
def main (words : List String) : IO UInt32 := do
  let environment ← Main.environment
  let paths := match Command.parse environment words with
    | .ok request => request.paths
    | .error _ => []
  let result := Command.run ⟨environment, ← Main.readAll paths⟩ words
  (← IO.getStdout).putStr (Command.standardOutput result)
  if let .error failure := result then (← IO.getStderr).putStr (Main.failureText failure)
  return (Command.exitStatus result).toUInt32
