import QueryGate.CommandLine

/-!
# The program

Answers a call from the command line (`CommandLine.Call.run`), with the files that it depends on
read beforehand.
-/

namespace QueryGate.Program

/-- The number of a system error, which may come with a minus. -/
def errorNumber (code : UInt32) : UInt32 := min code (0 - code)

/-- Why a file could not be read. -/
def fileError : IO.Error → FileError
  | .permissionDenied .. => .denied
  | .inappropriateType _ code _ => if errorNumber code = 21 then .isDirectory else .notDirectory
  | .invalidArgument _ code _ => if errorNumber code = 36 then .nameTooLong else .notFound
  | _ => .notFound

/-- Reads what lies at a path: a file, or a directory down to `depth` levels below. -/
def load : (depth : Nat) → (path : String) → IO (Except FileError Node)
  | depth, path => do
    try return .ok (.file (← IO.FS.readBinFile path).toList)
    catch error =>
      match depth, fileError error with
      | depth + 1, .isDirectory =>
        let names := (← (← IO.FS.realPath path).readDir).map fun entry => entry.fileName
        let entries ← names.toList.filterMapM fun name => do
          match ← load depth (joinPath path name) with
          | .ok node => return some (name, node)
          | .error _ => return none
        return .ok (.directory entries)
      | 0, .isDirectory => return .ok (.directory [])
      | _, error => return .error error

/-- The number of levels of a directory that are looked at: the exports and their documents. -/
def depth : Nat := 2

/-- Reads what lies at paths, as a view of the file system. -/
def loadAll (paths : List String) : IO Files := do
  let found ← paths.mapM fun path => return (path, ← load depth path)
  return fun path => (found.lookup path).getD (.error .notFound)

/-- Reads the variables of the environment that are looked at. -/
def environment : IO Config.Environment := do
  let found ← [Config.documentsVariable, Config.seedVariable, Config.strictVariable].mapM
    fun name => return (name, ← IO.getEnv name)
  return fun name => (found.lookup name).join

/-- Reads the input to its end. -/
partial def readAll (stream : IO.FS.Stream) (before : ByteArray) : IO ByteArray := do
  let more ← stream.read 65536
  if more.isEmpty then return before else readAll stream (before ++ more)

end QueryGate.Program

open QueryGate QueryGate.Program

/-- Answers a call. A configuration file may name further files, so these are read in a second
    round. -/
def main (arguments : List String) : IO UInt32 := do
  let input ← if arguments.take 2 = ["compile", "-"]
    then readAll (← IO.getStdin) .empty
    else pure .empty
  let call : CommandLine.Call :=
    { arguments, environment := ← environment, input := input.toList
      files := fun _ => .error .notFound }
  let call := { call with files := ← loadAll call.paths }
  let call := { call with files := ← loadAll call.paths }
  let answer := call.run
  IO.eprint answer.remarks
  IO.print answer.output
  return UInt32.ofNat answer.code
