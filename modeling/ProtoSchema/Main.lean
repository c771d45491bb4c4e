import ProtoSchema.CommandLine.Run

/-!
# The program

Reads what a command needs, has the library decide, and writes what it decided.
-/

namespace ProtoSchema

/-- Everything that is left of an input. -/
partial def readAll (stream : IO.FS.Stream) (soFar : ByteArray) : IO ByteArray := do
  let chunk ← stream.read 65536
  if chunk.isEmpty then return soFar else readAll stream (soFar ++ chunk)

/-- The standard input. -/
def readInput : IO Input := do
  try
    let bytes ← readAll (← IO.getStdin) ByteArray.empty
    return { bytes := bytes.data.toList, complaint := "the bytes do not encode a request" }
  catch e => return { bytes := [], broken := some (toString e) }

/-- The names in a directory, if the path leads to one. -/
def namesIn (path : String) : IO (Option (List String)) := do
  try
    let directory ← IO.FS.realPath path
    let entries ← directory.readDir
    return some (entries.toList.map fun e => e.fileName)
  catch _ => return none

/-- The bytes of a file, if the path leads to one that can be read. -/
def contentOf (path : String) : IO (Option Bytes) := do
  try
    let bytes ← IO.FS.readBinFile path
    return some bytes.data.toList
  catch _ => return none

/-- The names below a path, so many levels down. -/
partial def loadNames (path : String) (room : Option Nat) : IO FileTree := do
  match room, ← namesIn path with
  | some 0, some _ => return .directory []
  | _, none => return .file []
  | _, some names =>
    let entries ← names.mapM fun name => do
      return (name, ← loadNames (joinPath path name) (room.map fun n => n - 1))
    return .directory (sortedTable entries)

/-- The file system with what the disk has along the parts of a path. -/
def loadAlong (fs : FileSystem) (spot : Spot) (before : String) :
    List String → IO FileSystem
  | [] => return fs
  | part :: rest => do
    let path := before ++ part
    let next := stepPath spot part
    if (fs.root.at? next).isSome then loadAlong fs next (path ++ "/") rest
    else
      match ← namesIn path, ← contentOf path with
      | some _, _ =>
        loadAlong { fs with root := .place (.directory []) next fs.root } next (path ++ "/") rest
      | none, some content => return { fs with root := .place (.file content) next fs.root }
      | none, none => return fs

/-- The file system with what the disk has at a path. -/
def loadPath (fs : FileSystem) (path : String) : IO FileSystem :=
  loadAlong fs (if path.startsWith "/" then [] else fs.here) "" (pathParts path)

/-- The file system with the names that a pattern can lead to. -/
def loadPattern (fs : FileSystem) (pattern : String) : IO FileSystem := do
  let (start, room) := searchRoom pattern
  let fs ← loadPath fs start
  match fs.locate start with
  | some spot => return { fs with root := .place (← loadNames start room) spot fs.root }
  | none => return fs

/-- The file system with the bytes of a file. -/
def loadContent (fs : FileSystem) (path : String) : IO FileSystem := do
  match fs.locate path, ← contentOf path with
  | some spot, some content => return { fs with root := .place (.file content) spot fs.root }
  | _, _ => return fs

/-- The part of the disk that a conversion reads. -/
def loadInputs (settings : ConvertSettings) : IO FileSystem := do
  let here := (pathParts (← IO.currentDir).toString).filter (· ≠ "")
  let empty : FileSystem := ⟨.place (.directory []) here (.directory []), here⟩
  let (patterns, paths) := settings.inputs.partition isPattern
  let fs ← paths.foldlM loadPath empty
  let fs ← patterns.foldlM loadPattern fs
  match allInputPaths fs settings.inputs with
  | .ok found => found.foldlM loadContent fs
  | .error _ => return fs

/-- Make a directory that may be there already. -/
def ensureDirectory (path : String) : IO Unit := do
  try IO.FS.createDir path
  catch e =>
    match ← namesIn path with
    | some _ => return ()
    | none => throw e

/-- Make a change on the disk. -/
def Change.perform : Change → IO Unit
  | .makeDirectory path => (directoryChain path).forM ensureDirectory
  | .writeFile path text => IO.FS.writeFile path text

/-- Make changes on the disk up to the first that cannot be made, and that one. -/
def performAll : List Change → IO (Option Change)
  | [] => return none
  | change :: rest => do
    let made ← try change.perform; pure true catch _ => pure false
    if made then performAll rest else return some change

/-- Say what went wrong. -/
def report (text : String) : IO UInt32 := do
  (← IO.getStderr).putStrLn ("proto-schema: " ++ text)
  return 1

/-- Answer the request on the standard input. -/
def plugin (o : Options) : IO UInt32 := do
  let served := serve o (← readInput)
  let out ← IO.getStdout
  out.write (ByteArray.mk served.response.encode.toArray)
  out.flush
  match served.failure with
  | some text => report text
  | none => return 0

/-- Convert descriptor sets. -/
def convert (settings : ConvertSettings) (o : Options) : IO UInt32 := do
  match settings.delivery o (← loadInputs settings) with
  | .error e => report e.message
  | .ok delivery =>
    IO.print delivery.printed
    match ← performAll delivery.changes with
    | some change => report change.failure.message
    | none => return 0

end ProtoSchema

open ProtoSchema in
/-- Runs the command that the arguments ask for. -/
def main (arguments : List String) : IO UInt32 := do
  match parseArguments arguments with
  | .ok ⟨o, .plugin⟩ => plugin o
  | .ok ⟨o, .convert settings⟩ => convert settings o
  | .error .displayHelp =>
    IO.print usage
    return 0
  | .error e =>
    (← IO.getStderr).putStrLn ("error: " ++ e.message)
    return 2
