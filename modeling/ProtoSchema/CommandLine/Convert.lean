import ProtoSchema.CommandLine.Arguments
import ProtoSchema.Files.Search
import ProtoSchema.Session
import ProtoSchema.Wire.Request

/-!
# Converting descriptor sets

The command `convert` first settles what there is to write and only then writes: the policy, the
paths of the inputs, the files in them and the documents of the targets come one after the other,
and a failure at any of them leaves everything as it was. Of several files of one name the first
stays.

The documents go to the standard output, each followed by a line end, or to a directory, which is
made when it is not there. A failure in the middle of writing leaves what was written before it.
-/

namespace ProtoSchema

/-! ## Failures -/

/-- Why nothing, or not everything, was converted. -/
inductive ConvertFailure where
  /-- the options are in conflict -/
  | options (conflict : OptionConflict)
  /-- a pattern is broken -/
  | pattern (error : PatternError)
  /-- a pattern matches nothing -/
  | unmatched (input : String)
  /-- an input cannot be read -/
  | unreadable (path : String)
  /-- an input is no descriptor set -/
  | undecodable (path : String)
  /-- the documents cannot be made -/
  | session (error : SessionError)
  /-- the directory for the documents cannot be made -/
  | directory (path : String)
  /-- a document cannot be written -/
  | document (path : String)
  deriving DecidableEq, Repr

/-- The text of a failure. -/
def ConvertFailure.message : ConvertFailure → String
  | .options conflict => conflict.message
  | .pattern error => error.message
  | .unmatched input => "glob pattern matched no files: " ++ input
  | .unreadable path => "failed to read descriptor set " ++ path
  | .undecodable path => "failed to decode descriptor set " ++ path
  | .session error => error.message
  | .directory path => "failed to create " ++ path
  | .document path => "failed to write " ++ path

/-! ## Inputs -/

/-- Whether an input is a pattern rather than a path. -/
def isPattern (input : String) : Bool :=
  input.toList.any fun c => c = '*' || c = '?' || c = '[' || c = '{'

/-- Where the search for a pattern starts, and how many levels down it goes: to the bottom when a
part of the pattern stands for any number of directories. -/
def searchRoom (pattern : String) : String × Option Nat :=
  let parts := pathParts pattern
  let fixed := parts.takeWhile fun part => !isPattern part
  let start := String.intercalate "/" fixed
  (if start = "" then if pattern.startsWith "/" then "/" else "." else start,
    if parts.contains "**" then none else some (parts.length - fixed.length))

/-- The paths that an input stands for. -/
def inputPaths (fs : FileSystem) (input : String) : Except ConvertFailure (List String) :=
  if isPattern input then
    match fs.glob input with
    | .error e => .error (.pattern e)
    | .ok [] => .error (.unmatched input)
    | .ok paths => .ok paths
  else .ok [input]

/-- The paths that all inputs stand for. -/
def allInputPaths (fs : FileSystem) (inputs : List String) : Except ConvertFailure (List String) :=
  return (← inputs.mapM (inputPaths fs)).flatten

/-- The files of the descriptor set at a path. -/
def loadSet (fs : FileSystem) (path : String) : Except ConvertFailure (List File) :=
  match fs.read? path with
  | none => .error (.unreadable path)
  | some bytes =>
    match decodeFileSet? bytes with
    | none => .error (.undecodable path)
    | some files => .ok files

/-- The files without those whose name was seen before. -/
def firstByName (seen : List String) : List File → List File
  | [] => []
  | f :: rest =>
    if f.name ∈ seen then firstByName seen rest
    else f :: firstByName (f.name :: seen) rest

/-- The files of the descriptor sets at the paths, of each name the first. -/
def loadForest (fs : FileSystem) (paths : List String) : Except ConvertFailure (List File) :=
  return firstByName [] (← paths.mapM (loadSet fs)).flatten

/-! ## Documents -/

/-- The files to convert: those that are named, or else all. -/
def ConvertSettings.targets (settings : ConvertSettings) (forest : List File) : List String :=
  if settings.files = [] then forest.map (·.name) else settings.files

/-- The documents to write. -/
def ConvertSettings.documents (settings : ConvertSettings) (o : Options) (fs : FileSystem) :
    Except ConvertFailure (List Document) := do
  let policy ← o.resolve.mapError .options
  let paths ← allInputPaths fs settings.inputs
  let forest ← loadForest fs paths
  ((Session.mk forest policy).generate (settings.targets forest)).result.mapError .session

/-! ## Writing -/

/-- A change to the file system. -/
inductive Change where
  /-- make a directory and the directories around it -/
  | makeDirectory (path : String)
  /-- write a file -/
  | writeFile (path : String) (text : String)
  deriving DecidableEq, Repr

/-- What it means that a change cannot be made. -/
def Change.failure : Change → ConvertFailure
  | .makeDirectory path => .directory path
  | .writeFile path _ => .document path

/-- The file system after a change. -/
def Change.apply? : Change → FileSystem → Option FileSystem
  | .makeDirectory path, fs => fs.makeDirectories path
  | .writeFile path text, fs => fs.write? path text.toUTF8.data.toList

/-- The file system after the changes, up to the first that cannot be made, and that one. -/
def applyChanges (fs : FileSystem) : List Change → FileSystem × Option Change
  | [] => (fs, none)
  | change :: rest =>
    match change.apply? fs with
    | some fs => applyChanges fs rest
    | none => (fs, some change)

/-- What a run of `convert` does: it prints, and it changes files. -/
structure Delivery where
  /-- the text on the standard output -/
  printed : String := ""
  /-- the changes, in order -/
  changes : List Change := []
  deriving DecidableEq, Repr

/-- Deliver the documents. -/
def deliver (out : Option String) (documents : List Document) : Delivery :=
  match out with
  | none => { printed := String.join (documents.map fun d => d.content ++ "\n") }
  | some directory =>
    { changes := .makeDirectory directory ::
        documents.map fun d => .writeFile (joinPath directory d.name) d.content }

/-- What a run of `convert` is going to do. -/
def ConvertSettings.delivery (settings : ConvertSettings) (o : Options) (fs : FileSystem) :
    Except ConvertFailure Delivery :=
  (deliver settings.out) <$> settings.documents o fs

end ProtoSchema
