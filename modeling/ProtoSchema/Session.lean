import ProtoSchema.Document

/-!
# Sessions

A session works on a forest of files. The messages of all files are registered, so that a file may
use the types of any other, and the top-level enums of all files are visible to each. Only the
requested files are converted, in the order of the request and as often as they are requested. The
first failure ends the session without documents.
-/

namespace ProtoSchema

/-- The files to work on, and what may be written. -/
structure Session where
  /-- the files, in order -/
  forest : List File
  /-- what may be written -/
  policy : Policy

/-- The top-level messages of the files with their packages, each at the place given by the index
of its file and its index in the file. -/
def forestMessages (forest : List File) : List (String × Declaration) :=
  forest.zipIdx.flatMap fun (file, i) => (file.declarations [i]).map fun d => (file.package, d)

namespace Session

/-- The packages of all files. -/
def registry (s : Session) : Registry :=
  Registry.empty.registerAll (forestMessages s.forest)

/-- Every top-level enum of the files, in file order. -/
def enums (s : Session) : List EnumType :=
  s.forest.flatMap (·.enums)

/-- The file of that name with its index; of several files the last is meant. -/
def file? (s : Session) (name : String) : Option (File × Nat) :=
  s.forest.zipIdx.reverse.find? (·.1.name = name)

/-- The documents of one requested file. -/
def documentsOf (s : Session) (registry : Registry) (target : String) :
    Logged SessionError (List Document) :=
  match s.file? target with
  | some (file, i) =>
    (file.documents [i] registry s.policy s.enums).mapError (.file target)
  | none => .fail (.unknownFile target)

/-- The documents of the requested files. -/
def generate (s : Session) (targets : List String) : Logged SessionError (List Document) :=
  List.flatten <$> targets.mapM (s.documentsOf s.registry)

end Session

end ProtoSchema
