import ProtoSchema.Conversion

/-!
# Documents of a file

A file with messages becomes one document for each of its top-level messages. A file without
messages becomes one document for each enum that is visible, which need not be an enum of the file:
a session makes all enums of its files visible to each of them. A document is named for its type.
-/

namespace ProtoSchema

/-! ## Documents -/

/-- A named schema document. -/
structure Document where
  /-- the name of the file that the document is to be written to -/
  name : String
  /-- the schema of the document -/
  schema : Schema
  deriving Inhabited, Repr

/-- The name of the document for a type. -/
def documentName (typeName : String) : String := typeName ++ ".jsonschema"

/-- The text of the document. -/
def Document.content (d : Document) : String := d.schema.text

/-! ## Paths in the log -/

/-- The last name of a path, as the log shows it: empty parts and single dots do not count, and a
path that has no parts or ends by going up has none. -/
def baseName (path : String) : String :=
  match ((pieces '/' path.toList).filter fun p => p ≠ [] && p ≠ ['.']).getLast? with
  | some p => if p = ['.', '.'] then "" else String.ofList p
  | none => ""

/-! ## Files -/

/-- The document of an enum by itself. -/
def enumDocument (p : Policy) (file : File) (e : EnumType) : Logged ConversionError Document := do
  Logged.tell (.convertingEnum e.name file.name (documentName e.name))
  pure ⟨documentName e.name, (p.enumSchema e).asDocument⟩

/-- The document of a message. -/
def messageDocument (c : Conversion) (file : File) (visible : List EnumType) (d : Declaration) :
    Logged ConversionError Document := do
  Logged.tell (.convertingMessage d.message.name file.name (documentName d.message.name))
  let s ← c.message d visible
  pure ⟨documentName d.message.name, s.asDocument⟩

/-- The documents of the types of a file: of the given messages, which are those of the file at
their places, or of the visible enums when there are none. -/
def typeDocuments (r : Registry) (p : Policy) (file : File) (messages : List Declaration)
    (visible : List EnumType) : Logged ConversionError (List Document) :=
  if messages = [] then
    visible.mapM (enumDocument p file)
  else do
    let package ← Logged.ofExcept
      ((r.lookupPackage file.package).mapError (.unknownPackage file.package))
    messages.mapM (messageDocument ⟨r, package, p⟩ file visible)

/-- The documents of the file at the position. -/
def File.documents (file : File) (position : Position) (r : Registry) (p : Policy)
    (visible : List EnumType) : Logged ConversionError (List Document) := do
  if file.messages.length > 1 then
    Logged.tell (.severalMessages file.messages.length (baseName file.name))
  if visible.length > 1 then
    Logged.tell (.severalEnums visible.length (baseName file.name))
  (typeDocuments r p file (file.declarations position) visible).onFailure
    (.fileFailed (baseName file.name))

end ProtoSchema
