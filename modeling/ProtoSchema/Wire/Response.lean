import ProtoSchema.Wire.Varint

/-!
# Responses

The answer to a request: the files to write, or what went wrong, never both. It is written in
ascending order of the field numbers, and a response without anything is written as no bytes.
-/

namespace ProtoSchema

/-- A file to write. -/
structure ResponseFile where
  /-- the name of the file -/
  name : String
  /-- the text of the file -/
  content : String
  deriving DecidableEq, Repr, Inhabited

/-- The answer to a request. -/
structure Response where
  /-- what went wrong, if something did -/
  error : Option String := none
  /-- the files to write -/
  files : List ResponseFile := []
  deriving DecidableEq, Repr, Inhabited

/-- A response that says what went wrong. -/
def Response.failure (message : String) : Response := { error := some message }

/-! ## Writing -/

/-- A field that holds bytes: its key, the count of the bytes, and the bytes. -/
def delimitedField (number : Nat) (bytes : Bytes) : Bytes :=
  encodeVarint (8 * number + 2) ++ encodeVarint bytes.length ++ bytes

/-- A field that holds text. -/
def textField (number : Nat) (s : String) : Bytes :=
  delimitedField number s.toUTF8.data.toList

/-- The bytes of a file to write. -/
def ResponseFile.encode (f : ResponseFile) : Bytes :=
  textField 1 f.name ++ textField 15 f.content

/-- The bytes of a response. -/
def Response.encode (r : Response) : Bytes :=
  (match r.error with
    | some message => textField 1 message
    | none => []) ++
    r.files.flatMap fun f => delimitedField 15 f.encode

end ProtoSchema
