import ProtoSchema.Descriptor
import ProtoSchema.Wire.Grammar

/-!
# Requests and descriptor sets

A request names the files to convert, may carry a parameter, and holds the descriptors of these
files and of all that they import. A descriptor set is descriptors alone. Both are read here from
their bytes; of a field that may occur once, the last occurrence counts.
-/

namespace ProtoSchema

/-- A request for the documents of some files. -/
structure Request where
  /-- the names of the files to convert -/
  targets : List String := []
  /-- the parameter string, empty when there is none -/
  parameter : String := ""
  /-- the files with all that they import -/
  forest : List File := []
  deriving DecidableEq, Repr, Inhabited

/-! ## Fields of a message -/

/-- The texts under a number. -/
def textsOf (number : Nat) (fields : Fields) : List String :=
  fields.filterMap fun
    | (n, .text s) => if n = number then some s else none
    | _ => none

/-- The text under a number, empty when there is none. -/
def textOf (number : Nat) (fields : Fields) : String :=
  (textsOf number fields).getLast?.getD ""

/-- The signed number under a number, when there is one. -/
def signedOf? (number : Nat) (fields : Fields) : Option Int :=
  (fields.filterMap fun
    | (n, .number v) => if n = number then some (signed32 v) else none
    | _ => none).getLast?

/-- The signed number under a number, zero when there is none. -/
def signedOf (number : Nat) (fields : Fields) : Int :=
  (signedOf? number fields).getD 0

/-- The messages under a number. -/
def messagesOf (number : Nat) (fields : Fields) : List Fields :=
  fields.filterMap fun
    | (n, .message inner) => if n = number then some inner else none
    | _ => none

/-! ## Descriptors -/

/-- The descriptor of a field. -/
def fieldOf (fields : Fields) : Field where
  name := textOf 1 fields
  jsonName := textOf 10 fields
  label := ((signedOf? 4 fields).map Label.ofNumber).getD .optional
  typeNumber := signedOf 5 fields
  typeName := textOf 6 fields

/-- The descriptor of an enum value. -/
def enumValueOf (fields : Fields) : EnumValue where
  name := textOf 1 fields
  number := signedOf 2 fields

/-- The descriptor of an enum. -/
def enumTypeOf (fields : Fields) : EnumType where
  name := textOf 1 fields
  values := (messagesOf 2 fields).map enumValueOf

mutual

/-- The descriptor of a message. -/
def messageOf : Content → Message
  | .message fields =>
    { name := textOf 1 fields
      fields := (messagesOf 2 fields).map fieldOf
      nested := messageListOf 3 fields
      enums := (messagesOf 4 fields).map enumTypeOf }
  | _ => {}

/-- The descriptors of the messages under a number. -/
def messageListOf (number : Nat) : List (Nat × Content) → List Message
  | [] => []
  | (n, content) :: rest =>
    if n = number then messageOf content :: messageListOf number rest
    else messageListOf number rest

end

/-- The descriptor of a file. -/
def fileOf (fields : Fields) : File where
  name := textOf 1 fields
  package := textOf 2 fields
  messages := messageListOf 4 fields
  enums := (messagesOf 5 fields).map enumTypeOf

/-! ## Reading -/

/-- The request that the bytes encode. -/
def Request.decode? (bytes : Bytes) : Option Request :=
  (decodeMessage nestingLimit .request bytes).map fun fields =>
    { targets := textsOf 1 fields
      parameter := textOf 2 fields
      forest := (messagesOf 15 fields).map fileOf }

/-- The files of the descriptor set that the bytes encode. -/
def decodeFileSet? (bytes : Bytes) : Option (List File) :=
  (decodeMessage nestingLimit .fileSet bytes).map fun fields => (messagesOf 1 fields).map fileOf

end ProtoSchema
