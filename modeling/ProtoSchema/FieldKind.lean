import ProtoSchema.Descriptor
import ProtoSchema.Failure

/-!
# Kinds of fields

The eighteen types a field may be declared with fall into seven kinds that are written alike. The
number of a declared type need not be the number of any of them; such a field has no kind, and
converting it fails.
-/

namespace ProtoSchema

/-- What a field holds, as far as its schema can tell. -/
inductive FieldKind where
  /-- a number with a fraction -/
  | float
  /-- an integer of 32 bits -/
  | int32
  /-- an integer of 64 bits -/
  | int64
  /-- text or bytes -/
  | string
  /-- true or false -/
  | bool
  /-- a value of an enum -/
  | enumeration
  /-- a message -/
  | message
  deriving DecidableEq, Repr

/-- The name of a kind. -/
def FieldKind.name : FieldKind → String
  | .float => "Float"
  | .int32 => "Int32"
  | .int64 => "Int64"
  | .string => "String"
  | .bool => "Bool"
  | .enumeration => "Enum"
  | .message => "Message"

/-- The kind of the type with that number. -/
def FieldKind.ofNumber? : Int → Option FieldKind
  | 1 => some .float -- double
  | 2 => some .float -- float
  | 3 => some .int64 -- int64
  | 4 => some .int64 -- uint64
  | 5 => some .int32 -- int32
  | 6 => some .int64 -- fixed64
  | 7 => some .int32 -- fixed32
  | 8 => some .bool -- bool
  | 9 => some .string -- string
  | 10 => some .message -- group
  | 11 => some .message -- message
  | 12 => some .string -- bytes
  | 13 => some .int32 -- uint32
  | 14 => some .enumeration -- enum
  | 15 => some .int32 -- sfixed32
  | 16 => some .int64 -- sfixed64
  | 17 => some .int32 -- sint32
  | 18 => some .int64 -- sint64
  | _ => none

/-- The kind of a field. -/
def Field.kind (f : Field) : Except ConversionError FieldKind :=
  match FieldKind.ofNumber? f.typeNumber with
  | some kind => .ok kind
  | none => .error (.unrecognizedFieldType f.name f.typeNumber)

end ProtoSchema
