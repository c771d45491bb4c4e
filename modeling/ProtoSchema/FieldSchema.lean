import ProtoSchema.EnumSchema
import ProtoSchema.Event
import ProtoSchema.FieldKind

/-!
# Fields as schemas

The schema of a field follows from its kind, its label and the policy. A field that holds no
message is converted on the spot: first as if it occurred once, then, when it may occur any number
of times, as the array of that. A field that holds a message is converted around the schema of that
message, which the caller supplies (`embed` below); how the message is found and converted is the
matter of `ProtoSchema.Conversion`.

Repeated elements are never null: null goes from the element to the array around it.
-/

namespace ProtoSchema

/-! ## Values that occur once -/

/-- The schema of a 64-bit integer. JSON numbers do not hold all of them exactly, so that they may
be strings too. -/
def Policy.bigInteger (p : Policy) : Schema :=
  if p.oneOf then
    { oneOf := .ofType .integer ::
        ((if p.bigintsAsStrings then [.ofType .string] else []) ++
          if p.nullable then [.ofType .null] else []) }
  else
    .ofType .integer

/-- The schema of an enum field: the values of its enum, or any value of the type when no enum was
found for it. -/
def Policy.enumField (p : Policy) (found : Option EnumType) : Schema :=
  match found with
  | some e => { p.enumBase p.nullable with literals := e.literals p.enumNumbers }
  | none => p.enumBase p.nullable

/-- The name of the message type for points in time. -/
def timestampName : String := ".google.protobuf.Timestamp"

/-- The schema of a message type whose form in JSON is fixed. -/
def wellKnown (typeName : String) : Option Schema :=
  if typeName = timestampName then
    some { type := some .string, format := some "date-time" }
  else
    none

/-! ## Arrays -/

/-- The node without null in its union; a union of one bare type is that type. -/
def Schema.dropNull (s : Schema) : Schema :=
  if s.admitsNull then
    match s.oneOf.filter fun m => !m.isType .null with
    -- a union of one is written as its member
    | [only] => { s with oneOf := [], type := only.type }
    | members => { s with oneOf := members }
  else
    s

/-- The array of an element: the element's type, union and values go to the items, a format stays
with the array. -/
def Policy.arrayOf (p : Policy) (element : Schema) : Schema :=
  let items : Schema :=
    { type := element.type, oneOf := element.oneOf, literals := element.literals }
  { p.scalar .array with items := some items.dropNull, format := element.format }

/-- The schema of a field from the schema of one value of it. -/
def Field.ofElement (f : Field) (p : Policy) (element : Schema) : Schema :=
  match f.label with
  | .repeated => p.arrayOf element
  | _ => element

/-! ## Messages -/

/-- Whether the node of a message field may have members beyond its properties. A repeated field
is an array, and says nothing unless the policy forbids it everywhere. -/
def Field.openness (f : Field) (p : Policy) : Option Bool :=
  if p.additionalProperties then
    match f.label with
    | .optional => some true
    | .required => some false
    | .repeated => none
  else
    some false

/-- The schema of a message field around the schema of its message: an array of such objects, or
the object itself, nullable when the policy says so. -/
def Field.ofMessage (f : Field) (p : Policy) (message : Schema) : Schema :=
  let ty : JsonType := if f.label = .repeated then .array else .object
  { p.scalar ty with
    items := if f.label = .repeated then some message else none
    properties := if f.label = .repeated then [] else message.properties
    additionalProperties := f.openness p }

/-! ## Fields -/

/-- The schema of a field. `scope` are the enums in sight, and `embed` is the schema of the message
of that type name. -/
def Field.schema (f : Field) (p : Policy) (scope : List EnumType)
    (embed : String → Logged ConversionError Schema) : Logged ConversionError Schema :=
  match f.kind with
  | .error e => .fail e
  | .ok .float => pure (f.ofElement p (p.scalar .number))
  | .ok .int32 => pure (f.ofElement p (p.scalar .integer))
  | .ok .int64 => pure (f.ofElement p p.bigInteger)
  | .ok .string => pure (f.ofElement p (p.scalar .string))
  | .ok .bool => pure (f.ofElement p (p.scalar .boolean))
  | .ok .enumeration =>
    match matchEnum scope f.typeName with
    | some e => pure (f.ofElement p (p.enumField (some e)))
    | none => do
      Logged.tell (.enumNotMatched f.name f.typeName)
      pure (f.ofElement p (p.enumField none))
  | .ok .message =>
    match wellKnown f.typeName with
    | some s => pure (f.ofElement p s)
    | none => f.ofMessage p <$> embed f.typeName

end ProtoSchema
