import ProtoSchema.Wire.Token

/-!
# The grammar of descriptors

Which fields a descriptor message has, and what each of them holds. Every field that is known is
read by its shape, also one that no schema depends on, so that a request with a broken comment is
a broken request. A field that is not known is passed over.

The tables are those of the descriptor language before editions.
-/

namespace ProtoSchema

/-! ## Kinds and shapes -/

/-- The kinds of messages that a request or a descriptor set is made of. -/
inductive MessageKind where
  /-- a request to a plugin -/
  | request
  /-- the version of the compiler -/
  | version
  /-- a set of files -/
  | fileSet
  /-- a file -/
  | file
  /-- a message -/
  | message
  /-- the numbers kept free for extensions -/
  | extensionRange
  /-- the numbers that no field may use -/
  | reservedRange
  /-- the options of an extension range -/
  | extensionRangeOptions
  /-- a field -/
  | field
  /-- a group of fields of which one is set -/
  | oneof
  /-- an enum -/
  | enumType
  /-- a value of an enum -/
  | enumValue
  /-- a service -/
  | service
  /-- a method of a service -/
  | method
  /-- the options of a file -/
  | fileOptions
  /-- the options of a message -/
  | messageOptions
  /-- the options of a field -/
  | fieldOptions
  /-- the options of an enum -/
  | enumOptions
  /-- the options of an enum value -/
  | enumValueOptions
  /-- the options of a service -/
  | serviceOptions
  /-- the options of a method -/
  | methodOptions
  /-- options with nothing but custom entries -/
  | oneofOptions
  /-- an option that the compiler did not resolve -/
  | customOption
  /-- a part of the name of such an option -/
  | customOptionName
  /-- where everything stands in the source -/
  | sourceInfo
  /-- where one thing stands in the source -/
  | location
  deriving DecidableEq, Repr

/-- What a field of a message holds. -/
inductive FieldShape where
  /-- a number, a truth value or an enum value -/
  | number
  /-- any number of numbers, each by itself or several packed together -/
  | numbers
  /-- a floating-point number of eight bytes -/
  | double
  /-- text -/
  | text
  /-- bytes -/
  | blob
  /-- a message -/
  | message (kind : MessageKind)
  deriving DecidableEq, Repr

/-- What the field of that number holds; unknown fields hold nothing. -/
def MessageKind.shape? : MessageKind → Nat → Option FieldShape
  | .request, n =>
    match n with
    | 1 | 2 => some .text
    | 3 => some (.message .version)
    | 15 => some (.message .file)
    | _ => none
  | .version, n =>
    match n with
    | 1 | 2 | 3 => some .number
    | 4 => some .text
    | _ => none
  | .fileSet, n =>
    match n with
    | 1 => some (.message .file)
    | _ => none
  | .file, n =>
    match n with
    | 1 | 2 | 3 | 12 => some .text
    | 10 | 11 => some .numbers
    | 4 => some (.message .message)
    | 5 => some (.message .enumType)
    | 6 => some (.message .service)
    | 7 => some (.message .field)
    | 8 => some (.message .fileOptions)
    | 9 => some (.message .sourceInfo)
    | _ => none
  | .message, n =>
    match n with
    | 1 | 10 => some .text
    | 2 | 6 => some (.message .field)
    | 3 => some (.message .message)
    | 4 => some (.message .enumType)
    | 5 => some (.message .extensionRange)
    | 7 => some (.message .messageOptions)
    | 8 => some (.message .oneof)
    | 9 => some (.message .reservedRange)
    | _ => none
  | .extensionRange, n =>
    match n with
    | 1 | 2 => some .number
    | 3 => some (.message .extensionRangeOptions)
    | _ => none
  | .reservedRange, n =>
    match n with
    | 1 | 2 => some .number
    | _ => none
  | .field, n =>
    match n with
    | 1 | 2 | 6 | 7 | 10 => some .text
    | 3 | 4 | 5 | 9 | 17 => some .number
    | 8 => some (.message .fieldOptions)
    | _ => none
  | .oneof, n =>
    match n with
    | 1 => some .text
    | 2 => some (.message .oneofOptions)
    | _ => none
  | .enumType, n =>
    match n with
    | 1 | 5 => some .text
    | 2 => some (.message .enumValue)
    | 3 => some (.message .enumOptions)
    | 4 => some (.message .reservedRange)
    | _ => none
  | .enumValue, n =>
    match n with
    | 1 => some .text
    | 2 => some .number
    | 3 => some (.message .enumValueOptions)
    | _ => none
  | .service, n =>
    match n with
    | 1 => some .text
    | 2 => some (.message .method)
    | 3 => some (.message .serviceOptions)
    | _ => none
  | .method, n =>
    match n with
    | 1 | 2 | 3 => some .text
    | 4 => some (.message .methodOptions)
    | 5 | 6 => some .number
    | _ => none
  | .fileOptions, n =>
    match n with
    | 1 | 8 | 11 | 36 | 37 | 39 | 40 | 41 | 44 | 45 => some .text
    | 9 | 10 | 16 | 17 | 18 | 20 | 23 | 27 | 31 | 42 => some .number
    | 999 => some (.message .customOption)
    | _ => none
  | .messageOptions, n =>
    match n with
    | 1 | 2 | 3 | 7 => some .number
    | 999 => some (.message .customOption)
    | _ => none
  | .fieldOptions, n =>
    match n with
    | 1 | 2 | 3 | 5 | 6 | 10 => some .number
    | 999 => some (.message .customOption)
    | _ => none
  | .enumOptions, n =>
    match n with
    | 2 | 3 => some .number
    | 999 => some (.message .customOption)
    | _ => none
  | .enumValueOptions, n =>
    match n with
    | 1 => some .number
    | 999 => some (.message .customOption)
    | _ => none
  | .serviceOptions, n =>
    match n with
    | 33 => some .number
    | 999 => some (.message .customOption)
    | _ => none
  | .methodOptions, n =>
    match n with
    | 33 | 34 => some .number
    | 999 => some (.message .customOption)
    | _ => none
  | .oneofOptions, n =>
    match n with
    | 999 => some (.message .customOption)
    | _ => none
  | .extensionRangeOptions, n =>
    match n with
    | 999 => some (.message .customOption)
    | _ => none
  | .customOption, n =>
    match n with
    | 2 => some (.message .customOptionName)
    | 3 | 8 => some .text
    | 4 | 5 => some .number
    | 6 => some .double
    | 7 => some .blob
    | _ => none
  | .customOptionName, n =>
    match n with
    | 1 => some .text
    | 2 => some .number
    | _ => none
  | .sourceInfo, n =>
    match n with
    | 1 => some (.message .location)
    | _ => none
  | .location, n =>
    match n with
    | 1 | 2 => some .numbers
    | 3 | 4 | 6 => some .text
    | _ => none

/-! ## Reading by the grammar -/

/-- What a field was found to hold. -/
inductive Content where
  /-- a number -/
  | number (n : Nat)
  /-- several numbers -/
  | numbers (ns : List Nat)
  /-- a floating-point number -/
  | double (bytes : Bytes)
  /-- text -/
  | text (s : String)
  /-- bytes -/
  | blob (bytes : Bytes)
  /-- the known fields of a message, in the order in which they were read -/
  | message (fields : List (Nat × Content))
  deriving Inhabited, Repr

/-- The known fields of a message with their numbers, in the order in which they were read. -/
abbrev Fields := List (Nat × Content)

/-- Numbers packed one behind the other. -/
def unpack (bytes : Bytes) : Option (List Nat) :=
  match bytes with
  | [] => some []
  | b :: bs =>
    match h : readVarint (b :: bs) with
    | none => none
    | some (n, after) =>
      have : after.length < bs.length + 1 := length_lt_of_readVarint h
      (unpack after).map (n :: ·)
termination_by bytes.length

/-- The text that the bytes encode in UTF-8. -/
def decodeText (bytes : Bytes) : Option String := String.fromUTF8? bytes.toByteArray

/-- What a field of that shape holds. A value that is written in another way than the shape asks
for is refused. -/
def readContent (inner : MessageKind → Bytes → Option Fields) :
    FieldShape → Payload → Option Content
  | .number, .varint n => some (.number n)
  | .numbers, .varint n => some (.numbers [n])
  | .numbers, .delimited bytes => (unpack bytes).map .numbers
  | .double, .fixed64 bytes => some (.double bytes)
  | .text, .delimited bytes => (decodeText bytes).map .text
  | .blob, .delimited bytes => some (.blob bytes)
  | .message kind, .delimited bytes => (inner kind bytes).map .message
  | _, _ => none

/-- The known fields of a message, given how the messages inside it are read. -/
def readFields (inner : MessageKind → Bytes → Option Fields) (budget : Nat) (kind : MessageKind)
    (bytes : Bytes) : Option Fields := do
  let records ← readRecords budget (fun n => (kind.shape? n).isSome) bytes
  records.mapM fun r => do
    let shape ← kind.shape? r.number
    (readContent inner shape r.payload).map fun content => (r.number, content)

/-- The known fields of a message of that kind; without a budget it may hold no messages. -/
def decodeMessage : (budget : Nat) → MessageKind → Bytes → Option Fields
  | 0 => readFields (fun _ _ => none) 0
  | budget + 1 => readFields (decodeMessage budget) (budget + 1)

/-- How many levels deep messages may be nested. -/
def nestingLimit : Nat := 100

end ProtoSchema
