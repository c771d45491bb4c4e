import ProtoSchema.Proofs.Steps
import ProtoSchema.Proofs.Validity

/-!
# The nodes of plain fields

A field that embeds no message is written as a *leaf*: a node with a type or a union of bare types,
perhaps with the values allowed and a format, and nothing below it (`Field.isLeaf_element`). What
holds of all these fields is shown of leaves where it can be, so that the kinds of fields are gone
through once.

A union is given by its types here. Each kind of field has its own list of types, which the policy
may add to (`Policy.bigIntegerTypes`, `enumTypes`), and the equations of this module write the nodes
in terms of these lists: `Policy.scalar_eq`, `Policy.bigInteger_eq`, `Policy.enumBase_eq` and
`Policy.enumField_eq`. Other modules use them in place of the definitions.

The last section says what a leaf accepts: a value that passes its few keywords. Where the types of
the union are known, `Schema.accepts_union_iff` says so without the members.
-/

namespace ProtoSchema

/-! ## Leaves

The keywords for nodes below are listed in the structure one by one. A keyword that is added to
schemas has to be added here, and then the modules that go through leaves find it there.
-/

/-- A node with nothing below it and only bare types in its union. -/
structure Schema.IsLeaf (s : Schema) : Prop where
  /-- it is no document -/
  isRoot : s.isRoot = false
  /-- it says nothing about items -/
  items : s.items = none
  /-- it has no properties -/
  properties : s.properties = []
  /-- it says nothing about other members -/
  additionalProperties : s.additionalProperties = none
  /-- its union has bare types only -/
  bare : ∀ m ∈ s.oneOf, ∃ ty, m = .ofType ty

/-- A leaf is its type, its union, its values and its format. -/
theorem Schema.IsLeaf.eq {s : Schema} (h : s.IsLeaf) :
    s = { type := s.type, oneOf := s.oneOf, literals := s.literals, format := s.format } := by
  obtain ⟨isRoot, items, properties, additionalProperties, literals, type, oneOf, format⟩ := s
  obtain ⟨hroot, hitems, hproperties, hadditional, -⟩ := h
  simp only at hroot hitems hproperties hadditional
  rw [hroot, hitems, hproperties, hadditional]

theorem Schema.IsLeaf.exists_types {s : Schema} (h : s.IsLeaf) :
    ∃ tys : List JsonType, s.oneOf = tys.map ofType := by
  have hbare := h.bare
  generalize s.oneOf = members at hbare
  induction members with
  | nil => exact ⟨[], rfl⟩
  | cons m rest ih =>
    obtain ⟨ty, rfl⟩ := hbare m List.mem_cons_self
    obtain ⟨tys, rfl⟩ := ih fun m hm => hbare m (List.mem_cons_of_mem _ hm)
    exact ⟨ty :: tys, rfl⟩

theorem Schema.isLeaf_ofType (ty : JsonType) : (ofType ty).IsLeaf :=
  ⟨rfl, rfl, rfl, rfl, fun _ hm => absurd hm List.not_mem_nil⟩

theorem Schema.isLeaf_union (tys : List JsonType) (literals : List Literal) :
    ({ oneOf := tys.map ofType, literals := literals } : Schema).IsLeaf := by
  refine ⟨rfl, rfl, rfl, rfl, fun m hm => ?_⟩
  obtain ⟨ty, -, rfl⟩ := List.mem_map.mp hm
  exact ⟨ty, rfl⟩

/-- A union without null is the union of its other types. -/
theorem Schema.filter_isType_null (tys : List JsonType) :
    ((tys.map ofType).filter fun m => !m.isType .null) = (tys.filter (· ≠ .null)).map ofType := by
  rw [List.filter_map]
  congr 2
  funext ty
  cases ty <;> rfl

/-- The nodes of a type, nullable or not, in one form. -/
theorem Policy.scalar_eq (p : Policy) (ty : JsonType) :
    p.scalar ty =
      { type := if p.nullable then none else some ty
        oneOf := if p.nullable then [.ofType .null, .ofType ty] else [] } := by
  rw [scalar]
  cases p.nullable <;> rfl

theorem Policy.scalar_eq_nullable {p : Policy} (hn : p.nullable = true) (ty : JsonType) :
    p.scalar ty = .nullable ty :=
  if_pos hn

theorem Policy.scalar_eq_ofType {p : Policy} (hn : p.nullable = false) (ty : JsonType) :
    p.scalar ty = .ofType ty :=
  if_neg (by simp [hn])

theorem Policy.isLeaf_scalar (p : Policy) (ty : JsonType) : (p.scalar ty).IsLeaf := by
  rw [scalar]
  split
  · exact Schema.isLeaf_union [.null, ty] []
  · exact Schema.isLeaf_ofType ty

/-! ## Values of an enum -/

/-- The values of the enum that was found for a field, none when there is no such enum. -/
def enumValues : Option EnumType → List EnumValue
  | some e => e.values
  | none => []

/-- The values that an enum field lists. -/
def Policy.listed (p : Policy) (found : Option EnumType) : List Literal :=
  match found with
  | some e => e.literals p.enumNumbers
  | none => []

theorem EnumType.mem_literals_iff {e : EnumType} {withNumbers : Bool} {l : Literal} :
    l ∈ e.literals withNumbers ↔
      ∃ x ∈ e.values, l = .name x.name ∨ (withNumbers = true ∧ l = .number x.number) := by
  rw [literals, List.mem_flatMap]
  cases withNumbers <;> simp

/-- Only an enum without values lists nothing. -/
theorem EnumType.literals_eq_nil_iff {e : EnumType} {withNumbers : Bool} :
    e.literals withNumbers = [] ↔ e.values = [] := by
  rw [literals]
  cases e.values <;> simp

/-- A field lists nothing when its enum is not in scope or has no values. -/
theorem Policy.listed_eq_nil_iff (p : Policy) (found : Option EnumType) :
    p.listed found = [] ↔ enumValues found = [] := by
  cases found with
  | none => exact iff_of_true rfl rfl
  | some e => exact EnumType.literals_eq_nil_iff

/-! ## Unions -/

/-- The type of a kind that is written as one type, nullable or not. -/
def FieldKind.scalarType? : FieldKind → Option JsonType
  | .float => some .number
  | .int32 => some .integer
  | .string => some .string
  | .bool => some .boolean
  | _ => none

/-- A union for an enum is written only where numbers are, as it is for the numbers. -/
theorem Policy.enumNumbers_of_enumOneOf {p : Policy} (h : p.enumOneOf = true) :
    p.enumNumbers = true := by
  rw [enumOneOf, Bool.and_eq_true] at h
  exact h.1

/-- The types of a 64-bit integer, where unions are allowed. -/
def Policy.bigIntegerTypes (p : Policy) : List JsonType :=
  .integer :: ((if p.bigintsAsStrings then [.string] else []) ++ if p.nullable then [.null] else [])

/-- The types of an enum, where enums are unions. -/
def enumTypes (withNull : Bool) : List JsonType :=
  [.string, .integer] ++ if withNull then [.null] else []

/-- A 64-bit integer is a union of its types, or a plain integer where unions are not allowed. -/
theorem Policy.bigInteger_eq (p : Policy) :
    p.bigInteger =
      if p.oneOf then { oneOf := p.bigIntegerTypes.map .ofType } else .ofType .integer := by
  rw [bigInteger, bigIntegerTypes]
  cases p.bigintsAsStrings <;> cases p.nullable <;> rfl

theorem Policy.enumBase_eq (p : Policy) (withNull : Bool) :
    p.enumBase withNull =
      if p.enumOneOf then { oneOf := (enumTypes withNull).map .ofType } else .ofType .string := by
  rw [enumBase, enumTypes]
  cases withNull <;> rfl

/-- An enum field is the node of an enum with the values of the enum that was found. -/
theorem Policy.enumField_eq (p : Policy) (found : Option EnumType) :
    p.enumField found =
      if p.enumOneOf then
        { oneOf := (enumTypes p.nullable).map .ofType, literals := p.listed found }
      else
        { type := some .string, literals := p.listed found } := by
  by_cases h : p.enumOneOf = true <;> cases found <;>
    simp [enumField, enumBase_eq, listed, h, Schema.ofType]

theorem Policy.isLeaf_bigInteger (p : Policy) : p.bigInteger.IsLeaf := by
  rw [bigInteger_eq]
  split
  · exact Schema.isLeaf_union _ []
  · exact Schema.isLeaf_ofType _

theorem Policy.isLeaf_enumField (p : Policy) (found : Option EnumType) :
    (p.enumField found).IsLeaf := by
  rw [enumField_eq]
  split
  · exact Schema.isLeaf_union _ _
  · exact ⟨rfl, rfl, rfl, rfl, fun _ hm => absurd hm List.not_mem_nil⟩

/-- The one well-known type is that of timestamps. It is written as a string, whatever the policy
is. -/
theorem wellKnown_eq_some_iff {typeName : String} {s : Schema} :
    wellKnown typeName = some s ↔ typeName = timestampName ∧
      s = { type := some .string, format := some "date-time" } := by
  rw [wellKnown]
  split
  · next h => simp [h, eq_comm]
  · next h => simp [h]

/-- **The node of a plain field is a leaf.** -/
theorem Field.isLeaf_element {f : Field} {p : Policy} {scope : List EnumType} {kind : FieldKind}
    {a : Schema} (ha : f.element? p scope kind = some a) : a.IsLeaf := by
  cases kind with
  | float => exact Option.some.inj ha ▸ p.isLeaf_scalar _
  | int32 => exact Option.some.inj ha ▸ p.isLeaf_scalar _
  | int64 => exact Option.some.inj ha ▸ p.isLeaf_bigInteger
  | string => exact Option.some.inj ha ▸ p.isLeaf_scalar _
  | bool => exact Option.some.inj ha ▸ p.isLeaf_scalar _
  | enumeration => exact Option.some.inj ha ▸ p.isLeaf_enumField _
  | message =>
    obtain ⟨-, rfl⟩ := wellKnown_eq_some_iff.mp ha
    exact ⟨rfl, rfl, rfl, rfl, fun _ hm => absurd hm List.not_mem_nil⟩

/-! ## What leaves accept -/

/-- As many members of a union accept a value as it has types that admit it. -/
theorem Schema.countP_accepts_map_ofType (tys : List JsonType) (v : Value) :
    (tys.map ofType).countP (·.accepts v) = tys.countP (·.admits v) := by
  rw [List.countP_map]
  exact List.countP_congr fun ty _ => by simp

/-- A leaf accepts what is of its type, among its values and of exactly one type of its union. -/
theorem Schema.IsLeaf.accepts_iff {s : Schema} (h : s.IsLeaf) (v : Value) :
    s.accepts v = true ↔ (∀ ty, s.type = some ty → ty.admits v = true) ∧
      (s.literals ≠ [] → ∃ l ∈ s.literals, l.equals v = true) ∧
      (s.oneOf ≠ [] → s.oneOf.countP (·.accepts v) = 1) := by
  have hmembers : MembersAllowed s.properties (s.additionalProperties != some false) v.members := by
    rw [h.properties, h.additionalProperties]
    exact fun _ _ => rfl
  rw [Schema.accepts_iff, h.items]
  simp [hmembers]

/-- A union of bare types asks for exactly one of its types. -/
theorem Schema.accepts_union_iff {tys : List JsonType} (htys : tys ≠ []) (literals : List Literal)
    (v : Value) :
    ({ oneOf := tys.map ofType, literals := literals } : Schema).accepts v = true ↔
      (literals ≠ [] → ∃ l ∈ literals, l.equals v = true) ∧ tys.countP (·.admits v) = 1 := by
  rw [(isLeaf_union tys literals).accepts_iff, countP_accepts_map_ofType]
  simp [htys]

theorem Schema.accepts_typed_iff (ty : JsonType) (literals : List Literal)
    (format : Option String) (v : Value) :
    ({ type := some ty, literals := literals, format := format } : Schema).accepts v = true ↔
      (literals ≠ [] → ∃ l ∈ literals, l.equals v = true) ∧ ty.admits v = true := by
  have hleaf : ({ type := some ty, literals := literals, format := format } : Schema).IsLeaf :=
    ⟨rfl, rfl, rfl, rfl, fun _ hm => absurd hm List.not_mem_nil⟩
  rw [hleaf.accepts_iff]
  simp [and_comm]

end ProtoSchema
