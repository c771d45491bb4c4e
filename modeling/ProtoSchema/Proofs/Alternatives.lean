import ProtoSchema.Proofs.Elements

/-!
# The types of a plain node

What is written for a field that embeds no message, for an enum, and for the items of an array of
such values is a leaf of a certain form: it lets through the values of its type, or those of the
types of its union (`Schema.types`), and the union is of types that have no value in common. So
exactly one member of the union holds as soon as some member does (`Schema.IsPlain.accepts_iff`),
and a union of more types accepts more, which is false of unions in general.

This is what makes `oneOf` harmless here. The keyword asks for exactly one member, and a schema that
is extended by a member can lose values that two members have in common. Integers are the case to
look at: every integer is a number too. No union that is written has both types, which is why
`JsonType.pairwise_apart` asks for that.

Null is dropped from such a node by dropping it from the types (`Schema.IsPlain.types_dropNull`),
and the last section shows that everything that is written for such a field is plain
(`Field.isPlain_element`). From there on a proof looks at the types of a node and no longer at its
keywords.
-/

namespace ProtoSchema

/-! ## Types without a common value

Of the seven types only two have values in common, integers and numbers.
-/

namespace JsonType

/-- No value is of both types. -/
def Apart (a b : JsonType) : Prop := ∀ v, a.admits v = true → b.admits v = false

/-- Every type has a value. -/
theorem exists_admits (ty : JsonType) : ∃ v, ty.admits v = true := by
  cases ty with
  | null => exact ⟨.null, rfl⟩
  | boolean => exact ⟨.boolean true, rfl⟩
  | integer => exact ⟨.integer 0, rfl⟩
  | number => exact ⟨.integer 0, rfl⟩
  | string => exact ⟨.string "", rfl⟩
  | array => exact ⟨.array [], rfl⟩
  | object => exact ⟨.object [], rfl⟩

/-- Types that are apart are different, as no type is without values. -/
theorem Apart.ne {a b : JsonType} (h : a.Apart b) : a ≠ b := by
  rintro rfl
  obtain ⟨v, hv⟩ := a.exists_admits
  rw [h v hv] at hv
  cases hv

/-- Null is of no other type. -/
theorem apart_null {ty : JsonType} (hty : ty ≠ .null) : JsonType.null.Apart ty := by
  intro v hv
  cases v with
  | null => cases ty <;> first | rfl | exact absurd rfl hty
  | _ => cases hv

/-- A value is of one type only, apart from numbers. -/
theorem eq_of_admits {a b : JsonType} (ha : a ≠ .number) (hb : b ≠ .number) {v : Value}
    (hav : a.admits v = true) (hbv : b.admits v = true) : a = b := by
  cases v <;> cases a <;> first
    | exact absurd hav Bool.false_ne_true
    | exact absurd rfl ha
    | cases b <;> first
      | rfl
      | exact absurd hbv Bool.false_ne_true
      | exact absurd rfl hb

/-- Different types are apart, as long as the numbers are not among them. -/
theorem pairwise_apart {tys : List JsonType} (hdistinct : tys.Nodup) (hnumber : .number ∉ tys) :
    tys.Pairwise Apart := by
  refine hdistinct.imp_of_mem ?_
  intro a b ha hb hne v hav
  by_contra hbv
  have hno : ∀ ty ∈ tys, ty ≠ .number := by
    rintro ty hty rfl
    exact hnumber hty
  exact hne (eq_of_admits (hno a ha) (hno b hb) hav (by simpa using hbv))

/-- Of types that are pairwise apart a value is of one at most. -/
theorem countP_admits_le_one {tys : List JsonType} (h : tys.Pairwise Apart) (v : Value) :
    tys.countP (·.admits v) ≤ 1 := by
  induction h with
  | nil => exact Nat.zero_le 1
  | @cons ty tys hty _ ih =>
    rw [List.countP_cons]
    by_cases hv : ty.admits v = true
    · have hrest : tys.countP (·.admits v) = 0 := by
        rw [List.countP_eq_zero]
        intro ty' hmem
        simp [hty ty' hmem v hv]
      simp [hv, hrest]
    · simpa [hv] using ih

/-- Of types that are pairwise apart a value is of exactly one as soon as it is of some. -/
theorem countP_admits_eq_one_iff {tys : List JsonType} (h : tys.Pairwise Apart) (v : Value) :
    tys.countP (·.admits v) = 1 ↔ ∃ ty ∈ tys, ty.admits v = true := by
  rw [← List.countP_pos_iff]
  have hle := countP_admits_le_one h v
  omega

end JsonType

/-! ## Plain nodes

The fields of the structure below are what the proofs about nulls, policies and literals need to
know of a node that is no array and no object.
-/

namespace Schema

/-- The types whose values a node lets through, its own and those of its union. -/
def types (s : Schema) : List JsonType := s.type.toList ++ s.oneOf.filterMap (·.type)

/-- A leaf of one type or of a union of types, as it is written for a value that occurs once and is
no message. -/
structure IsPlain (s : Schema) : Prop extends IsLeaf s where
  /-- it has a type or a union, and not both -/
  one : s.type = none ↔ s.oneOf ≠ []
  /-- no value is of two of its types -/
  apart : s.types.Pairwise JsonType.Apart
  /-- null is not all that it lets through -/
  some_ne_null : ∃ ty ∈ s.types, ty ≠ .null
  /-- its values have no parts -/
  flat : ∀ ty ∈ s.types, ty ≠ .array ∧ ty ≠ .object
  /-- only strings, or strings and integers, are listed -/
  listed : s.literals ≠ [] → s.type = some .string ∨ ∃ withNull, s.types = enumTypes withNull
  /-- only strings have a format -/
  hinted : s.format ≠ none → s.type = some .string

/-- A union of bare types has these types. -/
theorem filterMap_type_map_ofType (tys : List JsonType) :
    (tys.map ofType).filterMap (·.type) = tys := by
  rw [List.filterMap_map]
  exact List.filterMap_some

/-- A plain node has one type and no union, or a union of its types and no type. -/
theorem IsPlain.cases {s : Schema} (h : s.IsPlain) :
    (∃ ty, s.type = some ty ∧ s.oneOf = [] ∧ s.types = [ty]) ∨
      (s.type = none ∧ s.oneOf = s.types.map ofType ∧ s.types ≠ []) := by
  obtain ⟨tys, htys⟩ := h.toIsLeaf.exists_types
  cases htype : s.type with
  | some ty =>
    have hone : s.oneOf = [] := by
      by_contra hne
      rw [h.one.mpr hne] at htype
      cases htype
    refine Or.inl ⟨ty, rfl, hone, ?_⟩
    rw [types, htype, hone]
    rfl
  | none =>
    have htypes : s.types = tys := by
      rw [types, htype, htys, filterMap_type_map_ofType]
      rfl
    refine Or.inr ⟨rfl, htypes ▸ htys, ?_⟩
    intro hnil
    apply h.one.mp htype
    rw [htys, ← htypes, hnil]
    rfl

/-- A plain node accepts the values of its types that it lists, if it lists any. -/
theorem IsPlain.accepts_iff {s : Schema} (h : s.IsPlain) (v : Value) :
    s.accepts v = true ↔ (∃ ty ∈ s.types, ty.admits v = true) ∧
      (s.literals ≠ [] → ∃ l ∈ s.literals, l.equals v = true) := by
  rw [h.toIsLeaf.accepts_iff]
  rcases h.cases with ⟨ty, htype, hone, htypes⟩ | ⟨htype, hone, hne⟩
  · simp [htype, hone, htypes]
  · have hcount : s.oneOf.countP (·.accepts v) = s.types.countP (·.admits v) := by
      rw [hone, countP_accepts_map_ofType]
    have hunion : s.oneOf ≠ [] := h.one.mp htype
    rw [hcount, JsonType.countP_admits_eq_one_iff h.apart]
    simp [htype, hunion, and_comm]

/-! ## Forms of plain nodes -/

/-- The types of a node that is a union and no more. -/
theorem types_union (tys : List JsonType) (literals : List Literal) :
    ({ oneOf := tys.map ofType, literals := literals } : Schema).types = tys :=
  filterMap_type_map_ofType tys

/-- A node with one type is plain, when only strings are listed or have a format. -/
theorem isPlain_typed {ty : JsonType} (hnull : ty ≠ .null) (hflat : ty ≠ .array ∧ ty ≠ .object)
    {literals : List Literal} (hliterals : literals ≠ [] → ty = .string) {format : Option String}
    (hformat : format ≠ none → ty = .string) :
    ({ type := some ty, literals := literals, format := format } : Schema).IsPlain where
  isRoot := rfl
  items := rfl
  properties := rfl
  additionalProperties := rfl
  bare _ hm := absurd hm List.not_mem_nil
  one := by simp
  apart := List.pairwise_singleton _ _
  some_ne_null := ⟨ty, List.mem_singleton_self ty, hnull⟩
  flat ty' hty' := List.mem_singleton.mp hty' ▸ hflat
  listed h := Or.inl (congrArg some (hliterals h))
  hinted h := congrArg some (hformat h)

/-- A node with a union of types is plain, when these are apart and there is more than null in
them. -/
theorem isPlain_union {tys : List JsonType} (hapart : tys.Pairwise JsonType.Apart)
    (hnull : ∃ ty ∈ tys, ty ≠ .null) (hflat : ∀ ty ∈ tys, ty ≠ .array ∧ ty ≠ .object)
    {literals : List Literal} (hliterals : literals ≠ [] → ∃ withNull, tys = enumTypes withNull) :
    ({ oneOf := tys.map ofType, literals := literals } : Schema).IsPlain where
  toIsLeaf := isLeaf_union tys literals
  one := by
    obtain ⟨ty, hty, -⟩ := hnull
    simpa using List.ne_nil_of_mem hty
  apart := (types_union tys literals).symm ▸ hapart
  some_ne_null := (types_union tys literals).symm ▸ hnull
  flat := (types_union tys literals).symm ▸ hflat
  listed h := Or.inr ((types_union tys literals).symm ▸ hliterals h)
  hinted h := absurd rfl h

/-! ## Without null -/

/-- The keywords that go from an element to the items of an array. -/
def bareElement (s : Schema) : Schema :=
  { type := s.type, oneOf := s.oneOf, literals := s.literals }

/-- The items of an array are plain when the element is. The format stays with the array. -/
theorem IsPlain.bareElement {s : Schema} (h : s.IsPlain) : s.bareElement.IsPlain where
  isRoot := rfl
  items := rfl
  properties := rfl
  additionalProperties := rfl
  bare := h.bare
  one := h.one
  apart := h.apart
  some_ne_null := h.some_ne_null
  flat := h.flat
  listed := h.listed
  hinted hf := absurd rfl hf

/-- Dropping null leaves the literals. No literal is null, so that none would have to go. -/
theorem literals_dropNull (s : Schema) : s.dropNull.literals = s.literals := by
  rw [dropNull]
  split
  · split <;> rfl
  · rfl

/-- A union of bare types lets null through when null is one of them. -/
theorem admitsNull_iff {s : Schema} {tys : List JsonType} (hone : s.oneOf = tys.map ofType) :
    s.admitsNull = true ↔ .null ∈ tys := by
  rw [admitsNull, hone, List.any_map, List.any_eq_true]
  simp [isType, ofType]

/-- Dropping null leaves a plain node with its other types: as it was, with one type, or with the
smaller union. -/
theorem IsPlain.dropNull_cases {s : Schema} (h : s.IsPlain) :
    (.null ∉ s.types ∧ s.dropNull = s) ∨
      (s.type = none ∧ ∃ ty, s.types.filter (· ≠ .null) = [ty] ∧
        s.dropNull = { s with oneOf := [], type := some ty }) ∨
      (s.type = none ∧ s.types.filter (· ≠ .null) ≠ [] ∧
        s.dropNull = { s with oneOf := (s.types.filter (· ≠ .null)).map ofType }) := by
  rcases h.cases with ⟨ty, htype, hone, htypes⟩ | ⟨htype, hone, -⟩
  · obtain ⟨ty', hty', hne⟩ := h.some_ne_null
    rw [htypes, List.mem_singleton] at hty'
    subst hty'
    refine Or.inl ⟨?_, ?_⟩
    · rw [htypes, List.mem_singleton]
      exact hne.symm
    · rw [dropNull, admitsNull, hone]
      rfl
  · by_cases hnull : .null ∈ s.types
    · obtain ⟨ty, hty, hne⟩ := h.some_ne_null
      have hmem : ty ∈ s.types.filter (· ≠ .null) := by
        rw [List.mem_filter]
        exact ⟨hty, by simpa using hne⟩
      have hfilter : (s.oneOf.filter fun m => !m.isType .null) =
          (s.types.filter (· ≠ .null)).map ofType := by
        rw [hone]
        exact filter_isType_null s.types
      rw [dropNull, if_pos ((admitsNull_iff hone).mpr hnull), hfilter]
      -- one type that is left stands by itself, more than one stay a union
      generalize s.types.filter (· ≠ .null) = left at hmem
      rcases left with _ | ⟨ty', _ | ⟨ty'', rest⟩⟩
      · cases hmem
      · exact Or.inr (Or.inl ⟨htype, ty', rfl, rfl⟩)
      · exact Or.inr (Or.inr ⟨htype, List.cons_ne_nil _ _, rfl⟩)
    · refine Or.inl ⟨hnull, ?_⟩
      rw [dropNull, if_neg]
      intro hadmits
      exact hnull ((admitsNull_iff hone).mp hadmits)

/-- **Dropping null** takes null from the types of a plain node and leaves the others. A node
without null in its union stays as it is. Otherwise the null goes from the union, and when one type
is left there, that becomes the type of the node. -/
theorem IsPlain.types_dropNull {s : Schema} (h : s.IsPlain) :
    s.dropNull.types = s.types.filter (· ≠ .null) := by
  rcases h.dropNull_cases with ⟨hnull, hs⟩ | ⟨-, ty, hty, hs⟩ | ⟨htype, -, hs⟩
  · rw [hs, List.filter_eq_self.mpr]
    intro ty hty
    have hne : ty ≠ .null := by
      rintro rfl
      exact hnull hty
    simpa using hne
  · rw [hs, hty]
    rfl
  · rw [hs, types, htype]
    exact filterMap_type_map_ofType _

/-- What is left without null is plain again, so that null may be dropped wherever a plain node
stands. -/
theorem IsPlain.dropNull {s : Schema} (h : s.IsPlain) : s.dropNull.IsPlain := by
  rcases h.dropNull_cases with ⟨-, hs⟩ | hdropped
  · rw [hs]
    exact h
  -- with one type left or with more of them, what is left is a leaf of the same keywords
  obtain ⟨htype, hleaf, hone, hformat⟩ : s.type = none ∧ s.dropNull.IsLeaf ∧
      (s.dropNull.type = none ↔ s.dropNull.oneOf ≠ []) ∧ s.dropNull.format = s.format := by
    rcases hdropped with ⟨htype, ty, -, hs⟩ | ⟨htype, hne, hs⟩
    · rw [hs]
      refine ⟨htype, ⟨h.isRoot, h.items, h.properties, h.additionalProperties, ?_⟩, ?_, rfl⟩
      · exact fun m hm => absurd hm List.not_mem_nil
      · simp
    · rw [hs]
      refine ⟨htype, ⟨h.isRoot, h.items, h.properties, h.additionalProperties, ?_⟩, ?_, rfl⟩
      · exact (isLeaf_union _ []).bare
      · simpa [htype] using hne
  have hmem : ∀ ty ∈ s.dropNull.types, ty ∈ s.types := by
    intro ty hty
    rw [h.types_dropNull, List.mem_filter] at hty
    exact hty.1
  refine ⟨hleaf, hone, ?_, ?_, fun ty hty => h.flat ty (hmem ty hty), ?_, ?_⟩
  · rw [h.types_dropNull]
    exact h.apart.filter _
  · obtain ⟨ty, hty, hne⟩ := h.some_ne_null
    refine ⟨ty, ?_, hne⟩
    rw [h.types_dropNull, List.mem_filter]
    exact ⟨hty, by simpa using hne⟩
  · -- a union that lists strings and integers has both of them left
    intro hliterals
    rw [literals_dropNull] at hliterals
    rcases h.listed hliterals with hstring | ⟨withNull, henum⟩
    · rw [hstring] at htype
      cases htype
    · refine Or.inr ⟨false, ?_⟩
      rw [h.types_dropNull, henum]
      cases withNull <;> rfl
  · intro hne
    rw [hformat] at hne
    rw [h.hinted hne] at htype
    cases htype

end Schema

/-! ## What is written is plain -/

namespace Policy

/-- An array has the scalar for arrays around its items, and takes over the format. -/
theorem arrayOf_eq (p : Policy) (a : Schema) :
    p.arrayOf a =
      { p.scalar .array with items := some a.bareElement.dropNull, format := a.format } := rfl

/-- Big integers are integers, strings or both, as the policy has it. -/
theorem types_bigInteger (p : Policy) :
    p.bigInteger.types = if p.oneOf then p.bigIntegerTypes else [.integer] := by
  rw [bigInteger_eq]
  cases p.oneOf
  · rfl
  · exact Schema.types_union _ []

/-- The types of an enum: names alone, or names and numbers with null as the policy has it. -/
theorem types_enumField (p : Policy) (found : Option EnumType) :
    (p.enumField found).types = if p.enumOneOf then enumTypes p.nullable else [.string] := by
  rw [enumField_eq]
  cases p.enumOneOf
  · rfl
  · exact Schema.types_union _ _

theorem literals_enumField (p : Policy) (found : Option EnumType) :
    (p.enumField found).literals = p.listed found := by
  rw [enumField_eq]
  cases p.enumOneOf <;> rfl

/-- A scalar is plain unless it is for null, arrays or objects. -/
theorem isPlain_scalar (p : Policy) {ty : JsonType} (hnull : ty ≠ .null)
    (hflat : ty ≠ .array ∧ ty ≠ .object) : (p.scalar ty).IsPlain := by
  rw [scalar]
  split
  · have hpair : [JsonType.null, ty].Pairwise JsonType.Apart := by
      simpa using JsonType.apart_null hnull
    exact Schema.isPlain_union hpair ⟨ty, by simp, hnull⟩ (by simpa using hflat)
      fun h => absurd rfl h
  · exact Schema.isPlain_typed hnull hflat (fun h => absurd rfl h) fun h => absurd rfl h

theorem isPlain_bigInteger (p : Policy) : p.bigInteger.IsPlain := by
  have htypes : p.bigIntegerTypes.Nodup ∧ .number ∉ p.bigIntegerTypes ∧
      ∀ ty ∈ p.bigIntegerTypes, ty ≠ .array ∧ ty ≠ .object := by
    rw [bigIntegerTypes]
    cases p.bigintsAsStrings <;> cases p.nullable <;> decide
  obtain ⟨hdistinct, hnumber, hflat⟩ := htypes
  rw [bigInteger_eq]
  split
  · exact Schema.isPlain_union (JsonType.pairwise_apart hdistinct hnumber)
      ⟨.integer, List.mem_cons_self, by decide⟩ hflat fun h => absurd rfl h
  · exact Schema.isPlain_typed (by decide) (by decide) (fun h => absurd rfl h)
      fun h => absurd rfl h

theorem enumSchema_eq (p : Policy) (e : EnumType) :
    p.enumSchema e =
      if p.enumOneOf then
        { oneOf := (enumTypes false).map .ofType, literals := e.literals p.enumOneOf }
      else
        { type := some .string, literals := e.literals p.enumOneOf } := by
  rw [enumSchema, enumBase_eq]
  split <;> rfl

/-- The values of an enum under the type that they have, or under the union of their types. -/
theorem isPlain_enum (p : Policy) (withNull : Bool) (literals : List Literal) :
    (if p.enumOneOf then
        ({ oneOf := (enumTypes withNull).map .ofType, literals := literals } : Schema)
      else { type := some .string, literals := literals }).IsPlain := by
  have htypes : (enumTypes withNull).Nodup ∧ .number ∉ enumTypes withNull ∧
      ∀ ty ∈ enumTypes withNull, ty ≠ .array ∧ ty ≠ .object := by
    cases withNull <;> decide
  obtain ⟨hdistinct, hnumber, hflat⟩ := htypes
  split
  · exact Schema.isPlain_union (JsonType.pairwise_apart hdistinct hnumber)
      ⟨.string, List.mem_cons_self, by decide⟩ hflat fun _ => ⟨withNull, rfl⟩
  · exact Schema.isPlain_typed (by decide) (by decide) (fun _ => rfl) fun h => absurd rfl h

theorem isPlain_enumField (p : Policy) (found : Option EnumType) : (p.enumField found).IsPlain := by
  rw [enumField_eq]
  exact p.isPlain_enum p.nullable _

theorem isPlain_enumSchema (p : Policy) (e : EnumType) : (p.enumSchema e).IsPlain := by
  rw [enumSchema_eq]
  exact p.isPlain_enum false _

theorem types_enumSchema (p : Policy) (e : EnumType) :
    (p.enumSchema e).types = if p.enumOneOf then enumTypes false else [.string] := by
  rw [enumSchema_eq]
  cases p.enumOneOf
  · rfl
  · exact Schema.types_union _ _

end Policy

/-- **The node of a plain field is plain.** The kinds of fields are gone through here and for
leaves; what is shown of plain nodes from here on has no kinds in it. -/
theorem Field.isPlain_element {f : Field} {p : Policy} {scope : List EnumType} {kind : FieldKind}
    {a : Schema} (ha : f.element? p scope kind = some a) : a.IsPlain := by
  cases kind with
  | int64 => exact Option.some.inj ha ▸ p.isPlain_bigInteger
  | enumeration => exact Option.some.inj ha ▸ p.isPlain_enumField _
  | message =>
    obtain ⟨-, rfl⟩ := wellKnown_eq_some_iff.mp ha
    exact Schema.isPlain_typed (by decide) (by decide) (fun _ => rfl) fun _ => rfl
  | _ => exact Option.some.inj ha ▸ p.isPlain_scalar (by decide) (by decide)

end ProtoSchema
