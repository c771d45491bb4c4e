import ProtoSchema.Proofs.Nodes

/-!
# The shape of a node

Every node that is written has a type or a union of bare types that a value can be of one at a time,
and the other keywords go with that type: items with arrays, properties with objects, a list of
values with strings or with strings and integers, a format with strings or with arrays
(`Schema.WellShaped`). Where null is allowed the type of an array or an object stands in a union
with null, so these keywords go with the type beside null (`Schema.mainType?`).

No step of a conversion breaks the shape: neither moving an element to the items of an array, nor
dropping null from it, nor putting the properties of a message into the node of a field
(`Conversion.shapes`).

There are two kinds of nodes to look at. A plain node has its shape from the types of its union,
which are apart (`Schema.IsPlain.wellShaped`), and dropping null leaves it plain. Any other node is
of one type, array or object, nullable or not, and has the shape when its keywords go with that type
(`Schema.wellShaped_typed`).
-/

namespace ProtoSchema

namespace Schema

/-! ## Shapes

A field of the structure for each keyword. That at most one member of a union holds is said of
values, so that it does not depend on how the members are written.
-/

/-- The type of a node: its own, or that of the only member of its union that is not null. -/
def mainType? (s : Schema) : Option JsonType :=
  match s.type with
  | some ty => some ty
  | none =>
    match s.oneOf.filter fun m => !m.isType .null with
    | [m] => m.type
    | _ => none

/-- The keywords of a node go together. -/
structure WellShaped (s : Schema) : Prop where
  /-- it has a type or a union, and not both -/
  one : s.type = none ↔ s.oneOf ≠ []
  /-- its union is one of bare types, each of them once -/
  bare : ∃ tys : List JsonType, s.oneOf = tys.map ofType ∧ tys.Nodup
  /-- a value is valid against one member of its union at most -/
  single : ∀ v, s.oneOf.countP (·.accepts v) ≤ 1
  /-- it has items exactly when it is an array -/
  items : s.items ≠ none ↔ s.mainType? = some .array
  /-- only an object has properties -/
  properties : s.properties ≠ [] → s.mainType? = some .object
  /-- an object says whether it may have other members -/
  additionalProperties : s.mainType? = some .object → s.additionalProperties ≠ none
  /-- only strings, or a union of strings, integers and null, are listed -/
  literals : s.literals ≠ [] → s.type = some .string ∨
    (s.oneOf ≠ [] ∧ ∀ m ∈ s.oneOf, m = ofType .string ∨ m = ofType .integer ∨ m = ofType .null)
  /-- only a string or an array has a format -/
  format : s.format ≠ none → s.type = some .string ∨ s.mainType? = some .array

/-- The marker of a document has no part in the shape. -/
theorem WellShaped.asDocument {s : Schema} (h : s.WellShaped) : s.asDocument.WellShaped where
  one := h.one
  bare := h.bare
  single := h.single
  items := h.items
  properties := h.properties
  additionalProperties := h.additionalProperties
  literals := h.literals
  format := h.format

theorem mem_types_of_mainType? {s : Schema} {ty : JsonType} (h : s.mainType? = some ty) :
    ty ∈ s.types := by
  rw [mainType?] at h
  rw [types, List.mem_append, Option.mem_toList]
  split at h
  · next htype => exact Or.inl (htype.trans h)
  · split at h
    · next m hm =>
      have hmem : m ∈ s.oneOf.filter fun m => !m.isType .null := by
        rw [hm]
        exact List.mem_singleton_self m
      exact Or.inr (List.mem_filterMap.mpr ⟨m, (List.mem_filter.mp hmem).1, h⟩)
    · cases h

/-! ## Plain nodes -/

/-- **A plain node** has the shape, as its union is of types that are apart. It has no keywords for
arrays and objects, and what it lists goes with its types. -/
theorem IsPlain.wellShaped {s : Schema} (h : s.IsPlain) : s.WellShaped := by
  have hflat : ∀ ty, s.mainType? = some ty → ty ≠ .array ∧ ty ≠ .object := by
    intro ty hty
    exact h.flat ty (mem_types_of_mainType? hty)
  -- one type needs no union, and the types of a union are apart
  have hunion : ∃ tys : List JsonType, s.oneOf = tys.map ofType ∧ tys.Pairwise JsonType.Apart := by
    rcases h.cases with ⟨ty, -, hone, -⟩ | ⟨-, hone, -⟩
    · exact ⟨[], hone, .nil⟩
    · exact ⟨s.types, hone, h.apart⟩
  obtain ⟨tys, htys, hapart⟩ := hunion
  refine ⟨h.one, ⟨tys, htys, hapart.imp JsonType.Apart.ne⟩, ?_, ?_, ?_, ?_, ?_, ?_⟩
  · intro v
    rw [htys, countP_accepts_map_ofType]
    exact JsonType.countP_admits_le_one hapart v
  · refine iff_of_false (fun hne => hne h.items) fun harray => ?_
    exact (hflat _ harray).1 rfl
  · intro hne
    exact absurd h.properties hne
  · intro hobject
    exact absurd rfl (hflat _ hobject).2
  · intro hne
    rcases h.listed hne with hstring | ⟨withNull, henum⟩
    · exact Or.inl hstring
    · rcases h.cases with ⟨ty, -, -, htypes⟩ | ⟨htype, hone, -⟩
      · -- one type is not the types of an enum
        rw [htypes] at henum
        cases withNull <;> cases henum
      · refine Or.inr ⟨h.one.mp htype, ?_⟩
        have hsubset : enumTypes withNull ⊆ [.string, .integer, .null] := by
          cases withNull <;> decide
        intro m hm
        rw [hone, henum] at hm
        obtain ⟨ty, hty, rfl⟩ := List.mem_map.mp hm
        have hmem := hsubset hty
        simp only [List.mem_cons, List.not_mem_nil, or_false] at hmem
        rcases hmem with rfl | rfl | rfl <;> simp
  · intro hne
    exact Or.inl (h.hinted hne)

/-! ## Arrays and objects

For a node of one type the shape can be read off its keywords, and null changes only where the type
stands.
-/

/-- A node of one type, nullable or not, has the shape when its other keywords go with the type. -/
theorem wellShaped_typed (nullable : Bool) {ty : JsonType} (hty : ty ≠ .null)
    {items : Option Schema} (hitems : items ≠ none ↔ ty = .array)
    {properties : List (String × Schema)} (hproperties : properties ≠ [] → ty = .object)
    {additionalProperties : Option Bool} (hmore : ty = .object → additionalProperties ≠ none)
    {format : Option String} (hformat : format ≠ none → ty = .array) :
    ({ items := items
       properties := properties
       additionalProperties := additionalProperties
       type := if nullable then none else some ty
       oneOf := if nullable then [.ofType .null, .ofType ty] else []
       format := format } : Schema).WellShaped := by
  have hunion : ∃ tys : List JsonType, (if nullable then [ofType .null, ofType ty] else []) =
      tys.map ofType ∧ tys.Pairwise JsonType.Apart := by
    cases nullable with
    | false => exact ⟨[], rfl, .nil⟩
    | true => exact ⟨[.null, ty], rfl, by simpa using JsonType.apart_null hty⟩
  -- the type beside null is the same with null and without it
  have hmain : ∀ s : Schema, s.type = (if nullable then none else some ty) →
      s.oneOf = (if nullable then [.ofType .null, .ofType ty] else []) →
      s.mainType? = some ty := by
    intro s htype hone
    have hfilter : ([ofType .null, ofType ty].filter fun m => !m.isType .null) = [ofType ty] := by
      have h := filter_isType_null [.null, ty]
      simpa [hty] using h
    rw [mainType?, htype, hone]
    cases nullable with
    | false => rfl
    | true =>
      simp only [if_true, hfilter]
      rfl
  obtain ⟨tys, htys, hapart⟩ := hunion
  refine ⟨?_, ⟨tys, htys, hapart.imp JsonType.Apart.ne⟩, ?_, ?_, ?_, ?_, ?_, ?_⟩
  · cases nullable <;> simp
  · intro v
    simp only [htys, countP_accepts_map_ofType]
    exact JsonType.countP_admits_le_one hapart v
  · rw [hmain _ rfl rfl, Option.some_inj]
    exact hitems
  · intro hne
    rw [hmain _ rfl rfl, hproperties hne]
  · intro hobject
    rw [hmain _ rfl rfl] at hobject
    exact hmore (Option.some.inj hobject)
  · intro hne
    exact absurd rfl hne
  · intro hne
    rw [hmain _ rfl rfl, hformat hne]
    exact Or.inr rfl

end Schema

/-! ## What is written -/

namespace Policy

/-- An array has the shape, whatever its items are. -/
theorem wellShaped_arrayOf (p : Policy) (a : Schema) : (p.arrayOf a).WellShaped := by
  rw [arrayOf_eq, scalar_eq]
  exact Schema.wellShaped_typed p.nullable (by decide) (by simp) (fun h => absurd rfl h)
    (fun h => by cases h) fun _ => rfl

/-- The node of a message has the shape. -/
theorem wellShaped_messageSchema (p : Policy) (properties : List (String × Schema)) :
    (p.messageSchema properties).WellShaped := by
  rw [messageSchema, scalar_eq]
  exact Schema.wellShaped_typed p.nullable (by decide) (by simp) (fun _ => rfl)
    (fun _ => Option.some_ne_none _) fun h => absurd rfl h

/-- The node of a single message says whether it may have other members. -/
theorem openness_ne_none (p : Policy) {f : Field} (hlabel : f.label ≠ .repeated) :
    f.openness p ≠ none := by
  rw [Field.openness]
  cases hl : f.label <;> cases p.additionalProperties <;> simp_all

/-- So has the node around an embedded message, repeated or not. -/
theorem wellShaped_ofMessage (p : Policy) (f : Field) (message : Schema) :
    (f.ofMessage p message).WellShaped := by
  rw [Field.ofMessage, scalar_eq]
  by_cases hlabel : f.label = .repeated
  · simp only [hlabel, if_true]
    exact Schema.wellShaped_typed p.nullable (by decide) (by simp) (fun h => absurd rfl h)
      (fun h => by cases h) fun h => absurd rfl h
  · simp only [hlabel, if_false]
    exact Schema.wellShaped_typed p.nullable (by decide) (by simp) (fun _ => rfl)
      (fun _ => p.openness_ne_none hlabel) fun h => absurd rfl h

/-- **All nodes** that a policy writes have the shape, and only documents have the marker. Plain
nodes have it as such, and the others are nodes of one type with keywords for this type. -/
theorem writes_wellShaped (p : Policy) (E : EnumType → Prop) :
    p.WritesNodes E fun n => n.WellShaped ∧ n.isRoot = false where
  element f scope kind a _ ha := by
    have hplain := Field.isPlain_element ha
    rw [Field.ofElement_eq]
    split
    · have hbare := hplain.bareElement.dropNull
      refine everywhere_arrayOf hplain ⟨p.wellShaped_arrayOf a, ?_⟩ ⟨hbare.wellShaped, hbare.isRoot⟩
      rw [arrayOf_eq]
      exact (p.isLeaf_scalar .array).isRoot
    · exact hplain.everywhere ⟨hplain.wellShaped, hplain.isRoot⟩
  embedded f message := ⟨p.wellShaped_ofMessage f message, (p.isLeaf_scalar _).isRoot⟩
  message properties := ⟨p.wellShaped_messageSchema properties, (p.isLeaf_scalar .object).isRoot⟩
  enumeration e _ := by
    have hplain := p.isPlain_enumSchema e
    exact hplain.everywhere ⟨hplain.wellShaped, hplain.isRoot⟩

end Policy

/-- All nodes of a schema have the shape and no marker, and those of the document made of it have
the shape, and the root alone has the marker. -/
structure Schema.IsShaped (s : Schema) : Prop where
  /-- the schema before it is a document -/
  nodes : ∀ n, s.HasNode n → n.WellShaped ∧ n.isRoot = false
  /-- the document -/
  document : ∀ n, s.asDocument.HasNode n → n.WellShaped ∧ (n.isRoot = true ↔ n = s.asDocument)

/-- What has the shape at every node and no marker makes a document that has the marker at its root
alone. -/
theorem Schema.isShaped_of_everywhere {s : Schema}
    (h : s.Everywhere fun n => n.WellShaped ∧ n.isRoot = false) : s.IsShaped := by
  refine ⟨h, ?_⟩
  intro n hn
  rcases hn.of_asDocument with rfl | hn
  · exact ⟨(h s (.self s)).1.asDocument, iff_of_true rfl rfl⟩
  · obtain ⟨hshape, hroot⟩ := h n hn
    refine ⟨hshape, iff_of_false (by simp [hroot]) ?_⟩
    rintro rfl
    cases hroot

/-- **The shape of nodes**: every node of the schema of a message, a field or an enum is
well-shaped, and of the document made of it the root alone carries the marker. -/
theorem Conversion.shapes (c : Conversion) :
    (∀ d visible s, (c.message d visible).result = .ok s → s.IsShaped) ∧
    (∀ enclosing f visible s, (c.field enclosing f visible).result = .ok s → s.IsShaped) ∧
    ∀ e, (c.policy.enumSchema e).IsShaped := by
  have hwrites : c.policy.WritesNodes (fun _ => True) fun n => n.WellShaped ∧ n.isRoot = false :=
    c.policy.writes_wellShaped _
  refine ⟨?_, ?_, ?_⟩
  · intro d visible s hs
    exact Schema.isShaped_of_everywhere (everywhere_message hwrites hs)
  · intro enclosing f visible s hs
    exact Schema.isShaped_of_everywhere (everywhere_field hwrites hs)
  · intro e
    exact Schema.isShaped_of_everywhere (hwrites.enumeration e trivial)

/-! ### A diary -/

namespace Diary

/-- The times of the entries of a diary. -/
def times : Field :=
  { name := "times", label := .repeated, typeNumber := 11, typeName := timestampName }

/-- A diary with its times. -/
def diary : Declaration := ⟨[0, 0], { name := "Diary", fields := [times] }⟩

/-- The conversion under the policy that allows everything. -/
def conversion : Conversion where
  registry := Registry.empty
  package := 0
  policy := .everything

end Diary

/-- A diary and its times are well-shaped. -/
theorem shapes_diary :
    (∃ s, (Diary.conversion.message Diary.diary []).result = .ok s ∧ s.IsShaped) ∧
    ∃ s, (Diary.conversion.field Diary.diary Diary.times []).result = .ok s ∧ s.IsShaped := by
  obtain ⟨hmessage, hfield, -⟩ := Conversion.shapes Diary.conversion
  obtain ⟨s, hs⟩ : ∃ s, (Diary.conversion.message Diary.diary []).result = .ok s := by
    rw [Conversion.message, Conversion.messageSchema_eq]
    exact ⟨_, rfl⟩
  exact ⟨⟨s, hs, hmessage _ _ s hs⟩, _, rfl, hfield Diary.diary Diary.times [] _ rfl⟩

/-- Where null is allowed, the node of the times has a format, and its type is neither string nor
array: it has no type, but a union of null and arrays. -/
theorem times_format_without_type :
    ∃ s, (Diary.conversion.field Diary.diary Diary.times []).result = .ok s ∧ s.HasNode s ∧
      s.format = some "date-time" ∧ ¬ (s.type = some .string ∨ s.type = some .array) := by
  refine ⟨_, rfl, .self _, rfl, ?_⟩
  rintro (h | h) <;> cases h

end ProtoSchema
