import ProtoSchema.Proofs.Elements
import ProtoSchema.Proofs.Policies

/-!
# Documents without null

A policy that allows null and the one that does not, and is the same otherwise, write documents that
differ in nulls alone. To say so nulls are erased: every union, at any depth, loses its members that
are the bare null type, and a union that is left with one bare type is written as that type. The
second step is taken whether there was a null or not, since a union of one type also is what is
written for a 64-bit integer that may not be a string.

Erasing is a function of the schema alone (`Schema.eraseNull`). The comparison goes from the inside
to the outside:

* it makes no difference to a leaf whether its null was dropped before
  (`Schema.IsLeaf.eraseNull_dropNull`), and the nodes of a plain field under both policies are
  leaves with the same types but for null (`Field.eraseNull_element`);
* the nodes around them, of arrays, of embedded messages and of documents, are nullable or not in
  one and the same way (`Schema.eraseNull_typed`);
* so the two policies write related nodes at each step (`Policy.writes_withoutNull`), and what holds
  of each step holds of whole sessions, by the general lemmas about two policies.
-/

namespace ProtoSchema

/-! ## Erasing

The null type is looked for as a bare member, since this is the only form in which a union has it.
-/

/-- The type of a node that says nothing else. -/
def Schema.bareType? : Schema → Option JsonType
  | ⟨false, none, [], none, [], some ty, [], none⟩ => some ty
  | _ => none

/-- A union of one bare type as that type. -/
def Schema.collapse (s : Schema) : Schema :=
  match s.oneOf with
  | [m] =>
    match m.bareType? with
    | some ty => { s with type := some ty, oneOf := [] }
    | none => s
  | _ => s

mutual

/-- The node without null in any union. -/
def Schema.eraseNull : Schema → Schema
  | ⟨isRoot, items, properties, additionalProperties, literals, type, oneOf, format⟩ =>
    Schema.collapse
      ⟨isRoot, eraseItems items, eraseProperties properties, additionalProperties, literals, type,
        eraseMembers oneOf, format⟩

/-- The node of the items without null in any union. -/
def eraseItems : Option Schema → Option Schema
  | none => none
  | some s => some s.eraseNull

/-- The properties without null in any union. -/
def eraseProperties : List (String × Schema) → List (String × Schema)
  | [] => []
  | (name, s) :: rest => (name, s.eraseNull) :: eraseProperties rest

/-- The members of a union but for null, each without null in any union. -/
def eraseMembers : List Schema → List Schema
  | [] => []
  | m :: rest =>
    if m.bareType? = some .null then eraseMembers rest else m.eraseNull :: eraseMembers rest

end

namespace Schema

@[simp] theorem bareType?_ofType (ty : JsonType) : (ofType ty).bareType? = some ty := rfl

/-- Null that stands by itself is no member of a union, and stays. -/
@[simp] theorem eraseNull_ofType (ty : JsonType) : (ofType ty).eraseNull = ofType ty := rfl

/-- Null goes from each keyword by itself, and then the union is collapsed. -/
theorem eraseNull_eq (s : Schema) :
    s.eraseNull = collapse { s with
      items := eraseItems s.items
      properties := eraseProperties s.properties
      oneOf := eraseMembers s.oneOf } := by
  cases s
  rfl

/-- A union of bare types loses null. -/
theorem eraseMembers_map_ofType (tys : List JsonType) :
    eraseMembers (tys.map ofType) = (tys.filter (· ≠ .null)).map ofType := by
  induction tys with
  | nil => rfl
  | cons ty tys ih =>
    rw [List.map_cons, eraseMembers, bareType?_ofType, ih]
    by_cases hty : ty = .null
    · simp [hty]
    · simp [hty]

/-- The marker and the format have no part in collapsing. -/
theorem collapse_with (s : Schema) (isRoot : Bool) (format : Option String) :
    collapse { s with isRoot := isRoot, format := format } =
      { collapse s with isRoot := isRoot, format := format } := by
  obtain ⟨_, items, properties, additionalProperties, literals, type, oneOf, _⟩ := s
  rcases oneOf with _ | ⟨m, _ | ⟨m', rest⟩⟩
  · rfl
  · simp only [collapse]
    cases m.bareType? <;> rfl
  · rfl

theorem eraseNull_with (s : Schema) (isRoot : Bool) (format : Option String) :
    ({ s with isRoot := isRoot, format := format } : Schema).eraseNull =
      { s.eraseNull with isRoot := isRoot, format := format } := by
  rw [s.eraseNull_eq, ← collapse_with]
  exact eraseNull_eq _

theorem format_collapse (s : Schema) : s.collapse.format = s.format := by
  rw [collapse]
  split
  · split <;> rfl
  · rfl

theorem format_eraseNull (s : Schema) : s.eraseNull.format = s.format := by
  rw [eraseNull_eq, format_collapse]

/-- Erasing leaves the marker of a document where it is. -/
theorem eraseNull_asDocument (s : Schema) :
    s.asDocument.eraseNull = s.eraseNull.asDocument := by
  refine (s.eraseNull_with true s.format).trans ?_
  rw [← s.format_eraseNull]
  rfl

end Schema

/-- Two tables of the same names, whose nodes agree but for null, agree but for null. -/
theorem eraseProperties_eq_of_aligned {as bs : List (String × Schema)}
    (h : Aligned (fun s t => s.eraseNull = t.eraseNull) as bs) :
    eraseProperties as = eraseProperties bs := by
  induction h with
  | nil => rfl
  | @cons a b as bs hab _ ih =>
    obtain ⟨n, s⟩ := a
    obtain ⟨n', t⟩ := b
    obtain ⟨hname, hst⟩ := hab
    simp only at hname hst
    rw [eraseProperties, eraseProperties, hname, hst, ih]

/-! ## Leaves

Null can also be dropped while a node is written, from the items of an array. It is the same kind of
step, taken earlier, and so erasing comes to the same with it or without.
-/

namespace Schema

/-- A leaf loses the null of its union. -/
theorem IsLeaf.eraseNull_eq {s : Schema} (h : s.IsLeaf) (tys : List JsonType)
    (hone : s.oneOf = tys.map ofType) :
    s.eraseNull = collapse { s with oneOf := (tys.filter (· ≠ .null)).map ofType } := by
  rw [Schema.eraseNull_eq, h.items, h.properties, hone, eraseMembers_map_ofType]
  conv_rhs => rw [h.eq]
  rw [h.isRoot, h.additionalProperties]
  rfl

/-- Erasing null after it was dropped from a leaf is erasing it at once. -/
theorem IsLeaf.eraseNull_dropNull {s : Schema} (h : s.IsLeaf) :
    s.dropNull.eraseNull = s.eraseNull := by
  obtain ⟨tys, hone⟩ := h.exists_types
  have hfilter : (s.oneOf.filter fun m => !m.isType .null) =
      (tys.filter (· ≠ .null)).map ofType := by
    rw [hone]
    exact filter_isType_null tys
  have hleaf : ∀ (ty : Option JsonType) (tys : List JsonType),
      ({ s with type := ty, oneOf := tys.map ofType } : Schema).IsLeaf :=
    fun _ tys =>
      ⟨h.isRoot, h.items, h.properties, h.additionalProperties, (isLeaf_union tys []).bare⟩
  rw [dropNull, hfilter, h.eraseNull_eq tys hone]
  split
  · -- what is left has no null any more
    have hleft : (tys.filter (· ≠ .null)).filter (· ≠ .null) = tys.filter (· ≠ .null) := by
      rw [List.filter_filter]
      simp only [Bool.and_self]
    generalize tys.filter (· ≠ .null) = left at hleft
    rcases left with _ | ⟨ty, _ | ⟨ty', rest⟩⟩
    · exact (hleaf s.type []).eraseNull_eq [] rfl
    · exact (hleaf (some ty) []).eraseNull_eq [] rfl
    · have hmany := (hleaf s.type (ty :: ty' :: rest)).eraseNull_eq _ rfl
      rwa [hleft] at hmany
  · exact h.eraseNull_eq tys hone

end Schema

/-! ## Erasing what is written

The keywords of a node that is nullable or not are written out in full here, as one lemma then
serves scalars, arrays and objects.
-/

/-- A node of one type, nullable or not, loses null and keeps the rest. -/
theorem Schema.eraseNull_typed (nullable : Bool) {ty : JsonType} (hty : ty ≠ .null)
    (items : Option Schema) (properties : List (String × Schema))
    (additionalProperties : Option Bool) (format : Option String) :
    ({ items := items
       properties := properties
       additionalProperties := additionalProperties
       type := if nullable then none else some ty
       oneOf := if nullable then [.ofType .null, .ofType ty] else []
       format := format } : Schema).eraseNull =
      { items := eraseItems items
        properties := eraseProperties properties
        additionalProperties := additionalProperties
        type := some ty
        format := format } := by
  have hmembers : eraseMembers [.ofType .null, .ofType ty] = [.ofType ty] := by
    have h := eraseMembers_map_ofType [.null, ty]
    simpa [hty] using h
  rw [eraseNull_eq]
  cases nullable with
  | false => rfl
  | true =>
    simp only [if_true, hmembers]
    rfl

theorem Policy.eraseNull_scalar (p : Policy) {ty : JsonType} (hty : ty ≠ .null) :
    (p.scalar ty).eraseNull = .ofType ty := by
  rw [scalar_eq]
  exact Schema.eraseNull_typed p.nullable hty none [] none none

/-- An object without null is an object of that type, with the nodes below it without null. -/
theorem Policy.eraseNull_messageSchema (p : Policy) (properties : List (String × Schema)) :
    (p.messageSchema properties).eraseNull =
      { properties := eraseProperties properties
        additionalProperties := some p.additionalProperties
        type := some .object } := by
  rw [messageSchema, scalar_eq]
  exact Schema.eraseNull_typed p.nullable (by decide) none properties _ none

/-- The node around an embedded message is an array or an object of that type, without null all the
way down. -/
theorem Field.eraseNull_ofMessage (f : Field) (p : Policy) (message : Schema) :
    (f.ofMessage p message).eraseNull =
      { items := if f.label = .repeated then some message.eraseNull else none
        properties := if f.label = .repeated then [] else eraseProperties message.properties
        additionalProperties := f.openness p
        type := some (if f.label = .repeated then .array else .object) } := by
  rw [ofMessage, Policy.scalar_eq]
  by_cases hlabel : f.label = .repeated
  · simp only [hlabel, if_true]
    exact Schema.eraseNull_typed p.nullable (by decide) (some message) [] _ none
  · simp only [hlabel, if_false]
    exact Schema.eraseNull_typed p.nullable (by decide) none message.properties _ none

/-- The array of a plain element without null follows from the element without null. -/
theorem Policy.eraseNull_arrayOf (p : Policy) {a : Schema} (ha : a.IsLeaf) :
    (p.arrayOf a).eraseNull =
      { items := some { a.eraseNull with isRoot := false, format := none }
        type := some .array
        format := a.eraseNull.format } := by
  have hleaf : ({ type := a.type, oneOf := a.oneOf, literals := a.literals } : Schema).IsLeaf :=
    ⟨rfl, rfl, rfl, rfl, ha.bare⟩
  have hitems : ({ type := a.type, oneOf := a.oneOf, literals := a.literals } : Schema) =
      { a with isRoot := false, format := none } := by
    conv_rhs => rw [ha.eq]
  rw [arrayOf, scalar_eq]
  refine (Schema.eraseNull_typed p.nullable (by decide) _ [] none a.format).trans ?_
  rw [eraseItems, hleaf.eraseNull_dropNull, hitems, Schema.eraseNull_with, Schema.format_eraseNull]
  rfl

/-! ## The policy without null

Unions are needed for null and not the other way about, so that null can be taken from every policy.
-/

/-- The same policy, but nothing may be null. -/
def Policy.withoutNull (p : Policy) : Policy :=
  { p with nullable := false, oneOf_of_nullable := fun h => absurd h Bool.false_ne_true }

theorem Schema.eraseNull_union {tys tys' : List JsonType}
    (h : tys.filter (· ≠ .null) = tys'.filter (· ≠ .null)) (literals : List Literal) :
    ({ oneOf := tys.map ofType, literals := literals } : Schema).eraseNull =
      ({ oneOf := tys'.map ofType, literals := literals } : Schema).eraseNull := by
  rw [(isLeaf_union tys literals).eraseNull_eq tys rfl,
    (isLeaf_union tys' literals).eraseNull_eq tys' rfl, h]

/-- A 64-bit integer has the same types under both policies but for null. -/
theorem Policy.eraseNull_bigInteger (p : Policy) :
    p.bigInteger.eraseNull = p.withoutNull.bigInteger.eraseNull := by
  have htypes : p.bigIntegerTypes.filter (· ≠ .null) =
      p.withoutNull.bigIntegerTypes.filter (· ≠ .null) := by
    rw [bigIntegerTypes, bigIntegerTypes]
    by_cases hb : p.bigintsAsStrings = true <;> by_cases hn : p.nullable = true <;>
      simp [withoutNull, hb, hn]
  have hone : p.withoutNull.oneOf = p.oneOf := rfl
  rw [bigInteger_eq, bigInteger_eq, hone]
  split
  · exact Schema.eraseNull_union htypes []
  · rfl

/-- So has an enum, and the values that it lists are the same. -/
theorem Policy.eraseNull_enumField (p : Policy) (found : Option EnumType) :
    (p.enumField found).eraseNull = (p.withoutNull.enumField found).eraseNull := by
  have htypes : (enumTypes p.nullable).filter (· ≠ .null) =
      (enumTypes p.withoutNull.nullable).filter (· ≠ .null) := by
    by_cases hn : p.nullable = true <;> simp [enumTypes, withoutNull, hn]
  have hone : p.withoutNull.enumOneOf = p.enumOneOf := rfl
  have hlisted : p.withoutNull.listed found = p.listed found := rfl
  rw [enumField_eq, enumField_eq, hone, hlisted]
  split
  · exact Schema.eraseNull_union htypes _
  · rfl

/-- One value of a plain field is the same under both policies but for null. -/
theorem Field.eraseNull_element {f : Field} {p : Policy} {scope : List EnumType}
    {kind : FieldKind} {a b : Schema} (ha : f.element? p scope kind = some a)
    (hb : f.element? p.withoutNull scope kind = some b) : a.eraseNull = b.eraseNull := by
  have hscalar : ∀ ty, ty ≠ .null →
      (p.scalar ty).eraseNull = (p.withoutNull.scalar ty).eraseNull := fun ty hty =>
    (p.eraseNull_scalar hty).trans (p.withoutNull.eraseNull_scalar hty).symm
  cases kind with
  | int64 =>
    rw [← Option.some.inj ha, ← Option.some.inj hb]
    exact p.eraseNull_bigInteger
  | enumeration =>
    rw [← Option.some.inj ha, ← Option.some.inj hb]
    exact p.eraseNull_enumField _
  | message =>
    -- a fixed form does not depend on the policy
    obtain rfl : a = b := Option.some.inj (ha.symm.trans hb)
    rfl
  | _ =>
    rw [← Option.some.inj ha, ← Option.some.inj hb]
    exact hscalar _ (by decide)

/-- **Two policies that differ in null alone** write nodes that differ in null alone. A plain field
is compared by its types; the other nodes are nullable in one form, so that erasing leaves the same
keywords around what is below them. -/
theorem Policy.writes_withoutNull (p : Policy) :
    Policy.Writes (fun s t => s.eraseNull = t.eraseNull) p p.withoutNull where
  element f scope kind a b ha hb := by
    have hab := Field.eraseNull_element ha hb
    rw [Field.ofElement_eq, Field.ofElement_eq]
    split
    · rw [p.eraseNull_arrayOf (Field.isLeaf_element ha),
        p.withoutNull.eraseNull_arrayOf (Field.isLeaf_element hb), hab]
    · exact hab
  embedded f as bs h := by
    have hopenness : f.openness p.withoutNull = f.openness p := rfl
    have hmore : p.withoutNull.additionalProperties = p.additionalProperties := rfl
    rw [Field.eraseNull_ofMessage, Field.eraseNull_ofMessage, eraseNull_messageSchema,
      eraseNull_messageSchema, hopenness, hmore]
    simp only [messageSchema, eraseProperties_eq_of_aligned h]
  message as bs h := by
    have hmore : p.withoutNull.additionalProperties = p.additionalProperties := rfl
    rw [Schema.eraseNull_asDocument, Schema.eraseNull_asDocument, eraseNull_messageSchema,
      eraseNull_messageSchema, hmore, eraseProperties_eq_of_aligned h]
  enumeration _ := rfl

/-- The switch for null resolves to a policy from which the other policy is made by taking null
away. -/
theorem Options.resolve_withoutNull {o : Options} (h : o.disallowOneOf = false) :
    ∃ p : Policy, ({ o with allowNullValues := true } : Options).resolve = .ok p ∧
      ({ o with allowNullValues := false } : Options).resolve = .ok p.withoutNull := by
  refine ⟨_, dif_neg (by simp [h]), ?_⟩
  exact dif_neg (by simp)

/-- **What null changes**: which sessions fail, and how, does not depend on the policy, and where
unions are allowed the documents with null and those without have the same names in the same order
and are equal when nulls are erased. -/
theorem Session.generate_policies (forest : List File) (targets : List String) :
    (∀ (p q : Policy) (e : SessionError),
      ((⟨forest, p⟩ : Session).generate targets).result = .error e ↔
        ((⟨forest, q⟩ : Session).generate targets).result = .error e) ∧
    ∀ o : Options, o.disallowOneOf = false → ∃ p q : Policy,
      ({ o with allowNullValues := true } : Options).resolve = .ok p ∧
      ({ o with allowNullValues := false } : Options).resolve = .ok q ∧
      Agree (List.Forall₂ (Document.Matches fun s t => s.eraseNull = t.eraseNull))
        ((⟨forest, p⟩ : Session).generate targets).result
        ((⟨forest, q⟩ : Session).generate targets).result := by
  refine ⟨fun p q e => ?_, fun o ho => ?_⟩
  · have hany : Policy.Writes (fun _ _ => True) p q :=
      ⟨fun _ _ _ _ _ _ _ => trivial, fun _ _ _ _ => trivial, fun _ _ _ => trivial,
        fun _ => trivial⟩
    exact (agree_generate hany forest targets).error_iff e
  · obtain ⟨p, hp, hq⟩ := Options.resolve_withoutNull ho
    exact ⟨p, p.withoutNull, hp, hq, agree_generate p.writes_withoutNull forest targets⟩

/-- A file with a lamp of some power. -/
def lampFile : File :=
  { name := "lamp.proto"
    messages := [{ name := "Lamp", fields := [{ name := "power", typeNumber := 5 }] }] }

/-- The documents of a lamp with null and without it agree but for null. -/
theorem generate_policies_lamp : ({} : Options).disallowOneOf = false ∧ ∃ p q : Policy,
    ({ allowNullValues := true } : Options).resolve = .ok p ∧ ({} : Options).resolve = .ok q ∧
    Agree (List.Forall₂ (Document.Matches fun s t => s.eraseNull = t.eraseNull))
      ((⟨[lampFile], p⟩ : Session).generate ["lamp.proto"]).result
      ((⟨[lampFile], q⟩ : Session).generate ["lamp.proto"]).result :=
  ⟨rfl, (Session.generate_policies [lampFile] ["lamp.proto"]).2 {} rfl⟩

end ProtoSchema
