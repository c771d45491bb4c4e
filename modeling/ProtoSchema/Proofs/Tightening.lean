import ProtoSchema.Proofs.Alternatives
import ProtoSchema.Proofs.Policies

/-!
# Stricter policies

Of two policies that treat null alike one is stricter when it allows nothing that the other does not
(`Policy.Stricter`). Each switch that disallows something makes a policy stricter, as long as the
options still resolve (`Options.stricter_turnOn`), and a stricter policy writes documents that
accept no value more (`Session.generate_turnOn`).

The nodes of the two policies are compared in two ways. Nodes of arrays and objects have the same
type or union under both, and differ in what is inside them and in whether other members are
allowed; there the keywords are compared one by one (`Schema.contains_of_parts`). The nodes of plain
values differ in their types and in what they list, and are compared by these
(`Schema.Covers.contains`), which needs that the types of a union are apart.

A list of values needs care. A node that lists something accepts less than one that lists nothing,
so that a stricter policy must not drop a list: it lists fewer values and never none where there
were some (`EnumType.literals_ne_nil`).
-/

namespace ProtoSchema

/-! ## Accepting no more

Of two nodes with the same union nothing has to be known of its members, since a value passes both
unions or neither.
-/

/-- Two tables with the same names have related entries, or none, under each name. -/
theorem Aligned.lookup {α β : Type} {R : α → β → Prop} {as : List (String × α)}
    {bs : List (String × β)} (h : Aligned R as bs) (name : String) :
    Option.Rel R (as.lookup name) (bs.lookup name) := by
  induction h with
  | nil => exact .none
  | @cons a b as bs hab _ ih =>
    obtain ⟨n, s⟩ := a
    obtain ⟨n', t⟩ := b
    obtain ⟨hn, hst⟩ := hab
    obtain rfl : n = n' := hn
    rw [lookup_cons, lookup_cons]
    by_cases hname : name = n
    · rw [if_pos hname, if_pos hname]
      exact .some hst
    · rw [if_neg hname, if_neg hname]
      exact ih

namespace Schema

/-- The first node accepts whatever the second accepts. -/
def Contains (s t : Schema) : Prop := ∀ v, t.accepts v = true → s.accepts v = true

/-- Members that are allowed stay so when properties accept more and other members are allowed in
more cases. -/
theorem membersAllowed_of_aligned {as bs : List (String × Schema)} (h : Aligned Contains as bs)
    {more more' : Bool} (hmore : more' = true → more = true) {ms : List (String × Value)}
    (hms : MembersAllowed bs more' ms) : MembersAllowed as more ms := by
  intro m hm
  have hallowed := hms m hm
  have hrel := h.lookup m.1
  rw [MemberAllowed] at hallowed ⊢
  revert hrel hallowed
  generalize as.lookup m.1 = a
  generalize bs.lookup m.1 = b
  intro hallowed hrel
  cases hrel with
  | none => exact hmore hallowed
  | some hst => exact hst m.2 hallowed

/-- A node accepts no more than one with the same type, union and values, when its parts accept no
more and it allows no more members. -/
theorem contains_of_parts {s t : Schema} (htype : s.type = t.type)
    (hliterals : s.literals = t.literals) (hone : s.oneOf = t.oneOf)
    (hitems : ∀ i, s.items = some i → ∃ j, t.items = some j ∧ i.Contains j)
    (hproperties : Aligned Contains s.properties t.properties)
    (hmore : s.additionalProperties = some false → t.additionalProperties = some false) :
    s.Contains t := by
  intro v hv
  rw [accepts_iff] at hv ⊢
  obtain ⟨hty, hlit, hunion, hits, hmembers⟩ := hv
  rw [htype, hliterals, hone]
  refine ⟨hty, hlit, hunion, ?_, ?_⟩
  · intro i hi w hw
    obtain ⟨j, hj, hij⟩ := hitems i hi
    exact hij w (hits j hj w hw)
  · refine membersAllowed_of_aligned hproperties ?_ hmembers
    simpa using mt hmore

/-- The first node lets the types of the second through, and lists the values of the second where
it lists any. -/
structure Covers (s t : Schema) : Prop where
  /-- its types are among them -/
  types : t.types ⊆ s.types
  /-- its values are among them -/
  literals : t.literals ⊆ s.literals
  /-- it does not list nothing where values are listed -/
  listed : s.literals ≠ [] → t.literals ≠ []

theorem Covers.refl (s : Schema) : s.Covers s := ⟨fun _ h => h, fun _ h => h, fun h => h⟩

/-- **A plain node** accepts what a node accepts whose types and values it covers. The value is of
one type of the stricter node, and that is a type of the other; as the types of a union are apart,
no second one holds. -/
theorem Covers.contains {s t : Schema} (h : s.Covers t) (hs : s.IsPlain) (ht : t.IsPlain) :
    s.Contains t := by
  intro v hv
  rw [hs.accepts_iff]
  obtain ⟨⟨ty, hty, hadmits⟩, hlisted⟩ := ht.accepts_iff v |>.mp hv
  refine ⟨⟨ty, h.types hty, hadmits⟩, ?_⟩
  intro hne
  obtain ⟨l, hl, hequals⟩ := hlisted (h.listed hne)
  exact ⟨l, h.literals hl, hequals⟩

/-- When null is dropped from both, the one covers the other still. -/
theorem Covers.dropNull {s t : Schema} (h : s.Covers t) (hs : s.IsPlain) (ht : t.IsPlain) :
    s.dropNull.Covers t.dropNull := by
  refine ⟨?_, ?_, ?_⟩
  · rw [hs.types_dropNull, ht.types_dropNull]
    exact List.filter_subset _ h.types
  · rw [literals_dropNull, literals_dropNull]
    exact h.literals
  · rw [literals_dropNull, literals_dropNull]
    exact h.listed

end Schema

/-! ## Stricter policies

The fields of the structure are the switches, each in the direction that disallows.
-/

/-- The first policy allows nothing that the second does not, and both treat null alike. -/
structure Policy.Stricter (q p : Policy) : Prop where
  /-- null is allowed by both or by none -/
  nullable : q.nullable = p.nullable
  /-- unions are allowed by both, if by the first -/
  oneOf : q.oneOf = true → p.oneOf = true
  /-- numbers of enum values are allowed by both, if by the first -/
  enumNumbers : q.enumNumbers = true → p.enumNumbers = true
  /-- 64-bit integers may be strings for both, if for the first -/
  bigintsAsStrings : q.bigintsAsStrings = true → p.bigintsAsStrings = true
  /-- other members are allowed by both, if by the first -/
  additionalProperties : q.additionalProperties = true → p.additionalProperties = true

/-- What the policy of options that resolve allows. -/
theorem Options.allows_of_resolve {o : Options} {p : Policy} (h : o.resolve = .ok p) :
    p.oneOf = !o.disallowOneOf ∧ p.nullable = o.allowNullValues ∧
      p.enumNumbers = !o.disallowEnumOneOf ∧ p.bigintsAsStrings = !o.disallowBigintsAsStrings ∧
      p.additionalProperties = !o.disallowAdditionalProperties := by
  rw [resolve] at h
  split at h
  · cases h
  · obtain rfl := Except.ok.inj h
    exact ⟨rfl, rfl, rfl, rfl, rfl⟩

/-- The switches that disallow something. -/
def Switch.disallowing : List Switch :=
  [.disallowEnumOneOf, .disallowOneOf, .disallowAdditionalProperties, .disallowBigintsAsStrings]

/-- Disallowing one thing more makes the policy stricter. -/
theorem Options.stricter_turnOn {o : Options} {switch : Switch} (hs : switch ∈ Switch.disallowing)
    {p q : Policy} (hp : o.resolve = .ok p) (hq : (o.turnOn switch).resolve = .ok q) :
    q.Stricter p := by
  obtain ⟨hp1, hp2, hp3, hp4, hp5⟩ := allows_of_resolve hp
  obtain ⟨hq1, hq2, hq3, hq4, hq5⟩ := allows_of_resolve hq
  refine ⟨?_, ?_, ?_, ?_, ?_⟩
  · rw [hp2, hq2]
    cases switch <;> first | rfl | exact absurd hs (by decide)
  · rw [hp1, hq1]
    cases switch <;> simp [turnOn]
  · rw [hp3, hq3]
    cases switch <;> simp [turnOn]
  · rw [hp4, hq4]
    cases switch <;> simp [turnOn]
  · rw [hp5, hq5]
    cases switch <;> simp [turnOn]

/-- An enum lists no more without numbers than with them. -/
theorem EnumType.literals_subset (e : EnumType) {withNumbers withNumbers' : Bool}
    (h : withNumbers' = true → withNumbers = true) :
    e.literals withNumbers' ⊆ e.literals withNumbers := by
  intro l hl
  rw [mem_literals_iff] at hl ⊢
  obtain ⟨x, hx, hname | ⟨hnumbers, hnumber⟩⟩ := hl
  · exact ⟨x, hx, Or.inl hname⟩
  · exact ⟨x, hx, Or.inr ⟨h hnumbers, hnumber⟩⟩

/-- An enum lists nothing only when it has no values, whether with numbers or without. -/
theorem EnumType.literals_ne_nil {e : EnumType} {withNumbers : Bool} (withNumbers' : Bool)
    (h : e.literals withNumbers ≠ []) : e.literals withNumbers' ≠ [] := by
  rw [Ne, literals_eq_nil_iff] at h ⊢
  exact h

namespace Policy.Stricter

variable {p q : Policy}

theorem enumOneOf (h : q.Stricter p) (hq : q.enumOneOf = true) : p.enumOneOf = true := by
  rw [Policy.enumOneOf, Bool.and_eq_true] at hq ⊢
  exact ⟨h.enumNumbers hq.1, h.oneOf hq.2⟩

theorem scalar_eq (h : q.Stricter p) (ty : JsonType) : q.scalar ty = p.scalar ty := by
  rw [scalar, scalar, h.nullable]

/-! ### Plain nodes -/

/-- A 64-bit integer loses the string at most. -/
theorem covers_bigInteger (h : q.Stricter p) : p.bigInteger.Covers q.bigInteger := by
  have hnil : ∀ r : Policy, r.bigInteger.literals = [] := by
    intro r
    rw [bigInteger_eq]
    split <;> rfl
  -- of the types of a union only the string depends on a switch
  have htypes : q.bigIntegerTypes ⊆ p.bigIntegerTypes := by
    intro ty hty
    rw [bigIntegerTypes, List.mem_cons, List.mem_append] at hty ⊢
    rw [h.nullable] at hty
    rcases hty with hinteger | hstring | hnull
    · exact Or.inl hinteger
    · by_cases hq : q.bigintsAsStrings = true
      · rw [if_pos hq] at hstring
        rw [if_pos (h.bigintsAsStrings hq)]
        exact Or.inr (Or.inl hstring)
      · rw [if_neg hq] at hstring
        cases hstring
    · exact Or.inr (Or.inr hnull)
  refine ⟨?_, ?_, ?_⟩
  · rw [types_bigInteger, types_bigInteger]
    by_cases hq : q.oneOf = true
    · rw [if_pos hq, if_pos (h.oneOf hq)]
      exact htypes
    · rw [if_neg hq]
      intro ty hty
      -- without unions integers are left, which the other policy has in any case
      rw [List.mem_singleton] at hty
      subst hty
      split <;> exact List.mem_cons_self
  · rw [hnil, hnil]
    exact List.Subset.refl _
  · intro hne
    exact absurd (hnil p) hne

/-- The types of an enum under the stricter policy are among those under the other. -/
theorem enumTypes_subset (h : q.Stricter p) (withNull : Bool) :
    (if q.enumOneOf then enumTypes withNull else [.string]) ⊆
      if p.enumOneOf then enumTypes withNull else [.string] := by
  by_cases hq : q.enumOneOf = true
  · rw [if_pos hq, if_pos (h.enumOneOf hq)]
    exact List.Subset.refl _
  · rw [if_neg hq]
    intro ty hty
    rw [List.mem_singleton] at hty
    subst hty
    split <;> exact List.mem_cons_self

/-- An enum field loses the numbers at most, in its types and in its list. -/
theorem covers_enumField (h : q.Stricter p) (found : Option EnumType) :
    (p.enumField found).Covers (q.enumField found) := by
  refine ⟨?_, ?_, ?_⟩
  · rw [types_enumField, types_enumField, h.nullable]
    exact h.enumTypes_subset p.nullable
  · rw [literals_enumField, literals_enumField]
    cases found with
    | none => exact List.Subset.refl _
    | some e => exact e.literals_subset h.enumNumbers
  · rw [literals_enumField, literals_enumField]
    cases found with
    | none => exact fun hne => hne
    | some e => exact EnumType.literals_ne_nil _

theorem covers_enumSchema (h : q.Stricter p) (e : EnumType) :
    (p.enumSchema e).Covers (q.enumSchema e) := by
  refine ⟨?_, e.literals_subset h.enumOneOf, EnumType.literals_ne_nil _⟩
  rw [types_enumSchema, types_enumSchema]
  exact h.enumTypes_subset false

/-- One value of a plain field has fewer types under the stricter policy, and lists fewer values. -/
theorem covers_element (h : q.Stricter p) {f : Field} {scope : List EnumType} {kind : FieldKind}
    {a b : Schema} (ha : f.element? p scope kind = some a)
    (hb : f.element? q scope kind = some b) : a.Covers b := by
  have hscalar : ∀ ty, (p.scalar ty).Covers (q.scalar ty) := by
    intro ty
    rw [h.scalar_eq]
    exact Schema.Covers.refl _
  cases kind with
  | int64 =>
    rw [← Option.some.inj ha, ← Option.some.inj hb]
    exact h.covers_bigInteger
  | enumeration =>
    rw [← Option.some.inj ha, ← Option.some.inj hb]
    exact h.covers_enumField _
  | message =>
    -- a fixed form does not depend on the policy
    obtain rfl : a = b := Option.some.inj (ha.symm.trans hb)
    exact Schema.Covers.refl a
  | _ =>
    rw [← Option.some.inj ha, ← Option.some.inj hb]
    exact hscalar _

/-! ### Arrays and objects -/

/-- An array accepts no more under the stricter policy, since its items do not. -/
theorem contains_arrayOf (h : q.Stricter p) {a b : Schema} (hab : a.Covers b) (ha : a.IsPlain)
    (hb : b.IsPlain) : (p.arrayOf a).Contains (q.arrayOf b) := by
  have hbare : a.bareElement.Covers b.bareElement := ⟨hab.types, hab.literals, hab.listed⟩
  have hitems : a.bareElement.dropNull.Contains b.bareElement.dropNull :=
    (hbare.dropNull ha.bareElement hb.bareElement).contains ha.bareElement.dropNull
      hb.bareElement.dropNull
  rw [arrayOf_eq, arrayOf_eq, h.scalar_eq]
  refine Schema.contains_of_parts rfl rfl rfl ?_ ?_ ?_
  · intro i hi
    obtain rfl := Option.some.inj hi
    exact ⟨_, rfl, hitems⟩
  · simp only [(p.isLeaf_scalar .array).properties]
    exact .nil
  · intro hp
    exact hp

theorem openness (h : q.Stricter p) {f : Field} (hp : f.openness p = some false) :
    f.openness q = some false := by
  rw [Field.openness] at hp ⊢
  by_cases hq : q.additionalProperties = true
  · rw [if_pos hq]
    rwa [if_pos (h.additionalProperties hq)] at hp
  · rw [if_neg hq]

/-- A message accepts no more under the stricter policy when its properties do not. -/
theorem contains_messageSchema (h : q.Stricter p) {as bs : List (String × Schema)}
    (hab : Aligned Schema.Contains as bs) :
    (p.messageSchema as).Contains (q.messageSchema bs) := by
  rw [messageSchema, messageSchema, h.scalar_eq]
  refine Schema.contains_of_parts rfl rfl rfl ?_ ?_ ?_
  · intro i hi
    simp only [(p.isLeaf_scalar .object).items] at hi
    cases hi
  · exact hab
  · intro hp
    have hfalse : p.additionalProperties = false := Option.some.inj hp
    cases hq : q.additionalProperties with
    | false => rfl
    | true =>
      rw [h.additionalProperties hq] at hfalse
      cases hfalse

/-- The node around a message accepts no more, whether it is an array or has the properties
itself. -/
theorem contains_ofMessage (h : q.Stricter p) (f : Field) {as bs : List (String × Schema)}
    (hab : Aligned Schema.Contains as bs) :
    (f.ofMessage p (p.messageSchema as)).Contains (f.ofMessage q (q.messageSchema bs)) := by
  rw [Field.ofMessage, Field.ofMessage, h.scalar_eq]
  refine Schema.contains_of_parts rfl rfl rfl ?_ ?_ ?_
  · intro i hi
    by_cases hlabel : f.label = .repeated
    · simp only [hlabel, if_true] at hi ⊢
      obtain rfl := Option.some.inj hi
      exact ⟨_, rfl, h.contains_messageSchema hab⟩
    · simp only [hlabel, if_false] at hi
      cases hi
  · by_cases hlabel : f.label = .repeated
    · simp only [hlabel, if_true]
      exact .nil
    · simp only [hlabel, if_false]
      exact hab
  · exact h.openness

/-- **A stricter policy** writes nodes that accept no more. Plain nodes are compared by their types
and lists, and the others keyword by keyword. -/
theorem writes (h : q.Stricter p) : Policy.Writes Schema.Contains p q where
  element f scope kind a b ha hb := by
    have hab := h.covers_element ha hb
    have hpa := Field.isPlain_element ha
    have hpb := Field.isPlain_element hb
    rw [Field.ofElement_eq, Field.ofElement_eq]
    split
    · exact h.contains_arrayOf hab hpa hpb
    · exact hab.contains hpa hpb
  embedded f as bs hab := h.contains_ofMessage f hab
  message as bs hab := h.contains_messageSchema hab
  enumeration e := (h.covers_enumSchema e).contains (p.isPlain_enumSchema e)
    (q.isPlain_enumSchema e)

end Policy.Stricter

/-- **Disallowing tightens**: with one of the disallowing switches on as well, a session fails as it
does without it, or it comes to documents of the same names in the same order, none of which accepts
a value that the document without the switch rejects. -/
theorem Session.generate_turnOn (forest : List File) (targets : List String) {o : Options}
    {switch : Switch} (hs : switch ∈ Switch.disallowing) {p q : Policy} (hp : o.resolve = .ok p)
    (hq : (o.turnOn switch).resolve = .ok q) :
    Agree (List.Forall₂ (Document.Matches fun lax strict =>
        ∀ v, strict.accepts v = true → lax.accepts v = true))
      ((⟨forest, p⟩ : Session).generate targets).result
      ((⟨forest, q⟩ : Session).generate targets).result :=
  agree_generate (Options.stricter_turnOn hs hp hq).writes forest targets

/-- A file with colours, and nothing else. -/
def coloursFile : File :=
  { name := "colours.proto"
    enums :=
      [{ name := "Colour"
         values := [{ name := "RED", number := 0 }, { name := "GREEN", number := 1 }] }] }

/-- The colours accept the number of green, and accept it no more where enums are no unions;
whatever they accept then they accept now. -/
theorem generate_turnOn_colours : .disallowEnumOneOf ∈ Switch.disallowing ∧
    ∃ p q : Policy, ({ allowNullValues := true } : Options).resolve = .ok p ∧
      (({ allowNullValues := true } : Options).turnOn .disallowEnumOneOf).resolve = .ok q ∧
      ∃ lax strict, ((⟨[coloursFile], p⟩ : Session).generate ["colours.proto"]).result = .ok [lax] ∧
        ((⟨[coloursFile], q⟩ : Session).generate ["colours.proto"]).result = .ok [strict] ∧
        lax.schema.accepts (.integer 1) = true ∧ strict.schema.accepts (.integer 1) = false ∧
        Document.Matches (fun lax strict => ∀ v, strict.accepts v = true → lax.accepts v = true)
          lax strict := by
  have hs : Switch.disallowEnumOneOf ∈ Switch.disallowing := by decide
  refine ⟨hs, _, _, rfl, rfl, _, _, rfl, rfl, rfl, rfl, ?_⟩
  have hagree := Session.generate_turnOn [coloursFile] ["colours.proto"]
    (o := { allowNullValues := true }) hs rfl rfl
  cases hagree with
  | ok hdocuments => exact (List.forall₂_cons.mp hdocuments).1

end ProtoSchema
