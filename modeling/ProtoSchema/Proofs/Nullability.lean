import ProtoSchema.Proofs.Elements

/-!
# Null

Where null is allowed, a value that may be null is written as a union with null. That is enough for
every keyword but `enum`: a list of values has no null in it, so that a single enum value from a
list is never null, although its union says that it may be (`Conversion.takes_null_iff`). Messages
are always nullable, and so are arrays, whatever their elements are.

The union and the list are looked at apart. That a union of null and one other type takes null is
said once (`Schema.accepts_null_of_union`), and each function that writes such a union is a case of
it, with the properties or the items around which it stands. The other side is short: no literal is
equal to null, so that a node with a list rejects it. What is left is the table of kinds, for a
single value that embeds no message (`Field.element_accepts_null_iff`).
-/

namespace ProtoSchema

/-! ## Fields that may be null

The two conditions are on the descriptor and on the enums in scope, and do not look at the schema.
-/

/-- The field holds what is written as a union with null where null is allowed. -/
inductive Field.HasNullUnion (f : Field) (p : Policy) : Prop where
  /-- an array -/
  | array (h : f.label = .repeated)
  /-- a single value that is neither of an enum nor a message -/
  | scalar {kind : FieldKind} (hkind : f.kind = .ok kind) (henum : kind ≠ .enumeration)
    (hmessage : kind ≠ .message)
  /-- a single message, unless it has a fixed form in JSON -/
  | message (hf : f.HoldsMessage)
  /-- a single enum value, when enums are unions -/
  | enumeration (hkind : f.kind = .ok .enumeration) (hone : p.enumOneOf = true)

/-- The field holds a single enum value, and the values of the enum are listed. -/
def Field.IsListed (f : Field) (scope : List EnumType) : Prop :=
  f.label ≠ .repeated ∧ f.kind = .ok .enumeration ∧ enumValues (matchEnum scope f.typeName) ≠ []

/-! ## Null against a node

Of all keywords only three say anything about null, and exactly one member of a union may hold.
-/

theorem JsonType.admits_null (ty : JsonType) : ty.admits .null = decide (ty = .null) := by
  cases ty <;> rfl

/-- No literal is null. -/
theorem Literal.equals_null (l : Literal) : l.equals .null = false := by
  cases l <;> rfl

/-- Null passes a node when its type, its values and its union let it pass; the other keywords say
nothing about it. -/
theorem Schema.accepts_null_iff {s : Schema} :
    s.accepts .null = true ↔ (∀ ty, s.type = some ty → ty = .null) ∧ s.literals = [] ∧
      (s.oneOf ≠ [] → s.oneOf.countP (·.accepts .null) = 1) := by
  have hliterals : (s.literals ≠ [] → ∃ l ∈ s.literals, l.equals .null = true) ↔
      s.literals = [] := by
    simp [Literal.equals_null]
  rw [accepts_iff, hliterals]
  simp only [JsonType.admits_null, decide_eq_true_eq]
  refine ⟨fun ⟨hty, hlit, hone, _⟩ => ⟨hty, hlit, hone⟩, fun ⟨hty, hlit, hone⟩ => ?_⟩
  exact ⟨hty, hlit, hone, fun _ _ _ hw => absurd hw List.not_mem_nil,
    fun _ hm => absurd hm List.not_mem_nil⟩

/-- A union of null and another type takes null, whatever the node says about items and members. -/
theorem Schema.accepts_null_of_union {s : Schema} {ty : JsonType} (hty : ty ≠ .null)
    (htype : s.type = none) (hliterals : s.literals = [])
    (hone : s.oneOf = [.ofType .null, .ofType ty]) : s.accepts .null = true := by
  rw [accepts_null_iff, htype, hone]
  refine ⟨fun _ h => (by cases h), hliterals, fun _ => ?_⟩
  simp [JsonType.admits_null, hty]

section Nullable

variable {p : Policy} (hn : p.nullable = true)
include hn

theorem Policy.scalar_accepts_null {ty : JsonType} (hty : ty ≠ .null) :
    (p.scalar ty).accepts .null = true := by
  rw [scalar_eq_nullable hn]
  exact Schema.accepts_null_of_union hty rfl rfl rfl

theorem Policy.bigInteger_accepts_null : p.bigInteger.accepts .null = true := by
  have hne : p.bigIntegerTypes ≠ [] := List.cons_ne_nil _ _
  rw [bigInteger_eq, if_pos (p.oneOf_of_nullable hn), Schema.accepts_union_iff hne []]
  refine ⟨fun h => absurd rfl h, ?_⟩
  cases hb : p.bigintsAsStrings <;> simp [bigIntegerTypes, hb, hn, JsonType.admits_null]

/-- An enum field takes null when it is a union and lists nothing. -/
theorem Policy.enumField_accepts_null_iff (found : Option EnumType) :
    (p.enumField found).accepts .null = true ↔ p.enumOneOf = true ∧ enumValues found = [] := by
  have hnone : (p.listed found ≠ [] → ∃ l ∈ p.listed found, l.equals .null = true) ↔
      enumValues found = [] := by
    rw [← p.listed_eq_nil_iff found]
    simp [Literal.equals_null]
  have hne : enumTypes p.nullable ≠ [] := List.cons_ne_nil _ _
  have hcount : (enumTypes p.nullable).countP (·.admits .null) = 1 := by
    rw [hn]
    rfl
  rw [enumField_eq]
  by_cases hone : p.enumOneOf = true
  · rw [if_pos hone, Schema.accepts_union_iff hne, hnone]
    simp [hone, hcount]
  · rw [if_neg hone, Schema.accepts_typed_iff .string _ none]
    simp [hone, JsonType.admits_null]

/-! ## Null against a field

The label decides first: an array is nullable for itself, and only a single value is asked for its
kind.
-/

/-- An array takes null, whatever its items are. -/
theorem Policy.arrayOf_accepts_null (a : Schema) : (p.arrayOf a).accepts .null = true := by
  have hty : JsonType.array ≠ .null := by decide
  rw [arrayOf, scalar_eq_nullable hn]
  exact Schema.accepts_null_of_union hty rfl rfl rfl

/-- The node of a message field takes null, repeated or not. -/
theorem Field.ofMessage_accepts_null (f : Field) (message : Schema) :
    (f.ofMessage p message).accepts .null = true := by
  have hty : (if f.label = .repeated then JsonType.array else .object) ≠ .null := by
    split <;> decide
  rw [ofMessage, Policy.scalar_eq_nullable hn]
  exact Schema.accepts_null_of_union hty rfl rfl rfl

theorem Policy.messageSchema_accepts_null (properties : List (String × Schema)) :
    (p.messageSchema properties).accepts .null = true := by
  have hty : JsonType.object ≠ .null := by decide
  rw [messageSchema, scalar_eq_nullable hn]
  exact Schema.accepts_null_of_union hty rfl rfl rfl

/-- The node of a single plain value takes null when it is written as a union with null and no
values are listed. -/
theorem Field.element_accepts_null_iff {f : Field} {scope : List EnumType} {kind : FieldKind}
    {a : Schema} (hlabel : f.label ≠ .repeated) (hkind : f.kind = .ok kind)
    (ha : f.element? p scope kind = some a) :
    a.accepts .null = true ↔ f.HasNullUnion p ∧ ¬ f.IsListed scope := by
  have hlisted : f.IsListed scope ↔ kind = .enumeration ∧
      enumValues (matchEnum scope f.typeName) ≠ [] := by
    rw [IsListed, hkind]
    simp [hlabel]
  -- kinds but these two are written as unions with null, and list nothing
  have hscalar : kind ≠ .enumeration → kind ≠ .message → a.accepts .null = true →
      (a.accepts .null = true ↔ f.HasNullUnion p ∧ ¬ f.IsListed scope) := by
    intro henum hmessage hnull
    refine iff_of_true hnull ⟨.scalar hkind henum hmessage, fun h => ?_⟩
    exact henum (hlisted.mp h).1
  cases kind with
  | enumeration =>
    have hunion : f.HasNullUnion p ↔ p.enumOneOf = true := by
      refine ⟨fun h => ?_, .enumeration hkind⟩
      cases h with
      | array h => exact absurd h hlabel
      | scalar hkind' henum _ => exact absurd (Except.ok.inj (hkind'.symm.trans hkind)) henum
      | message hf => cases hf.1.symm.trans hkind
      | enumeration _ hone => exact hone
    rw [← Option.some.inj ha, Policy.enumField_accepts_null_iff hn, hunion, hlisted]
    simp
  | message =>
    -- a point in time has a fixed form, and that is a string
    obtain ⟨htime, rfl⟩ := wellKnown_eq_some_iff.mp ha
    refine iff_of_false (fun h => ?_) fun ⟨h, _⟩ => ?_
    · exact absurd ((Schema.accepts_null_iff.mp h).1 .string rfl) (by decide)
    · cases h with
      | array h => exact hlabel h
      | scalar hkind' _ hmessage => exact hmessage (Except.ok.inj (hkind'.symm.trans hkind))
      | message hf => exact hf.2 htime
      | enumeration hkind' _ => cases hkind'.symm.trans hkind
  | int64 =>
    exact hscalar (by decide) (by decide) (Option.some.inj ha ▸ Policy.bigInteger_accepts_null hn)
  | _ =>
    exact hscalar (by decide) (by decide)
      (Option.some.inj ha ▸ Policy.scalar_accepts_null hn (by decide))

end Nullable

namespace Conversion

/-- A field takes null as its kind and its label say. -/
theorem fieldSchema_accepts_null_iff {c : Conversion} (hn : c.policy.nullable = true)
    {path : List Declaration} {scope : List EnumType} {f : Field} {s : Schema}
    (hs : (c.fieldSchema path scope f).result = .ok s) :
    s.accepts .null = true ↔ f.HasNullUnion c.policy ∧ ¬ f.IsListed scope := by
  rcases fieldSchema_eq_ok_iff.mp hs with
    ⟨kind, a, hkind, ha, rfl⟩ | ⟨target, t, hf, -, -, rfl⟩
  · rw [Field.ofElement_eq]
    by_cases hlabel : f.label = .repeated
    · rw [if_pos hlabel]
      exact iff_of_true (Policy.arrayOf_accepts_null hn a) ⟨.array hlabel, fun h => h.1 hlabel⟩
    · rw [if_neg hlabel]
      exact Field.element_accepts_null_iff hn hlabel hkind ha
  · refine iff_of_true (Field.ofMessage_accepts_null hn f t) ⟨.message hf.1, fun h => ?_⟩
    cases hf.1.1.symm.trans h.2.1

/-- **Null**: where null is allowed, a field takes null exactly when it is written as a union with
null and is no single enum value from a list, and a message always takes null. -/
theorem takes_null_iff (c : Conversion) (hn : c.policy.nullable = true) :
    (∀ enclosing f visible s, (c.field enclosing f visible).result = .ok s →
      (s.accepts .null = true ↔
        f.HasNullUnion c.policy ∧ ¬ f.IsListed (enclosing.message.outerScope visible))) ∧
    ∀ d visible s, (c.message d visible).result = .ok s → s.accepts .null = true := by
  refine ⟨fun enclosing f visible s hs => fieldSchema_accepts_null_iff hn hs,
    fun d visible s hs => ?_⟩
  obtain ⟨ts, -, rfl⟩ := messageSchema_eq_ok_iff.mp hs
  exact Policy.messageSchema_accepts_null hn _

/-! ### A lamp -/

namespace Lamp

/-- The colour of a lamp, a single enum value. -/
def colour : Field := { name := "colour", typeNumber := 14, typeName := ".Colour" }

/-- The power of a lamp, a single number. -/
def power : Field := { name := "power", typeNumber := 5 }

/-- A lamp with a colour of a list and a power. -/
def lamp : Declaration :=
  ⟨[0, 0],
    { name := "Lamp"
      fields := [colour, power]
      enums := [{ name := "Colour", values := [{ name := "RED", number := 0 }] }] }⟩

/-- The conversion under the policy that allows everything. -/
def conversion : Conversion where
  registry := Registry.empty
  package := 0
  policy := .everything

end Lamp

/-- A lamp and its power take null, and its colour does not. -/
theorem takes_null_lamp : Lamp.conversion.policy.nullable = true ∧
    (∃ s, (Lamp.conversion.message Lamp.lamp []).result = .ok s ∧ s.accepts .null = true) ∧
    (∃ s, (Lamp.conversion.field Lamp.lamp Lamp.power []).result = .ok s ∧
      s.accepts .null = true) ∧
    ∃ s, (Lamp.conversion.field Lamp.lamp Lamp.colour []).result = .ok s ∧
      ¬ s.accepts .null = true := by
  obtain ⟨hfield, hmessage⟩ := takes_null_iff Lamp.conversion rfl
  obtain ⟨s, hs⟩ : ∃ s, (Lamp.conversion.message Lamp.lamp []).result = .ok s := by
    rw [message, messageSchema_eq]
    exact ⟨_, rfl⟩
  refine ⟨rfl, ⟨s, hs, hmessage _ _ s hs⟩, ⟨_, rfl, ?_⟩, ⟨_, rfl, ?_⟩⟩
  · have hkind : Lamp.power.kind = .ok .int32 := rfl
    refine (hfield Lamp.lamp Lamp.power [] _ rfl).mpr ⟨?_, fun h => by cases h.2.1⟩
    exact .scalar hkind (by decide) (by decide)
  · intro hnull
    have hlisted := ((hfield Lamp.lamp Lamp.colour [] _ rfl).mp hnull).2
    exact hlisted ⟨by decide, rfl, by decide⟩

/-- The colour of a lamp is written as a union with null, and rejects null. -/
theorem colour_rejects_null : Lamp.conversion.policy.nullable = true ∧
    Lamp.colour.label = .optional ∧ Lamp.colour.kind = .ok .enumeration ∧
    Lamp.conversion.policy.enumOneOf = true ∧
    ∃ s, (Lamp.conversion.field Lamp.lamp Lamp.colour []).result = .ok s ∧
      s.admitsNull = true ∧ s.accepts .null = false :=
  ⟨rfl, rfl, rfl, rfl, _, rfl, rfl, rfl⟩

end Conversion

end ProtoSchema
