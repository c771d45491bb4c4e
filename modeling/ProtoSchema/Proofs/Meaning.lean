import ProtoSchema.Proofs.Elements

/-!
# The meaning of a message document

Which JSON values are values of a message is said here by rules on the descriptors alone, without a
schema: `Conversion.IsMessageValue` goes from a message to its fields and from a field to the
message that it embeds. The theorem is that the schema of a message, where nothing may be null,
accepts exactly these values (`accepts_message_iff`).

The rules go inwards with the value, so that they make sense for a cyclic message as well; only such
a message has no schema.

Both sides have the same layers, and there is one equivalence for each of them. The node of a plain
field accepts the values of its kind (`Field.accepts_element_iff`), an array those arrays whose
elements its items accept, and the node of an object those objects whose members its properties
allow. What is carried through the conversion is not the equivalence itself but that the properties
of a message say of every member what the rules say (`Conversion.Describes`), as the node around an
embedded message may be open or closed apart from the message.
-/

namespace ProtoSchema

/-! ## The rules

A rule has no case for what is rejected: a value is one of the message when there is a derivation.
Members that are missing are not asked for, as no field has to be there in a document.
-/

/-- The value is one of a field of that kind and type name that embeds no message. -/
inductive Policy.IsPlainValue (p : Policy) (scope : List EnumType) (typeName : String) :
    FieldKind → Value → Prop where
  /-- a number without a fraction -/
  | whole (n : Int) : IsPlainValue p scope typeName .float (.integer n)
  /-- a number with a fraction -/
  | fraction (digits : Int) (places : Nat) :
    IsPlainValue p scope typeName .float (.decimal digits places)
  /-- an integer of 32 bits is an integer -/
  | int32 (n : Int) : IsPlainValue p scope typeName .int32 (.integer n)
  /-- an integer of 64 bits is an integer -/
  | int64 (n : Int) : IsPlainValue p scope typeName .int64 (.integer n)
  /-- an integer of 64 bits is also a string, when unions and such strings are allowed -/
  | int64Text (s : String) (hone : p.oneOf = true) (hbig : p.bigintsAsStrings = true) :
    IsPlainValue p scope typeName .int64 (.string s)
  /-- text is a string -/
  | string (s : String) : IsPlainValue p scope typeName .string (.string s)
  /-- true and false -/
  | bool (b : Bool) : IsPlainValue p scope typeName .bool (.boolean b)
  /-- the name of a value of the enum -/
  | enumName {x : EnumValue} (hx : x ∈ enumValues (matchEnum scope typeName)) :
    IsPlainValue p scope typeName .enumeration (.string x.name)
  /-- the number of a value of the enum, when enums are unions -/
  | enumNumber {x : EnumValue} (hx : x ∈ enumValues (matchEnum scope typeName))
    (hone : p.enumOneOf = true) : IsPlainValue p scope typeName .enumeration (.integer x.number)
  /-- any string, when the enum is not there or has no values -/
  | anyName (s : String) (hnone : enumValues (matchEnum scope typeName) = []) :
    IsPlainValue p scope typeName .enumeration (.string s)
  /-- any integer, when the enum is not there or has no values, and enums are unions -/
  | anyNumber (n : Int) (hnone : enumValues (matchEnum scope typeName) = [])
    (hone : p.enumOneOf = true) : IsPlainValue p scope typeName .enumeration (.integer n)
  /-- a point in time is a string -/
  | timestamp (s : String) (htime : typeName = timestampName) :
    IsPlainValue p scope typeName .message (.string s)

namespace Conversion

mutual

/-- The value is one of the message, seen with the enums in scope; `more` says whether members
that are no field are allowed. -/
inductive IsMessageValue (c : Conversion) : List EnumType → Declaration → Bool → Value → Prop where
  /-- an object: under the name of a field a value of that field, the last one of the name, and
  under other names anything or nothing -/
  | object {scope : List EnumType} {d : Declaration} {more : Bool} {ms : List (String × Value)}
    (hfields : ∀ m ∈ ms, ∀ f, d.message.fieldNamed m.1 = some f → IsFieldValue c scope f m.2)
    (hothers : ∀ m ∈ ms, d.message.fieldNamed m.1 = none → more = true) :
    IsMessageValue c scope d more (.object ms)

/-- The value is one of the field. -/
inductive IsFieldValue (c : Conversion) : List EnumType → Field → Value → Prop where
  /-- a field that is not repeated has one element -/
  | one {scope : List EnumType} {f : Field} {v : Value} (hlabel : f.label ≠ .repeated)
    (hv : IsElement c scope f v) : IsFieldValue c scope f v
  /-- a repeated field has an array of elements -/
  | many {scope : List EnumType} {f : Field} {vs : List Value} (hlabel : f.label = .repeated)
    (hvs : ∀ v ∈ vs, IsElement c scope f v) : IsFieldValue c scope f (.array vs)

/-- The value is one element of the field. -/
inductive IsElement (c : Conversion) : List EnumType → Field → Value → Prop where
  /-- an element that is no message -/
  | plain {scope : List EnumType} {f : Field} {kind : FieldKind} {v : Value}
    (hkind : f.kind = .ok kind) (hv : c.policy.IsPlainValue scope f.typeName kind v) :
    IsElement c scope f v
  /-- a value of the message that the field embeds, seen with its own enums when it has some; other
  members are allowed where the policy allows them, but not in a required message -/
  | message {scope : List EnumType} {f : Field} {target : Declaration} {v : Value}
    (hf : c.Embeds f target)
    (hv : IsMessageValue c (target.message.scopeWithin scope) target
      (c.policy.additionalProperties && f.label ≠ .required) v) :
    IsElement c scope f v

end

end Conversion

/-! ## Plain fields

For each kind the two sides are compared value by value, as both are given by cases.
-/

/-- A value is listed for an enum field when it is the name of a value of the enum, or the number of
one where numbers are listed. -/
theorem Policy.exists_listed_iff (p : Policy) (found : Option EnumType) (v : Value) :
    (∃ l ∈ p.listed found, l.equals v = true) ↔
      ∃ x ∈ enumValues found, (Literal.name x.name).equals v = true ∨
        p.enumNumbers = true ∧ (Literal.number x.number).equals v = true := by
  cases found with
  | none => simp [listed, enumValues]
  | some e =>
    refine ⟨?_, ?_⟩
    · rintro ⟨l, hl, hv⟩
      obtain ⟨x, hx, rfl | ⟨hnumbers, rfl⟩⟩ := EnumType.mem_literals_iff.mp hl
      · exact ⟨x, hx, Or.inl hv⟩
      · exact ⟨x, hx, Or.inr ⟨hnumbers, hv⟩⟩
    · rintro ⟨x, hx, hv | ⟨hnumbers, hv⟩⟩
      · exact ⟨_, EnumType.mem_literals_iff.mpr ⟨x, hx, Or.inl rfl⟩, hv⟩
      · exact ⟨_, EnumType.mem_literals_iff.mpr ⟨x, hx, Or.inr ⟨hnumbers, rfl⟩⟩, hv⟩

/-- The node of an enum field accepts the names of its values, and their numbers in a union. -/
theorem Policy.accepts_enumField_iff {p : Policy} (hn : p.nullable = false)
    (scope : List EnumType) (typeName : String) (v : Value) :
    (p.enumField (matchEnum scope typeName)).accepts v = true ↔
      p.IsPlainValue scope typeName .enumeration v := by
  generalize hfound : matchEnum scope typeName = found
  -- the node asks for one of the listed values, and for a type of its union
  have hcases : (p.enumField found).accepts v = true ↔
      (enumValues found ≠ [] → ∃ l ∈ p.listed found, l.equals v = true) ∧
        ((∃ s, v = .string s) ∨ p.enumOneOf = true ∧ ∃ n, v = .integer n) := by
    rw [enumField_eq, ne_eq, ← p.listed_eq_nil_iff]
    by_cases hone : p.enumOneOf = true
    · have hne : enumTypes p.nullable ≠ [] := List.cons_ne_nil _ _
      rw [if_pos hone, Schema.accepts_union_iff hne]
      cases v <;> simp [enumTypes, hn, hone, JsonType.admits]
    · rw [if_neg hone, Schema.accepts_typed_iff]
      cases v <;> simp [hone, JsonType.admits]
  rw [hcases]
  subst hfound
  refine ⟨?_, ?_⟩
  · rintro ⟨hlisted, hv⟩
    by_cases hnone : enumValues (matchEnum scope typeName) = []
    · rcases hv with ⟨s, rfl⟩ | ⟨hone, n, rfl⟩
      · exact .anyName s hnone
      · exact .anyNumber n hnone hone
    · obtain ⟨x, hx, hlisted⟩ := (p.exists_listed_iff _ v).mp (hlisted hnone)
      -- a string is equal to no number, and an integer to no name
      rcases hv with ⟨s, rfl⟩ | ⟨hone, n, rfl⟩
      · rcases hlisted with h | ⟨-, h⟩
        · obtain rfl : x.name = s := Literal.name_equals_iff.mp h
          exact .enumName hx
        · exact absurd h Bool.false_ne_true
      · rcases hlisted with h | ⟨-, h⟩
        · exact absurd h Bool.false_ne_true
        · obtain rfl : x.number = n := Literal.number_equals_iff.mp h
          exact .enumNumber hx hone
  · intro h
    cases h with
    | @enumName x hx =>
      have hname := Literal.name_equals_iff.mpr (Eq.refl x.name)
      exact ⟨fun _ => (p.exists_listed_iff _ _).mpr ⟨x, hx, Or.inl hname⟩, Or.inl ⟨_, rfl⟩⟩
    | @enumNumber x hx hone =>
      have hnumber := Literal.number_equals_iff.mpr (Eq.refl x.number)
      have hnumbers := enumNumbers_of_enumOneOf hone
      exact ⟨fun _ => (p.exists_listed_iff _ _).mpr ⟨x, hx, Or.inr ⟨hnumbers, hnumber⟩⟩,
        Or.inr ⟨hone, _, rfl⟩⟩
    | anyName s hnone => exact ⟨fun h => absurd hnone h, Or.inl ⟨s, rfl⟩⟩
    | anyNumber n hnone hone => exact ⟨fun h => absurd hnone h, Or.inr ⟨hone, n, rfl⟩⟩

theorem Policy.accepts_scalar {p : Policy} (hn : p.nullable = false) (ty : JsonType) (v : Value) :
    (p.scalar ty).accepts v = ty.admits v := by
  rw [scalar_eq_ofType hn, Schema.accepts_ofType]

/-- The node of a 64-bit integer accepts integers, and strings where they are allowed. -/
theorem Policy.accepts_bigInteger_iff {p : Policy} (hn : p.nullable = false)
    (scope : List EnumType) (typeName : String) (v : Value) :
    p.bigInteger.accepts v = true ↔ p.IsPlainValue scope typeName .int64 v := by
  have hcases : p.bigInteger.accepts v = true ↔
      (∃ n, v = .integer n) ∨ p.oneOf = true ∧ p.bigintsAsStrings = true ∧ ∃ s, v = .string s := by
    rw [bigInteger_eq]
    by_cases hone : p.oneOf = true
    · have hne : p.bigIntegerTypes ≠ [] := List.cons_ne_nil _ _
      rw [if_pos hone, Schema.accepts_union_iff hne []]
      cases hb : p.bigintsAsStrings <;> cases v <;>
        simp [bigIntegerTypes, hb, hn, hone, JsonType.admits]
    · rw [if_neg hone, Schema.accepts_ofType]
      cases v <;> simp [hone, JsonType.admits]
  rw [hcases]
  refine ⟨?_, ?_⟩
  · rintro (⟨n, rfl⟩ | ⟨hone, hbig, s, rfl⟩)
    · exact .int64 n
    · exact .int64Text s hone hbig
  · intro h
    cases h with
    | int64 n => exact Or.inl ⟨n, rfl⟩
    | int64Text s hone hbig => exact Or.inr ⟨hone, hbig, s, rfl⟩

/-- The values of a kind that is written as one type are those of the type. -/
theorem Policy.isPlainValue_iff_admits {p : Policy} {scope : List EnumType} {typeName : String}
    {kind : FieldKind} {ty : JsonType} (hty : kind.scalarType? = some ty) (v : Value) :
    p.IsPlainValue scope typeName kind v ↔ ty.admits v = true := by
  refine ⟨fun h => ?_, fun h => ?_⟩
  · cases h <;> cases hty <;> rfl
  · cases kind <;> cases hty <;> cases v <;>
      first | exact absurd h Bool.false_ne_true | constructor

/-- The node of a plain field accepts the values of its kind. -/
theorem Field.accepts_element_iff {f : Field} {p : Policy} {scope : List EnumType}
    {kind : FieldKind} {a : Schema} (hn : p.nullable = false)
    (ha : f.element? p scope kind = some a) (v : Value) :
    a.accepts v = true ↔ p.IsPlainValue scope f.typeName kind v := by
  cases kind with
  | int64 =>
    rw [← Option.some.inj ha]
    exact Policy.accepts_bigInteger_iff hn scope f.typeName v
  | enumeration =>
    rw [← Option.some.inj ha]
    exact Policy.accepts_enumField_iff hn scope f.typeName v
  | message =>
    obtain ⟨htime, rfl⟩ := wellKnown_eq_some_iff.mp ha
    rw [Schema.accepts_typed_iff .string [] (some "date-time")]
    refine ⟨?_, ?_⟩
    · rintro ⟨-, h⟩
      cases v with
      | string s => exact .timestamp s htime
      | _ => exact absurd h Bool.false_ne_true
    · rintro ⟨⟩
      exact ⟨fun h => absurd rfl h, rfl⟩
  | _ =>
    rw [← Option.some.inj ha, Policy.accepts_scalar hn]
    exact (Policy.isPlainValue_iff_admits rfl v).symm

/-! ## Arrays

Null is dropped from the items of an array, and where nothing may be null there is none to drop.
-/

/-- Where nothing may be null, no plain field has null in its union. -/
theorem Field.admitsNull_element {f : Field} {p : Policy} {scope : List EnumType}
    {kind : FieldKind} {a : Schema} (hn : p.nullable = false)
    (ha : f.element? p scope kind = some a) : a.admitsNull = false := by
  have hscalar : ∀ ty, (p.scalar ty).admitsNull = false := by
    intro ty
    rw [Policy.scalar_eq_ofType hn]
    rfl
  cases kind with
  | int64 =>
    rw [← Option.some.inj ha, Policy.bigInteger_eq]
    cases p.oneOf <;> cases hb : p.bigintsAsStrings <;>
      simp [Policy.bigIntegerTypes, hb, hn, Schema.admitsNull, Schema.isType, Schema.ofType]
  | enumeration =>
    rw [← Option.some.inj ha, Policy.enumField_eq]
    cases p.enumOneOf <;>
      simp [enumTypes, hn, Schema.admitsNull, Schema.isType, Schema.ofType]
  | message =>
    obtain ⟨-, rfl⟩ := wellKnown_eq_some_iff.mp ha
    rfl
  | _ => exact Option.some.inj ha ▸ hscalar _

/-- A leaf accepts the same without its format. -/
theorem Schema.IsLeaf.accepts_without_format {a : Schema} (ha : a.IsLeaf) (v : Value) :
    ({ type := a.type, oneOf := a.oneOf, literals := a.literals } : Schema).accepts v =
      a.accepts v := by
  conv_rhs => rw [ha.eq]
  simp only [Schema.accepts]

/-- An array accepts the arrays of what its element accepts. -/
theorem Policy.accepts_arrayOf_iff {p : Policy} (hn : p.nullable = false) {a : Schema}
    (hleaf : a.IsLeaf) (hnull : a.admitsNull = false) (v : Value) :
    (p.arrayOf a).accepts v = true ↔ ∃ vs, v = .array vs ∧ ∀ w ∈ vs, a.accepts w = true := by
  have hdrop : ({ type := a.type, oneOf := a.oneOf, literals := a.literals } : Schema).dropNull =
      { type := a.type, oneOf := a.oneOf, literals := a.literals } :=
    if_neg (by simpa [Schema.admitsNull] using hnull)
  rw [arrayOf, scalar_eq_ofType hn, Schema.accepts_array_iff rfl rfl rfl rfl, hdrop]
  simp only [hleaf.accepts_without_format]

/-! ## Messages

Here the rules and the schemas are recursive, and the induction is that of the conversion.
-/

/-- The node of a message accepts the objects with the members that its properties allow. -/
theorem Policy.accepts_messageSchema_iff {p : Policy} (hn : p.nullable = false)
    (properties : List (String × Schema)) (v : Value) :
    (p.messageSchema properties).accepts v = true ↔
      ∃ ms, v = .object ms ∧ MembersAllowed properties p.additionalProperties ms := by
  have hmore : (some p.additionalProperties != some false) = p.additionalProperties := by
    cases p.additionalProperties <;> rfl
  rw [messageSchema, scalar_eq_ofType hn, Schema.accepts_object_iff rfl rfl rfl rfl, hmore]

/-- The node of a message field that is not repeated accepts the objects with the members of its
message, and with others unless the policy or the label forbids them. -/
theorem Field.accepts_ofMessage_one_iff {f : Field} {p : Policy} (hn : p.nullable = false)
    (hlabel : f.label ≠ .repeated) (message : Schema) (v : Value) :
    (f.ofMessage p message).accepts v = true ↔ ∃ ms, v = .object ms ∧
      MembersAllowed message.properties (p.additionalProperties && f.label ≠ .required) ms := by
  have hmore : (f.openness p != some false) = (p.additionalProperties && f.label ≠ .required) := by
    rw [openness]
    cases p.additionalProperties <;> cases hl : f.label <;> simp_all
  simp only [ofMessage, hlabel, if_false]
  rw [Policy.scalar_eq_ofType hn, Schema.accepts_object_iff rfl rfl rfl rfl, hmore]

/-- The node of a repeated message field accepts the arrays of what its message accepts. -/
theorem Field.accepts_ofMessage_many_iff {f : Field} {p : Policy} (hn : p.nullable = false)
    (hlabel : f.label = .repeated) (message : Schema) (v : Value) :
    (f.ofMessage p message).accepts v = true ↔
      ∃ vs, v = .array vs ∧ ∀ w ∈ vs, message.accepts w = true := by
  simp only [ofMessage, hlabel, if_true]
  rw [Policy.scalar_eq_ofType hn, Schema.accepts_array_iff rfl rfl rfl rfl]

namespace Conversion

variable {c : Conversion} {path : List Declaration} {scope : List EnumType}

/-- The properties say of every member what the rules for the fields say. -/
def Describes (c : Conversion) (scope : List EnumType) (d : Declaration)
    (properties : List (String × Schema)) : Prop :=
  ∀ name, Option.Rel (fun f s => ∀ v, s.accepts v = true ↔ c.IsFieldValue scope f v)
    (d.message.fieldNamed name) (properties.lookup name)

/-- The objects whose members such properties allow are the values of the message. -/
theorem Describes.object_iff {d : Declaration} {properties : List (String × Schema)}
    (h : c.Describes scope d properties) (more : Bool) (v : Value) :
    (∃ ms, v = .object ms ∧ MembersAllowed properties more ms) ↔
      c.IsMessageValue scope d more v := by
  have hmember : ∀ m : String × Value, MemberAllowed properties more m ↔
      (∀ f, d.message.fieldNamed m.1 = some f → c.IsFieldValue scope f m.2) ∧
        (d.message.fieldNamed m.1 = none → more = true) := by
    intro m
    rw [MemberAllowed]
    have hrel := h m.1
    revert hrel
    generalize d.message.fieldNamed m.1 = field
    generalize properties.lookup m.1 = property
    intro hrel
    cases hrel with
    | none => simp
    | some hfs => simp [hfs m.2]
  refine ⟨?_, ?_⟩
  · rintro ⟨ms, rfl, hms⟩
    exact .object (fun m hm => ((hmember m).mp (hms m hm)).1)
      fun m hm => ((hmember m).mp (hms m hm)).2
  · rintro ⟨hfields, hothers⟩
    exact ⟨_, rfl, fun m hm => (hmember m).mpr ⟨hfields m hm, hothers m hm⟩⟩

/-- An element that is no message is ruled by its kind alone. -/
theorem isElement_iff_of_element {f : Field} {kind : FieldKind} {a : Schema}
    (hkind : f.kind = .ok kind) (ha : f.element? c.policy scope kind = some a) (v : Value) :
    c.IsElement scope f v ↔ c.policy.IsPlainValue scope f.typeName kind v := by
  refine ⟨?_, ?_⟩
  · intro h
    cases h with
    | plain hkind' hv =>
      obtain rfl := Except.ok.inj (hkind.symm.trans hkind')
      exact hv
    | message hf _ =>
      have hmessage := Except.ok.inj (hkind.symm.trans hf.1.1)
      rw [Field.element?_eq_none_iff.mpr ⟨hmessage, hf.1.2⟩] at ha
      cases ha
  · exact .plain hkind

/-- An element of a field that embeds a message is a value of that message. -/
theorem isElement_iff_of_embeds {f : Field} {target : Declaration} (hf : c.Embeds f target)
    (v : Value) :
    c.IsElement scope f v ↔ c.IsMessageValue (target.message.scopeWithin scope) target
      (c.policy.additionalProperties && f.label ≠ .required) v := by
  refine ⟨?_, ?_⟩
  · intro h
    cases h with
    | plain hkind hv =>
      obtain rfl := Except.ok.inj (hkind.symm.trans hf.1.1)
      -- of the plain values only points in time have a message type
      cases hv with
      | timestamp _ htime => exact absurd htime hf.1.2
    | message hf' hv => rwa [hf.unique hf']
  · exact .message hf

/-- A field has one element, or an array of them, as its label says. -/
theorem isFieldValue_iff {f : Field} (v : Value) :
    c.IsFieldValue scope f v ↔
      if f.label = .repeated then ∃ vs, v = .array vs ∧ ∀ w ∈ vs, c.IsElement scope f w
      else c.IsElement scope f v := by
  refine ⟨?_, ?_⟩
  · intro h
    cases h with
    | one hlabel hv => rwa [if_neg hlabel]
    | many hlabel hvs =>
      rw [if_pos hlabel]
      exact ⟨_, rfl, hvs⟩
  · intro h
    by_cases hlabel : f.label = .repeated
    · rw [if_pos hlabel] at h
      obtain ⟨vs, rfl, hvs⟩ := h
      exact .many hlabel hvs
    · rw [if_neg hlabel] at h
      exact .one hlabel h

/-- The schema of a field accepts the values of the field, when the schema of the message that it
embeds is made of properties that say what the rules say. -/
theorem accepts_fieldSchema_iff (hn : c.policy.nullable = false) {f : Field} {s : Schema}
    (hs : (c.fieldSchema path scope f).result = .ok s)
    (ih : ∀ target t, c.Embeds f target → target ∉ path →
      (c.messageSchema path (target.message.scopeWithin scope) target).result = .ok t →
      ∃ properties, t = c.policy.messageSchema properties ∧
        c.Describes (target.message.scopeWithin scope) target properties) (v : Value) :
    s.accepts v = true ↔ c.IsFieldValue scope f v := by
  rw [isFieldValue_iff]
  rcases fieldSchema_eq_ok_iff.mp hs with
    ⟨kind, a, hkind, ha, rfl⟩ | ⟨target, t, hf, hpath, ht, rfl⟩
  · have helement : ∀ w, a.accepts w = true ↔ c.IsElement scope f w := fun w =>
      (Field.accepts_element_iff hn ha w).trans (isElement_iff_of_element hkind ha w).symm
    rw [Field.ofElement_eq]
    by_cases hlabel : f.label = .repeated
    · rw [if_pos hlabel, if_pos hlabel, Policy.accepts_arrayOf_iff hn (Field.isLeaf_element ha)
        (Field.admitsNull_element hn ha)]
      simp only [helement]
    · rw [if_neg hlabel, if_neg hlabel]
      exact helement v
  · obtain ⟨properties, rfl, hdescribes⟩ := ih target t hf hpath ht
    simp only [isElement_iff_of_embeds hf]
    by_cases hlabel : f.label = .repeated
    · have hmore : (c.policy.additionalProperties && f.label ≠ .required) =
          c.policy.additionalProperties := by
        simp [hlabel]
      rw [if_pos hlabel, Field.accepts_ofMessage_many_iff hn hlabel, hmore]
      simp only [Policy.accepts_messageSchema_iff hn, hdescribes.object_iff]
    · rw [if_neg hlabel, Field.accepts_ofMessage_one_iff hn hlabel]
      exact hdescribes.object_iff _ v

/-- The properties of a converted message say what the rules for its fields say. -/
theorem describes_messageSchema (hn : c.policy.nullable = false) (path : List Declaration)
    (d : Declaration) :
    ∀ scope s, (c.messageSchema path scope d).result = .ok s →
      ∃ properties, s = c.policy.messageSchema properties ∧ c.Describes scope d properties := by
  refine c.induction (motive := fun path d => ∀ scope s,
    (c.messageSchema path scope d).result = .ok s →
      ∃ properties, s = c.policy.messageSchema properties ∧ c.Describes scope d properties)
    (fun path d ih scope s hs => ?_) path d
  obtain ⟨ts, hts, rfl⟩ := messageSchema_eq_ok_iff.mp hs
  refine ⟨_, rfl, fun name => ?_⟩
  have hfields : List.Forall₂ (fun f t => ∀ v, t.accepts v = true ↔ c.IsFieldValue scope f v)
      d.message.fields ts :=
    hts.imp fun f t ht => accepts_fieldSchema_iff hn ht fun target t hf hpath =>
      ih f target hf hpath (target.message.scopeWithin scope) t
  exact Message.lookup_propertyTable hfields name

/-- **The meaning of a message document**: where nothing may be null, the schema of a message
accepts exactly the values of the message. -/
theorem accepts_message_iff (c : Conversion) (hn : c.policy.nullable = false) (d : Declaration)
    (visible : List EnumType) {s : Schema} (hs : (c.message d visible).result = .ok s)
    (v : Value) :
    s.accepts v = true ↔
      c.IsMessageValue (d.message.outerScope visible) d c.policy.additionalProperties v := by
  obtain ⟨properties, rfl, hdescribes⟩ :=
    describes_messageSchema hn [] d (d.message.outerScope visible) s hs
  rw [Policy.accepts_messageSchema_iff hn]
  exact hdescribes.object_iff _ v

/-! ### A shop -/

namespace Shop

/-- An item with a count. -/
def item : Declaration :=
  ⟨[0, 1], { name := "Item", fields := [{ name := "count", typeNumber := 5 }] }⟩

/-- An order with a state and items. -/
def order : Declaration :=
  ⟨[0, 0],
    { name := "Order"
      fields :=
        [{ name := "state", typeNumber := 14, typeName := ".shop.State" },
         { name := "items", label := .repeated, typeNumber := 11, typeName := ".shop.Item" }]
      enums := [{ name := "State", values := [{ name := "OPEN", number := 1 }] }] }⟩

/-- The conversion of the shop's messages under the policy that allows all but null. -/
def conversion : Conversion where
  registry := Registry.empty.registerAll [("shop", order), ("shop", item)]
  package := 1
  policy := .allButNull

/-- An open order of two things, with a note that the message does not know. -/
def openOrder : Value :=
  .object [("state", .integer 1), ("items", .array [.object [("count", .integer 2)]]),
    ("note", .null)]

theorem embeds_item : conversion.Embeds order.message.fields[1] item := ⟨⟨rfl, by decide⟩, rfl⟩

/-- The order converts: its state on the spot, its items around the schema of an item. -/
theorem order_converts : ∃ s, (conversion.message order []).result = .ok s := by
  obtain ⟨t, ht⟩ : ∃ t, (conversion.messageSchema [order] order.message.enums item).result =
      .ok t := by
    rw [messageSchema_eq]
    exact ⟨_, rfl⟩
  have hitems := fieldSchema_eq_ok_iff.mpr
    (Or.inr ⟨item, t, embeds_item, by decide, ht, rfl⟩)
  exact ⟨_, messageSchema_eq_ok_iff.mpr ⟨_, .cons rfl (.cons hitems .nil), rfl⟩⟩

/-- Such an order follows the rules: the number of its state is one of the enum, and its items are
an array of items. -/
theorem isMessageValue_openOrder :
    conversion.IsMessageValue order.message.enums order true openOrder := by
  refine .object (fun m hm f hf => ?_) fun _ _ _ => rfl
  rcases List.mem_cons.mp hm with rfl | hm
  · obtain rfl : order.message.fields[0] = f := Option.some.inj hf
    exact .one (by decide) (.plain rfl (.enumNumber (x := ⟨"OPEN", 1⟩) List.mem_cons_self rfl))
  rcases List.mem_cons.mp hm with rfl | hm
  · obtain rfl : order.message.fields[1] = f := Option.some.inj hf
    refine .many rfl fun v hv => ?_
    obtain rfl := List.mem_singleton.mp hv
    refine .message embeds_item (.object (fun m hm f hf => ?_) fun _ _ _ => rfl)
    obtain rfl := List.mem_singleton.mp hm
    obtain rfl : item.message.fields[0] = f := Option.some.inj hf
    exact .one (by decide) (.plain rfl (.int32 2))
  · obtain rfl := List.mem_singleton.mp hm
    cases hf

end Shop

/-- The schema of an order accepts an order, because that is a value of the message. -/
theorem accepts_openOrder : Shop.conversion.policy.nullable = false ∧
    ∃ s, (Shop.conversion.message Shop.order []).result = .ok s ∧
      s.accepts Shop.openOrder = true := by
  obtain ⟨s, hs⟩ := Shop.order_converts
  have hiff := accepts_message_iff Shop.conversion rfl Shop.order [] hs Shop.openOrder
  exact ⟨rfl, s, hs, hiff.mpr Shop.isMessageValue_openOrder⟩

end Conversion

end ProtoSchema
