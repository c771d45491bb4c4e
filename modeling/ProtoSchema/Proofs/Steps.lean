import ProtoSchema.Conversion
import ProtoSchema.Proofs.Outcome

/-!
# One step of a conversion

What a field and a message come to, said once for all proofs. A field is of one of three sorts
(`Conversion.field_sorts`):

* it is converted on the spot, to a schema that depends on its kind, on the policy and on the enums
  in scope (`Field.element?`);
* it embeds the message that its type name resolves to, and this message is not around it
  (`Conversion.Embeds`);
* or it fails by itself, before any other message is looked at (`Conversion.Offends`).

The inversion lemmas `fieldSchema_eq_ok_iff` and `fieldSchema_eq_error_iff` say that nothing else
happens, and `messageSchema_eq_ok_iff` and `messageSchema_eq_error_iff` go from the fields to the
message. No other module unfolds the conversion of a field or of a message: what a later proof needs
to know of a step is one of these four.

`Conversion.induction` is the recursion of the conversion as an induction principle: to prove
something of every message on every path, prove it of a message from the messages that its fields
can enter. `fieldSchema_cases` is the same for two conversions at once. It says when a field comes
to the same in both, and which two messages are left to be compared when it need not.
-/

namespace ProtoSchema

/-! ## Fields -/

/-- The schema of one value of a field of that kind, unless the field embeds a message. -/
def Field.element? (f : Field) (p : Policy) (scope : List EnumType) : FieldKind → Option Schema
  | .float => some (p.scalar .number)
  | .int32 => some (p.scalar .integer)
  | .int64 => some p.bigInteger
  | .string => some (p.scalar .string)
  | .bool => some (p.scalar .boolean)
  | .enumeration => some (p.enumField (matchEnum scope f.typeName))
  | .message => wellKnown f.typeName

/-- The field holds a message that has no fixed form in JSON. -/
def Field.HoldsMessage (f : Field) : Prop := f.kind = .ok .message ∧ f.typeName ≠ timestampName

/-- The time stamp is the one message with a fixed form in JSON. -/
theorem wellKnown_eq_none_iff {typeName : String} :
    wellKnown typeName = none ↔ typeName ≠ timestampName := by
  rw [wellKnown]
  split <;> simp_all

/-- A field is left without a schema of its own only when it holds a message that has no fixed
form. -/
theorem Field.element?_eq_none_iff {f : Field} {p : Policy} {scope : List EnumType}
    {kind : FieldKind} :
    f.element? p scope kind = none ↔ kind = .message ∧ f.typeName ≠ timestampName := by
  cases kind <;> simp [element?, wellKnown_eq_none_iff]

/-- A repeated field is an array of its elements. -/
theorem Field.ofElement_eq (f : Field) (p : Policy) (a : Schema) :
    f.ofElement p a = if f.label = .repeated then p.arrayOf a else a := by
  rw [ofElement]
  cases f.label <;> rfl

/-- A field comes to the schema of its element, or to a schema around that of its message. The log
is gone here, and so is the warning about an enum that is not in scope. -/
theorem Field.result_schema (f : Field) (p : Policy) (scope : List EnumType)
    (embed : String → Logged ConversionError Schema) :
    (f.schema p scope embed).result = f.kind >>= fun kind =>
      match f.element? p scope kind with
      | some a => .ok (f.ofElement p a)
      | none => f.ofMessage p <$> (embed f.typeName).result := by
  rw [schema]
  rcases f.kind with e | kind
  · rfl
  · cases kind with
    | enumeration =>
      simp only [element?]
      cases matchEnum scope f.typeName <;> rfl
    | message =>
      simp only [element?]
      cases wellKnown f.typeName with
      | some s => rfl
      | none => exact Logged.result_map _ _
    | _ => rfl

/-! ## Messages -/

/-- The last field that becomes the property of that name. -/
def Message.fieldNamed (m : Message) (name : String) : Option Field :=
  m.fields.findRev? (·.propertyName = name)

/-- The properties of a message whose fields have these schemas. -/
def Message.propertyTable (m : Message) (schemas : List Schema) : List (String × Schema) :=
  sortedTable (m.fields.zipWith (fun f s => (f.propertyName, s)) schemas)

/-- The properties of a message are put into the table when all its fields are converted, and the
first field that fails decides. -/
theorem Message.result_properties (m : Message)
    (convert : Field → Logged ConversionError Schema) :
    (m.properties convert).result =
      m.propertyTable <$> m.fields.mapM fun f => (convert f).result := by
  have hentries : (fun f => ((fun s => (f.propertyName, s)) <$> (convert f).result)) =
      fun f : Field => (do
        let s ← (convert f).onFailure (.fieldFailed f.name m.name)
        pure (f.propertyName, s)).result := by
    funext f
    rw [Logged.result_bind, Logged.result_onFailure]
    cases (convert f).result <;> rfl
  rw [properties, Logged.result_bind, Logged.result_mapM, ← hentries,
    mapM_map_eq (fun (f : Field) (s : Schema) => (f.propertyName, s))]
  cases m.fields.mapM fun f => (convert f).result <;> rfl

/-- A property is the schema of the last field of its name. Stated as a relation of optional values,
this says at once which names are there and what stands under them. -/
theorem Message.lookup_propertyTable {m : Message} {R : Field → Schema → Prop}
    {schemas : List Schema} (h : List.Forall₂ R m.fields schemas) (name : String) :
    Option.Rel R (m.fieldNamed name) ((m.propertyTable schemas).lookup name) := by
  rw [fieldNamed, propertyTable, lookup_sortedTable]
  generalize m.fields = fields at h
  induction h with
  | nil => exact .none
  | @cons f s fields schemas hfs _ ih =>
    rw [List.zipWith_cons_cons, List.findRev?, List.findRev?]
    -- a later field of the name goes before this one
    revert ih
    generalize fields.findRev? _ = later
    generalize (List.zipWith _ fields schemas).findRev? _ = later'
    intro ih
    cases later' with
    | some entry =>
      cases ih with
      | some hlater => exact .some hlater
    | none =>
      cases ih with
      | none =>
        by_cases hname : f.propertyName = name
        · simp [hname, hfs]
        · simp [hname]

namespace Conversion

/-! ## What a field can come to

The two relations say what a type name leads to, without a word on how names are looked up. What is
known of a lookup is used only where a proof has to know whether they hold.
-/

/-- The field embeds the declaration: it holds a message, and this is the one that its type name
resolves to. -/
def Embeds (c : Conversion) (f : Field) (target : Declaration) : Prop :=
  f.HoldsMessage ∧ c.registry.lookupType c.package f.typeName = .ok target

/-- The field fails by itself inside the messages of the path, the nearest first. -/
inductive Offends (c : Conversion) (path : List Declaration) (f : Field) :
    ConversionError → Prop where
  /-- the number of its type is the number of no type -/
  | unrecognized (h : FieldKind.ofNumber? f.typeNumber = none) :
    Offends c path f (.unrecognizedFieldType f.name f.typeNumber)
  /-- it holds a message, but its type name does not resolve -/
  | unresolved {e : LookupError} (hf : f.HoldsMessage)
      (h : c.registry.lookupType c.package f.typeName = .error e) :
    Offends c path f (.unresolvedType f.typeName e)
  /-- it embeds a message of the path -/
  | recursive {target : Declaration} (hf : c.Embeds f target) (h : target ∈ path) :
    Offends c path f (.recursiveMessage f.typeName)

/-- A type name resolves to one message, so that a field embeds one at most. -/
theorem Embeds.unique {c : Conversion} {f : Field} {d e : Declaration} (hd : c.Embeds f d)
    (he : c.Embeds f e) : d = e := by
  have h := hd.2.symm.trans he.2
  exact Except.ok.inj h

/-- The outcome of a field, with the message that it may hold still to be embedded. -/
theorem result_fieldSchema (c : Conversion) (path : List Declaration) (scope : List EnumType)
    (f : Field) :
    (c.fieldSchema path scope f).result = f.kind >>= fun kind =>
      match f.element? c.policy scope kind with
      | some a => .ok (f.ofElement c.policy a)
      | none => f.ofMessage c.policy <$> (c.embed path scope f.typeName).result :=
  Field.result_schema f c.policy scope _

/-- What is embedded under a name: a failure when the name does not resolve or means a message of
the path, and the schema of the message otherwise. -/
theorem result_embed (c : Conversion) (path : List Declaration) (scope : List EnumType)
    (typeName : String) :
    (c.embed path scope typeName).result =
      match c.registry.lookupType c.package typeName with
      | .error e => .error (.unresolvedType typeName e)
      | .ok target =>
        if target ∈ path then .error (.recursiveMessage typeName)
        else (c.messageSchema path (target.message.scopeWithin scope) target).result := by
  rw [embed]
  cases c.registry.lookupType c.package typeName with
  | error e => rfl
  | ok target => exact apply_ite Logged.result _ _ _

section Sorts

variable {c : Conversion} {path : List Declaration} {scope : List EnumType} {f : Field}

/-- A field is converted on the spot, embeds a message off the path, or fails by itself. -/
theorem field_sorts (c : Conversion) (path : List Declaration) (scope : List EnumType)
    (f : Field) :
    (∃ kind a, f.kind = .ok kind ∧ f.element? c.policy scope kind = some a) ∨
      (∃ target, c.Embeds f target ∧ target ∉ path) ∨ ∃ e, c.Offends path f e := by
  rw [Field.kind]
  rcases hnumber : FieldKind.ofNumber? f.typeNumber with _ | kind
  · exact Or.inr (Or.inr ⟨_, .unrecognized hnumber⟩)
  · rcases ha : f.element? c.policy scope kind with _ | a
    · obtain ⟨rfl, hname⟩ := Field.element?_eq_none_iff.mp ha
      have hf : f.HoldsMessage := ⟨by rw [Field.kind, hnumber], hname⟩
      rcases hl : c.registry.lookupType c.package f.typeName with e | target
      · exact Or.inr (Or.inr ⟨_, .unresolved hf hl⟩)
      · by_cases hpath : target ∈ path
        · exact Or.inr (Or.inr ⟨_, .recursive ⟨hf, hl⟩ hpath⟩)
        · exact Or.inr (Or.inl ⟨target, ⟨hf, hl⟩, hpath⟩)
    · exact Or.inl ⟨kind, a, rfl, ha⟩

/-- The first sort: the field is done with the schema of its element. -/
theorem result_fieldSchema_of_element {kind : FieldKind} {a : Schema} (hkind : f.kind = .ok kind)
    (ha : f.element? c.policy scope kind = some a) :
    (c.fieldSchema path scope f).result = .ok (f.ofElement c.policy a) := by
  rw [result_fieldSchema, hkind]
  simp only [bind, Except.bind, ha]

/-- A field that holds a message comes to what is embedded under its type name. -/
theorem result_fieldSchema_of_holdsMessage (hf : f.HoldsMessage) :
    (c.fieldSchema path scope f).result =
      f.ofMessage c.policy <$> (c.embed path scope f.typeName).result := by
  have ha : f.element? c.policy scope .message = none :=
    Field.element?_eq_none_iff.mpr ⟨rfl, hf.2⟩
  rw [result_fieldSchema, hf.1]
  simp only [bind, Except.bind, ha]

/-- The second sort: the field comes to a schema around that of the message, which is converted with
this path around it and with its own scope. -/
theorem result_fieldSchema_of_embeds {target : Declaration} (hf : c.Embeds f target)
    (hpath : target ∉ path) :
    (c.fieldSchema path scope f).result = f.ofMessage c.policy <$>
      (c.messageSchema path (target.message.scopeWithin scope) target).result := by
  rw [result_fieldSchema_of_holdsMessage hf.1, result_embed, hf.2]
  simp only [hpath, if_false]

/-- The third sort: the field fails, with the failure that belongs to its offence. -/
theorem result_fieldSchema_of_offends {e : ConversionError} (h : c.Offends path f e) :
    (c.fieldSchema path scope f).result = .error e := by
  cases h with
  | unrecognized h =>
    rw [result_fieldSchema, Field.kind, h]
    rfl
  | unresolved hf h =>
    rw [result_fieldSchema_of_holdsMessage hf, result_embed, h]
    rfl
  | recursive hf h =>
    rw [result_fieldSchema_of_holdsMessage hf.1, result_embed, hf.2]
    simp only [h, if_true]
    rfl

/-- **A field in two conversions** comes to the same, if its name means related messages in both,
and these are around it in both or in neither; or else it embeds related messages, neither of which
is around it. -/
theorem fieldSchema_cases {c' : Conversion} {path' : List Declaration}
    {R : Declaration → Declaration → Prop} (hpolicy : c'.policy = c.policy)
    (hnames : f.HoldsMessage → Agree R (c.registry.lookupType c.package f.typeName)
      (c'.registry.lookupType c'.package f.typeName))
    (hpath : ∀ target target', c.Embeds f target → R target target' →
      (target ∈ path ↔ target' ∈ path')) :
    (c.fieldSchema path scope f).result = (c'.fieldSchema path' scope f).result ∨
      ∃ target target', c.Embeds f target ∧ target ∉ path ∧
        c'.Embeds f target' ∧ target' ∉ path' ∧ R target target' := by
  -- only a field that holds a message has a name that could mean different things
  by_cases hf : f.HoldsMessage
  · rcases (hnames hf).cases with ⟨e, hx, hy⟩ | ⟨target, target', hx, hy, htarget⟩
    · left
      rw [result_fieldSchema_of_offends (.unresolved hf hx),
        result_fieldSchema_of_offends (.unresolved hf hy)]
    · have hmem := hpath target target' ⟨hf, hx⟩ htarget
      -- the path decides in both conversions alike, as the two messages are paired
      by_cases hseen : target ∈ path
      · left
        rw [result_fieldSchema_of_offends (.recursive ⟨hf, hx⟩ hseen),
          result_fieldSchema_of_offends (.recursive ⟨hf, hy⟩ (hmem.mp hseen))]
      · exact Or.inr ⟨target, target', ⟨hf, hx⟩, hseen, ⟨hf, hy⟩, mt hmem.mpr hseen, htarget⟩
  · left
    rw [result_fieldSchema, result_fieldSchema, hpolicy]
    rcases hkind : f.kind with e | kind
    · rfl
    · rcases ha : f.element? c.policy scope kind with _ | a
      · obtain ⟨rfl, hname⟩ := Field.element?_eq_none_iff.mp ha
        exact absurd ⟨hkind, hname⟩ hf
      · simp only [bind, Except.bind, ha]

/-- A field succeeds as its element does, or around the message that it embeds. -/
theorem fieldSchema_eq_ok_iff {s : Schema} :
    (c.fieldSchema path scope f).result = .ok s ↔
      (∃ kind a, f.kind = .ok kind ∧ f.element? c.policy scope kind = some a ∧
        s = f.ofElement c.policy a) ∨
      ∃ target t, c.Embeds f target ∧ target ∉ path ∧
        (c.messageSchema path (target.message.scopeWithin scope) target).result = .ok t ∧
        s = f.ofMessage c.policy t := by
  refine ⟨?_, ?_⟩
  · intro h
    rcases c.field_sorts path scope f with ⟨kind, a, hkind, ha⟩ | ⟨target, hf, hpath⟩ | ⟨e, he⟩
    · rw [result_fieldSchema_of_element hkind ha] at h
      exact Or.inl ⟨kind, a, hkind, ha, (Except.ok.inj h).symm⟩
    · rw [result_fieldSchema_of_embeds hf hpath, map_eq_ok_iff] at h
      obtain ⟨t, ht, hs⟩ := h
      exact Or.inr ⟨target, t, hf, hpath, ht, hs⟩
    · rw [result_fieldSchema_of_offends he] at h
      cases h
  · rintro (⟨kind, a, hkind, ha, rfl⟩ | ⟨target, t, hf, hpath, ht, rfl⟩)
    · exact result_fieldSchema_of_element hkind ha
    · rw [result_fieldSchema_of_embeds hf hpath]
      exact map_eq_ok_iff.mpr ⟨t, ht, rfl⟩

/-- A field fails by itself, or as the message that it embeds. -/
theorem fieldSchema_eq_error_iff {e : ConversionError} :
    (c.fieldSchema path scope f).result = .error e ↔
      c.Offends path f e ∨
      ∃ target, c.Embeds f target ∧ target ∉ path ∧
        (c.messageSchema path (target.message.scopeWithin scope) target).result = .error e := by
  refine ⟨?_, ?_⟩
  · intro h
    rcases c.field_sorts path scope f with ⟨kind, a, hkind, ha⟩ | ⟨target, hf, hpath⟩ | ⟨e', he⟩
    · rw [result_fieldSchema_of_element hkind ha] at h
      cases h
    · rw [result_fieldSchema_of_embeds hf hpath, map_eq_error_iff] at h
      exact Or.inr ⟨target, hf, hpath, h⟩
    · rw [result_fieldSchema_of_offends he] at h
      obtain rfl : e' = e := Except.error.inj h
      exact Or.inl he
  · rintro (he | ⟨target, hf, hpath, ht⟩)
    · exact result_fieldSchema_of_offends he
    · rw [result_fieldSchema_of_embeds hf hpath]
      exact map_eq_error_iff.mpr ht

/-! ## What a message can come to -/

/-- The outcome of a message, from the outcomes of its fields inside it. -/
theorem result_messageSchema (c : Conversion) (path : List Declaration) (scope : List EnumType)
    (d : Declaration) :
    (c.messageSchema path scope d).result =
      (fun ts => c.policy.messageSchema (d.message.propertyTable ts)) <$>
        d.message.fields.mapM fun f => (c.fieldSchema (d :: path) scope f).result := by
  rw [messageSchema_eq, Logged.result_map, Message.result_properties]
  cases d.message.fields.mapM fun f => (c.fieldSchema (d :: path) scope f).result <;> rfl

variable {d : Declaration}

/-- A message succeeds when each of its fields does. -/
theorem messageSchema_eq_ok_iff {s : Schema} :
    (c.messageSchema path scope d).result = .ok s ↔
      ∃ ts, List.Forall₂ (fun f t => (c.fieldSchema (d :: path) scope f).result = .ok t)
          d.message.fields ts ∧
        s = c.policy.messageSchema (d.message.propertyTable ts) := by
  rw [result_messageSchema, map_eq_ok_iff]
  simp only [mapM_eq_ok_iff]

/-- A message fails as the first of its fields that fails. -/
theorem messageSchema_eq_error_iff {e : ConversionError} :
    (c.messageSchema path scope d).result = .error e ↔
      ∃ (i : Nat) (f : Field), d.message.fields[i]? = some f ∧
        (c.fieldSchema (d :: path) scope f).result = .error e ∧
        ∀ (j : Nat) (g : Field), j < i → d.message.fields[j]? = some g →
          ∃ s, (c.fieldSchema (d :: path) scope g).result = .ok s := by
  rw [result_messageSchema, map_eq_error_iff, mapM_eq_error_iff]

end Sorts

/-! ## The recursion -/

/-- What follows for a message from the messages that can be entered from it holds of every message
on every path. -/
theorem induction (c : Conversion) {motive : List Declaration → Declaration → Prop}
    (step : ∀ path d,
      (∀ f target, c.Embeds f target → target ∉ d :: path → motive (d :: path) target) →
        motive path d)
    (path : List Declaration) (d : Declaration) : motive path d :=
  step path d fun _ target hf hpath =>
    -- entering the target leaves one declaration fewer to enter
    have := unvisited_cons (Registry.mem_declarations_of_lookupType hf.2) hpath
    c.induction step (d :: path) target
termination_by (c.unvisited (d :: path)).length

end Conversion

end ProtoSchema
