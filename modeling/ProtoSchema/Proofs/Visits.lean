import ProtoSchema.Proofs.Accounts
import ProtoSchema.Proofs.Places

/-!
# The log of a message

The conversion of a message visits its fields, and inside a field that embeds a message the fields
of that message (`Conversion.VisitsAt`). A message is visited as often as there are ways to it, each
time with the enums in scope on that way.

The log of the conversion accounts for the visits (`Conversion.accounts_messageSchema`): it has a
line for each visit of an enum field whose enum is not found, and when a field fails, one line for
each field on the way back to the outermost message, all with the same text.

The relations on messages go inwards from the outermost message, and the log is put together the
other way, as each message is converted before the field around it. So there is a second form of
both relations, seen from a field (`Conversion.FieldMisses`, `Conversion.FieldFails`), and the
lemmas on rows of fields lead from the one to the other. The proof is then one on the parts of a
conversion: a field by itself, a field around a message, and the row of the fields of a message.
-/

namespace ProtoSchema

/-- The field holds an enum, but no enum in scope has a name that ends its type name. -/
def Visit.Unmatched (v : Visit) : Prop :=
  v.field.kind = .ok .enumeration ∧
    ∀ e ∈ v.scope, ¬ e.name.toList <:+ v.field.typeName.toList

theorem matchEnum_eq_none_iff {scope : List EnumType} {typeName : String} :
    matchEnum scope typeName = none ↔ ∀ e ∈ scope, ¬ e.name.toList <:+ typeName.toList := by
  simp only [matchEnum, EnumType.fits, List.find?_eq_none, List.isSuffixOf_iff_suffix]

/-- The fields are converted in their order, and the table is made of the results; a failure is told
behind the events of its field. -/
theorem Message.properties_eq (m : Message) (convert : Field → Logged ConversionError Schema) :
    m.properties convert = sortedTable <$> m.fields.mapM fun f =>
      (fun s => (f.propertyName, s)) <$> (convert f).onFailure (.fieldFailed f.name m.name) := by
  simp only [properties, bind_pure_comp]

namespace Conversion

/-! ## Visits

A visit is told with the trail that leads to it, the field itself first, because the lines of a
failure name each field and the message that it belongs to.
-/

/-- The conversion of a declaration with these enums in scope visits a field at the address. -/
inductive VisitsAt (c : Conversion) :
    List EnumType → Declaration → List Nat → Visit → Prop where
  /-- a field of the declaration itself -/
  | here {scope : List EnumType} {d : Declaration} {i : Nat} {f : Field}
    (hi : d.message.fields[i]? = some f) :
    VisitsAt c scope d [i] ⟨f, scope, [(f, d.message)]⟩
  /-- a field of a message that the declaration embeds -/
  | inside {scope : List EnumType} {d target : Declaration} {i : Nat} {f : Field} {a : List Nat}
    {v : Visit} (hi : d.message.fields[i]? = some f) (hf : c.Embeds f target)
    (h : VisitsAt c (target.message.scopeWithin scope) target a v) :
    VisitsAt c scope d (i :: a) (v.within f d.message)

/-- The conversion comes to an enum field whose enum is not found. -/
def MissesAt (c : Conversion) (scope : List EnumType) (d : Declaration) (a : List Nat)
    (v : Visit) : Prop :=
  c.VisitsAt scope d a v ∧ v.Unmatched

/-- The conversion fails at a field with these lines. -/
def FailsAt (c : Conversion) (path : List Declaration) (scope : List EnumType) (d : Declaration)
    (a : List Nat) (e : ConversionError) (es : List Entry) : Prop :=
  c.OffendsAt path d a e ∧ ∃ v, c.VisitsAt scope d a v ∧ es = v.failures e.message

/-- At this address of the field, seen from the field itself, an enum is not found. -/
def FieldMisses (c : Conversion) (scope : List EnumType) (m : Message) (f : Field) (a : List Nat)
    (v : Visit) : Prop :=
  a = [] ∧ v = ⟨f, scope, [(f, m)]⟩ ∧ v.Unmatched ∨
    ∃ target, c.Embeds f target ∧
      ∃ w, c.MissesAt (target.message.scopeWithin scope) target a w ∧ v = w.within f m

/-- At this address of the field, seen from the field itself, the conversion fails with these lines
before that of the field. -/
def FieldFails (c : Conversion) (path : List Declaration) (scope : List EnumType) (f : Field)
    (a : List Nat) (e : ConversionError) (es : List Entry) : Prop :=
  a = [] ∧ c.Offends path f e ∧ es = [] ∨
    ∃ target, c.Embeds f target ∧ c.FailsAt path (target.message.scopeWithin scope) target a e es

variable {c : Conversion} {path : List Declaration} {scope : List EnumType} {d : Declaration}

theorem VisitsAt.exists_cons {a : List Nat} {v : Visit} (h : c.VisitsAt scope d a v) :
    ∃ i b f, a = i :: b ∧ d.message.fields[i]? = some f := by
  cases h with
  | here hi => exact ⟨_, _, _, rfl, hi⟩
  | inside hi hf h => exact ⟨_, _, _, rfl, hi⟩

/-- Below a field the visits are that of the field and those inside the message that it embeds. -/
theorem visitsAt_cons_iff {i : Nat} {a : List Nat} {f : Field} {v : Visit}
    (hi : d.message.fields[i]? = some f) :
    c.VisitsAt scope d (i :: a) v ↔ (a = [] ∧ v = ⟨f, scope, [(f, d.message)]⟩) ∨
      ∃ target, c.Embeds f target ∧
        ∃ w, c.VisitsAt (target.message.scopeWithin scope) target a w ∧
          v = w.within f d.message := by
  constructor
  · intro h
    cases h with
    | here hi' =>
      obtain rfl := Option.some.inj (hi.symm.trans hi')
      exact Or.inl ⟨rfl, rfl⟩
    | inside hi' hf h =>
      obtain rfl := Option.some.inj (hi.symm.trans hi')
      exact Or.inr ⟨_, hf, _, h, rfl⟩
  · rintro (⟨rfl, rfl⟩ | ⟨target, hf, w, hw, rfl⟩)
    · exact .here hi
    · exact .inside hi hf hw

/-! ## Rows of fields

The number in front of an address says which field it is in.
-/

/-- What is missed below a field is what is missed at the field, seen from there. -/
theorem missesAt_cons_iff {i : Nat} {a : List Nat} {f : Field} {v : Visit}
    (hi : d.message.fields[i]? = some f) :
    c.MissesAt scope d (i :: a) v ↔ c.FieldMisses scope d.message f a v := by
  rw [MissesAt, visitsAt_cons_iff hi, FieldMisses]
  constructor
  · rintro ⟨⟨rfl, rfl⟩ | ⟨target, hf, w, hw, rfl⟩, hnone⟩
    · exact Or.inl ⟨rfl, rfl, hnone⟩
    · exact Or.inr ⟨target, hf, w, ⟨hw, hnone⟩, rfl⟩
  · rintro (⟨rfl, rfl, hnone⟩ | ⟨target, hf, w, ⟨hw, hnone⟩, rfl⟩)
    · exact ⟨Or.inl ⟨rfl, rfl⟩, hnone⟩
    · exact ⟨Or.inr ⟨target, hf, w, hw, rfl⟩, hnone⟩

/-- What a message misses is what its fields miss, in a row. -/
theorem inRow_misses_iff {a : List Nat} {v : Visit} :
    InRow d.message.fields (fun f b => c.FieldMisses scope d.message f b v) a ↔
      c.MissesAt scope d a v := by
  constructor
  · rintro ⟨i, b, f, rfl, hi, h⟩
    exact (missesAt_cons_iff hi).mpr h
  · intro h
    obtain ⟨i, b, f, rfl, hi⟩ := h.1.exists_cons
    exact ⟨i, b, f, rfl, hi, (missesAt_cons_iff hi).mp h⟩

/-- Below a field the conversion fails with the lines from there, and then that of the field. -/
theorem failsAt_cons_iff {i : Nat} {a : List Nat} {f : Field} {e : ConversionError}
    {es : List Entry} (hi : d.message.fields[i]? = some f) :
    c.FailsAt path scope d (i :: a) e es ↔
      ∃ inner, c.FieldFails (d :: path) scope f a e inner ∧
        es = inner ++ [(Event.fieldFailed f.name d.message.name e).entry] := by
  rw [FailsAt, offendsAt_cons_iff hi]
  simp only [visitsAt_cons_iff hi]
  constructor
  · rintro ⟨⟨rfl, h⟩ | ⟨target, hf, h⟩, v, ⟨ha, rfl⟩ | ⟨target', hf', w, hw, rfl⟩, rfl⟩
    · exact ⟨[], Or.inl ⟨rfl, h, rfl⟩, rfl⟩
    · obtain ⟨_, _, _, hnil, -⟩ := hw.exists_cons
      cases hnil
    · obtain ⟨_, _, _, rfl, -⟩ := h.exists_cons
      cases ha
    · obtain rfl := hf.unique hf'
      exact ⟨_, Or.inr ⟨target, hf, h, w, hw, rfl⟩, w.failures_within f d.message e⟩
  · rintro ⟨inner, ⟨rfl, h, rfl⟩ | ⟨target, hf, h, w, hw, rfl⟩, rfl⟩
    · exact ⟨Or.inl ⟨rfl, h⟩, _, Or.inl ⟨rfl, rfl⟩, rfl⟩
    · exact ⟨Or.inr ⟨target, hf, h⟩, _, Or.inr ⟨target, hf, w, hw, rfl⟩,
        (w.failures_within f d.message e).symm⟩

/-- A message fails as its fields do, each with its own line behind those from inside. -/
theorem inRow_fails_iff {a : List Nat} {e : ConversionError} {es : List Entry} :
    InRow d.message.fields (fun f b => ∃ inner, c.FieldFails (d :: path) scope f b e inner ∧
        es = inner ++ [(Event.fieldFailed f.name d.message.name e).entry]) a ↔
      c.FailsAt path scope d a e es := by
  constructor
  · rintro ⟨i, b, f, rfl, hi, h⟩
    exact (failsAt_cons_iff hi).mpr h
  · intro h
    obtain ⟨i, b, f, rfl, hi⟩ := h.1.exists_cons
    exact ⟨i, b, f, rfl, hi, (failsAt_cons_iff hi).mp h⟩

/-! ## One field

A field is converted on the spot, or embeds a message off the path, or offends.
-/

section Fields

variable {f : Field} {keep : Entry → Bool}

/-- A field that is converted on the spot tells when it holds an enum that is not found. -/
theorem accounts_fieldSchema_of_element {kind : FieldKind} {s : Schema}
    (hkeep : ∀ entry : Entry, entry.level ≠ .info → keep entry = true) (m : Message)
    (hkind : f.kind = .ok kind) (hs : f.element? c.policy scope kind = some s) :
    Accounts keep (c.FieldMisses scope m f) (c.FieldFails path scope f)
      (c.fieldSchema path scope f) := by
  -- nothing is embedded, so that only the field itself can be missed
  have hplain : ∀ target, ¬ c.Embeds f target := fun _ hf =>
    not_holdsMessage_of_element hkind hs hf.1
  have hresult : (c.fieldSchema path scope f).result = .ok (f.ofElement c.policy s) :=
    result_fieldSchema_of_element hkind hs
  have hsound : ∀ a e es, ¬ c.FieldFails path scope f a e es := by
    rintro a e es (⟨-, h, -⟩ | ⟨target, hf, -⟩)
    · rw [result_fieldSchema_of_offends h] at hresult
      cases hresult
    · exact hplain target hf
  have hmisses : ∀ a v, c.FieldMisses scope m f a v ↔
      a = [] ∧ v = ⟨f, scope, [(f, m)]⟩ ∧ v.Unmatched := fun a v =>
    or_iff_left fun ⟨target, hf, _⟩ => hplain target hf
  -- the field has one event, or none
  by_cases hmissed : Visit.Unmatched ⟨f, scope, [(f, m)]⟩
  · have hevents : (c.fieldSchema path scope f).events = [.enumNotMatched f.name f.typeName] := by
      rw [fieldSchema, Field.schema, hmissed.1]
      simp only [matchEnum_eq_none_iff.mpr hmissed.2]
      rfl
    refine .ok hresult hsound ((Lists.singleton [] ⟨f, scope, [(f, m)]⟩).congr fun a v => ?_) ?_
    · rw [hmisses]
      exact and_congr_right fun _ => ⟨fun h => ⟨h, h ▸ hmissed⟩, And.left⟩
    · rw [hevents, told_singleton (hkeep _ Level.noConfusion)]
      rfl
  · have hevents : (c.fieldSchema path scope f).events = [] := by
      rw [fieldSchema, Field.schema, hkind]
      cases kind with
      | enumeration =>
        obtain ⟨e, he⟩ : ∃ e, matchEnum scope f.typeName = some e := by
          refine Option.ne_none_iff_exists'.mp fun hnone => ?_
          exact hmissed ⟨hkind, matchEnum_eq_none_iff.mp hnone⟩
        simp only [he]
        rfl
      | message =>
        have hwell : wellKnown f.typeName = some s := hs
        simp only [hwell]
        rfl
      | _ => rfl
    refine .ok hresult hsound (.nil fun a v => ?_) ?_
    · rw [hmisses]
      rintro ⟨-, rfl, h⟩
      exact hmissed h
    · rw [hevents]
      rfl

/-- A field that embeds a message off the path is converted around it. -/
theorem fieldSchema_of_embeds {target : Declaration} (hf : c.Embeds f target)
    (hpath : target ∉ path) :
    c.fieldSchema path scope f = f.ofMessage c.policy <$>
      c.messageSchema path (target.message.scopeWithin scope) target := by
  rw [fieldSchema, Field.schema, hf.1.1]
  simp only [wellKnown_eq_none_iff.mpr hf.1.2, embed, hf.2, hpath, if_false]

/-- A field that fails by itself does nothing else. -/
theorem fieldSchema_of_offends {e : ConversionError} (h : c.Offends path f e) :
    c.fieldSchema path scope f = .fail e := by
  rw [fieldSchema, Field.schema]
  cases h with
  | unrecognized h => simp only [Field.kind, h]
  | unresolved hf h =>
    simp only [hf.1, wellKnown_eq_none_iff.mpr hf.2, embed, h]
    rfl
  | recursive hf h =>
    simp only [hf.1.1, wellKnown_eq_none_iff.mpr hf.1.2, embed, hf.2, h, if_true]
    rfl

/-- A field accounts for itself, if the message that it embeds does. -/
theorem accounts_fieldSchema (hkeep : ∀ entry : Entry, entry.level ≠ .info → keep entry = true)
    (m : Message)
    (ih : ∀ target, c.Embeds f target → target ∉ path → ∀ scope,
      Accounts keep (c.MissesAt scope target) (c.FailsAt path scope target)
        (c.messageSchema path scope target)) :
    Accounts keep (c.FieldMisses scope m f) (c.FieldFails path scope f)
      (c.fieldSchema path scope f) := by
  rcases c.field_sorts path scope f with ⟨kind, s, hkind, hs⟩ | ⟨target, hf, hpath⟩ | ⟨e, he⟩
  · exact accounts_fieldSchema_of_element hkeep m hkind hs
  · rw [fieldSchema_of_embeds hf hpath]
    refine ((ih target hf hpath _).mapVisits (g := (·.within f m)) fun _ => rfl).map _ |>.congr
      (fun a v => ?_) fun a e es => ?_
    · constructor
      · exact fun h => Or.inr ⟨target, hf, h⟩
      · rintro (⟨-, rfl, hkind, -⟩ | ⟨target', hf', h⟩)
        · cases hkind.symm.trans hf.1.1
        · rwa [hf.unique hf']
    · constructor
      · exact fun h => Or.inr ⟨target, hf, h⟩
      · rintro (⟨-, h, -⟩ | ⟨target', hf', h⟩)
        · exact absurd (h.mem_of_embeds hf) hpath
        · rwa [hf.unique hf']
  · rw [fieldSchema_of_offends he]
    exact .fail (Or.inl ⟨rfl, he, rfl⟩)

end Fields

/-! ## One message

The accounts of the fields are put together by the lemma for rows, and the failure of a field gets
its line on the way out.
-/

/-- **The log of a message.** It has a line for each visit of a field that holds an enum which is
not found, in the order of the visits, up to the first field that offends; there it has a line for
each field on the way back, the innermost first. -/
theorem accounts_messageSchema {keep : Entry → Bool}
    (hkeep : ∀ entry : Entry, entry.level ≠ .info → keep entry = true) (c : Conversion)
    (path : List Declaration) (d : Declaration) : ∀ scope,
      Accounts keep (c.MissesAt scope d) (c.FailsAt path scope d)
        (c.messageSchema path scope d) := by
  refine c.induction (motive := fun path d => ∀ scope, Accounts keep (c.MissesAt scope d)
    (c.FailsAt path scope d) (c.messageSchema path scope d)) (fun path d ih scope => ?_) path d
  rw [messageSchema_eq, Message.properties_eq]
  have hfield : ∀ f ∈ d.message.fields, Accounts keep (c.FieldMisses scope d.message f)
      (fun a e es => ∃ inner, c.FieldFails (d :: path) scope f a e inner ∧
        es = inner ++ [(Event.fieldFailed f.name d.message.name e).entry])
      ((fun s => (f.propertyName, s)) <$>
        (c.fieldSchema (d :: path) scope f).onFailure (.fieldFailed f.name d.message.name)) := by
    intro f _
    have hschema : Accounts keep (c.FieldMisses scope d.message f)
        (c.FieldFails (d :: path) scope f) (c.fieldSchema (d :: path) scope f) :=
      accounts_fieldSchema hkeep d.message (ih f)
    exact (hschema.onFailure fun e => hkeep _ Level.noConfusion).map _
  have hrow := (Accounts.mapM hfield).congr (fun _ _ => inRow_misses_iff) fun _ _ _ =>
    inRow_fails_iff
  exact (hrow.map _).map _

end Conversion

end ProtoSchema
