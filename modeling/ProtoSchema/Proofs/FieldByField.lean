import ProtoSchema.Proofs.Nodes

/-!
# Field by field

A message can be converted as a whole, and each of its fields can be converted alone, in the name of
the message. Both see the same enums, and to both the message itself is what they are inside of. So
the message converts exactly when each field does, it fails as the first field that fails, and
otherwise its properties are what the fields come to (`Conversion.message_field_by_field`).

Several fields may become one property, for instance when the JSON name that one declares is what
the name of another is in lower camel case. The property is the last of these. No field is left out
for it: the earlier ones are converted as well, and can fail.

The conversion of a field alone is the same call that the message makes, so that what is known of
the calls (`Conversion.messageSchema_eq_ok_iff`, `Conversion.messageSchema_eq_error_iff`) is all
that is needed. What is left is to put the first failure, and the last field of a name, as a row
with something before it and something behind.
-/

namespace ProtoSchema

/-! ## The first and the last of a row

The definitions look for an index or through a reversed list; a reader of the theorem looks at a row
that is cut in two.
-/

/-- The first place of a row with a property is behind a beginning without. -/
theorem exists_first_iff_append {α : Type} {P Q : α → Prop} {xs : List α} :
    (∃ (i : Nat) (x : α), xs[i]? = some x ∧ P x ∧
        ∀ (j : Nat) (y : α), j < i → xs[j]? = some y → Q y) ↔
      ∃ before x after, xs = before ++ x :: after ∧ P x ∧ ∀ y ∈ before, Q y := by
  constructor
  · rintro ⟨i, x, hi, hx, hbefore⟩
    obtain ⟨hlt, rfl⟩ := List.getElem?_eq_some_iff.mp hi
    refine ⟨xs.take i, xs[i], xs.drop (i + 1), ?_, hx, fun y hy => ?_⟩
    · rw [← List.drop_eq_getElem_cons hlt, List.take_append_drop]
    · obtain ⟨j, hj, rfl⟩ := List.mem_take_iff_getElem.mp hy
      exact hbefore j _ (by omega) (List.getElem?_eq_getElem (by omega))
  · rintro ⟨before, x, after, rfl, hx, hbefore⟩
    refine ⟨before.length, x, ?_, hx, fun j y hj hy => ?_⟩
    · rw [List.getElem?_append_right (Nat.le_refl _), Nat.sub_self]
      rfl
    · rw [List.getElem?_append_left hj] at hy
      exact hbefore y (List.mem_of_getElem? hy)

/-- The field of a property is the one that no other of its name follows. -/
theorem Message.fieldNamed_of_append {m : Message} {before after : List Field} {f : Field}
    (h : m.fields = before ++ f :: after)
    (hafter : ∀ g ∈ after, g.propertyName ≠ f.propertyName) :
    m.fieldNamed f.propertyName = some f := by
  have hnone : after.reverse.find? (·.propertyName = f.propertyName) = none := by
    rw [List.find?_eq_none]
    intro g hg
    simpa using hafter g (List.mem_reverse.mp hg)
  rw [fieldNamed, h, List.findRev?_eq_find?_reverse, List.reverse_append, List.reverse_cons,
    List.append_assoc, List.find?_append, hnone, Option.none_or]
  exact List.find?_cons_of_pos (decide_eq_true rfl)

/-- There is no field for a name that no field of the message has. -/
theorem Message.fieldNamed_eq_none_iff {m : Message} {name : String} :
    m.fieldNamed name = none ↔ ∀ f ∈ m.fields, f.propertyName ≠ name := by
  rw [fieldNamed, List.findRev?_eq_find?_reverse, List.find?_eq_none]
  simp only [List.mem_reverse, decide_eq_true_eq, ne_eq]

/-- A name is in a table when something is found under it. -/
theorem mem_names_iff {α : Type} {t : List (String × α)} {name : String} :
    name ∈ t.map (·.1) ↔ t.lookup name ≠ none := by
  rw [ne_eq, List.lookup_eq_none_iff, List.mem_map]
  simp only [bne_iff_ne, not_forall, ne_eq, not_not, exists_prop]
  exact ⟨fun ⟨e, he, heq⟩ => ⟨e, he, heq.symm⟩, fun ⟨e, he, heq⟩ => ⟨e, he, heq.symm⟩⟩

namespace Conversion

variable {c : Conversion} {d : Declaration} {visible : List EnumType} {s : Schema}

/-- A message succeeds when each of its fields does alone. -/
theorem message_eq_ok_iff : (c.message d visible).result = .ok s ↔
    ∃ ts, List.Forall₂ (fun f t => (c.field d f visible).result = .ok t) d.message.fields ts ∧
      s = c.policy.messageSchema (d.message.propertyTable ts) :=
  messageSchema_eq_ok_iff

/-- Under each name stands what the field of that name comes to alone. -/
theorem lookup_properties (hs : (c.message d visible).result = .ok s) (name : String) :
    Option.Rel (fun f t => (c.field d f visible).result = .ok t) (d.message.fieldNamed name)
      (s.properties.lookup name) := by
  obtain ⟨ts, hts, rfl⟩ := message_eq_ok_iff.mp hs
  exact Message.lookup_propertyTable hts name

/-- The properties of a message are named for its fields. -/
theorem mem_names_properties_iff (hs : (c.message d visible).result = .ok s) (name : String) :
    name ∈ s.properties.map (·.1) ↔ ∃ f ∈ d.message.fields, f.propertyName = name := by
  have hlookup := lookup_properties hs name
  have hnone : s.properties.lookup name = none ↔ d.message.fieldNamed name = none := by
    generalize s.properties.lookup name = t at hlookup
    generalize d.message.fieldNamed name = f at hlookup
    cases hlookup <;> simp
  rw [mem_names_iff, ne_eq, hnone, Message.fieldNamed_eq_none_iff]
  simp only [ne_eq, not_forall, not_not, exists_prop]

/-- **A message field by field.** It converts exactly when each of its fields does alone, and
otherwise it fails as the first of them that fails. When it converts, it is the object of its
properties; these stand in the order of their names, and the names are the JSON names of the fields.
Each property is what the last field of that name comes to alone. -/
theorem message_field_by_field (c : Conversion) (d : Declaration) (visible : List EnumType) :
    ((∃ s, (c.message d visible).result = .ok s) ↔
      ∀ f ∈ d.message.fields, ∃ t, (c.field d f visible).result = .ok t) ∧
    (∀ e, (c.message d visible).result = .error e ↔
      ∃ before f after, d.message.fields = before ++ f :: after ∧
        (c.field d f visible).result = .error e ∧
        ∀ g ∈ before, ∃ t, (c.field d g visible).result = .ok t) ∧
    ∀ s, (c.message d visible).result = .ok s →
      s = c.policy.messageSchema s.properties ∧
      (s.properties.map (·.1)).Pairwise (· < ·) ∧
      (∀ name, name ∈ s.properties.map (·.1) ↔ ∃ f ∈ d.message.fields, f.propertyName = name) ∧
      ∀ before f after, d.message.fields = before ++ f :: after →
        (∀ g ∈ after, g.propertyName ≠ f.propertyName) →
        ∃ t, (c.field d f visible).result = .ok t ∧
          s.properties.lookup f.propertyName = some t := by
  refine ⟨?_, fun e => ?_, fun s hs => ⟨?_, ?_, mem_names_properties_iff hs,
    fun before f after hfields hafter => ?_⟩⟩
  · rw [← exists_mapM_eq_ok_iff]
    simp only [message_eq_ok_iff, mapM_eq_ok_iff]
    exact ⟨fun ⟨_, ts, hts, _⟩ => ⟨ts, hts⟩, fun ⟨ts, hts⟩ => ⟨_, ts, hts, rfl⟩⟩
  · rw [← exists_first_iff_append]
    exact messageSchema_eq_error_iff
  · obtain ⟨ts, -, rfl⟩ := message_eq_ok_iff.mp hs
    rfl
  · obtain ⟨ts, -, rfl⟩ := message_eq_ok_iff.mp hs
    exact List.pairwise_map.mpr (ascending_sortedTable _)
  · have hlookup := lookup_properties hs f.propertyName
    rw [Message.fieldNamed_of_append hfields hafter] at hlookup
    generalize s.properties.lookup f.propertyName = found at hlookup
    obtain ⟨ht⟩ := hlookup
    exact ⟨_, ht, rfl⟩

end Conversion

/-! ### A dimmer -/

namespace Dimmer

/-- A number, whose property has the name of the field in lower camel case. -/
def power : Field := { name := "max_power", typeNumber := 5 }

/-- A text, whose JSON name is the same. -/
def limit : Field := { name := "limit", jsonName := "maxPower", typeNumber := 9 }

/-- A dimmer has both fields. -/
def dimmer : Declaration := ⟨[0, 0], { name := "Dimmer", fields := [power, limit] }⟩

/-- The conversion of a dimmer under the policy that allows all but null. -/
def conversion : Conversion where
  registry := Registry.empty
  package := Registry.root
  policy := .allButNull

theorem propertyName_power : power.propertyName = "maxPower" := by decide +kernel

end Dimmer

open Dimmer in
/-- A dimmer has one property, the text, which comes last. -/
theorem Conversion.message_field_by_field_dimmer :
    ∃ s, (conversion.message dimmer []).result = .ok s ∧
      (∀ name, name ∈ s.properties.map (·.1) ↔ name = "maxPower") ∧
      s.properties.lookup "maxPower" = some { type := some .string } := by
  obtain ⟨hsucceeds, -, hproperties⟩ := message_field_by_field conversion dimmer []
  have hpower : (conversion.field dimmer power []).result = .ok { type := some .integer } := rfl
  have hlimit : (conversion.field dimmer limit []).result = .ok { type := some .string } := rfl
  have hfields : ∀ f ∈ dimmer.message.fields,
      ∃ t, (conversion.field dimmer f []).result = .ok t := by
    intro f hf
    rcases List.mem_pair.mp hf with rfl | rfl
    · exact ⟨_, hpower⟩
    · exact ⟨_, hlimit⟩
  obtain ⟨s, hs⟩ := hsucceeds.mpr hfields
  obtain ⟨-, -, hnames, hlast⟩ := hproperties s hs
  obtain ⟨t, ht, hlookup⟩ := hlast [power] limit [] rfl fun _ hg => absurd hg List.not_mem_nil
  obtain rfl := Except.ok.inj (hlimit.symm.trans ht)
  refine ⟨s, hs, fun name => ?_, hlookup⟩
  rw [hnames]
  constructor
  · rintro ⟨f, hf, rfl⟩
    rcases List.mem_pair.mp hf with rfl | rfl
    · exact propertyName_power
    · rfl
  · rintro rfl
    exact ⟨limit, List.mem_cons_of_mem _ List.mem_cons_self, rfl⟩

end ProtoSchema
