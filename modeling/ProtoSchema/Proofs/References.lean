import Mathlib.Logic.Relation
import ProtoSchema.Proofs.Steps

/-!
# When a message converts

The declarations are the nodes of a graph, and each field that embeds a message is an edge to the
declaration that its type name resolves to. A message converts exactly when everything that can be
reached from it is well formed and lies on no cycle (`message_outcome`). That one declaration is
reached along several ways is no obstacle.

A field inside a message is known by its *address*: the index of the field to take from the
outermost message, the index of the field to take from the message that it embeds, and so on. The
order of addresses as lists of numbers (`Conversion.Precedes`) is the order in which the conversion
comes to the fields: depth first, and the fields of one message as they are declared. The failure of
a conversion is that of the first address at which a field offends (`Conversion.OffendsAt`).
-/

namespace ProtoSchema

namespace Conversion

/-! ## The graph

The graph is that of one conversion, as the names are read from its package. Nothing is said here of
paths or of an order.
-/

/-- One declaration refers to another when one of its fields embeds it. -/
def Refers (c : Conversion) (d e : Declaration) : Prop :=
  ∃ f ∈ d.message.fields, c.Embeds f e

/-- One declaration reaches another along references, or is that other. -/
def Reaches (c : Conversion) : Declaration → Declaration → Prop :=
  Relation.ReflTransGen c.Refers

/-- A declaration lies on a cycle of references. -/
def OnCycle (c : Conversion) (d : Declaration) : Prop :=
  Relation.TransGen c.Refers d d

/-- Every field of the declaration has a type, and every message that a field holds is there. -/
def WellFormed (c : Conversion) (d : Declaration) : Prop :=
  ∀ f ∈ d.message.fields, FieldKind.ofNumber? f.typeNumber ≠ none ∧
    (f.HoldsMessage → ∃ target, c.registry.lookupType c.package f.typeName = .ok target)

/-! ## Addresses

An offence is seen from the inside of some messages, since it depends on these whether a message is
recursive.
-/

/-- One address comes before another: by the first number in which they differ, or as the beginning
of it. -/
def Precedes (a b : List Nat) : Prop := List.Lex (· < ·) a b

theorem precedes_cons_iff {i j : Nat} {a b : List Nat} :
    Precedes (i :: a) (j :: b) ↔ i < j ∨ i = j ∧ Precedes a b :=
  List.cons_lex_cons_iff

theorem not_precedes_nil (a : List Nat) : ¬ Precedes a [] :=
  List.not_lex_nil

/-- Of two addresses one comes before the other, unless they are the same. -/
theorem eq_of_not_precedes {a b : List Nat} (hab : ¬ Precedes a b) (hba : ¬ Precedes b a) :
    a = b :=
  List.le_antisymm hba hab

/-- The field at the address offends, seen from a declaration inside the messages of the path. -/
inductive OffendsAt (c : Conversion) :
    List Declaration → Declaration → List Nat → ConversionError → Prop where
  /-- a field of the declaration itself -/
  | here {path : List Declaration} {d : Declaration} {i : Nat} {f : Field} {e : ConversionError}
    (hi : d.message.fields[i]? = some f) (h : c.Offends (d :: path) f e) :
    OffendsAt c path d [i] e
  /-- a field of a message that the declaration embeds -/
  | inside {path : List Declaration} {d target : Declaration} {i : Nat} {f : Field}
    {a : List Nat} {e : ConversionError} (hi : d.message.fields[i]? = some f)
    (hf : c.Embeds f target) (h : OffendsAt c (d :: path) target a e) :
    OffendsAt c path d (i :: a) e

/-- No field offends, seen from a declaration inside the messages of the path. -/
def Sound (c : Conversion) (path : List Declaration) (d : Declaration) : Prop :=
  ∀ a e, ¬ c.OffendsAt path d a e

variable {c : Conversion} {path : List Declaration} {d : Declaration}

/-- No address is empty: it begins with a field of the declaration. -/
theorem OffendsAt.exists_cons {a : List Nat} {e : ConversionError} (h : c.OffendsAt path d a e) :
    ∃ i b f, a = i :: b ∧ d.message.fields[i]? = some f := by
  cases h with
  | here hi h => exact ⟨_, _, _, rfl, hi⟩
  | inside hi hf h => exact ⟨_, _, _, rfl, hi⟩

/-- Below a field there is an offence when the field itself offends, or one inside the message that
it embeds does. -/
theorem offendsAt_cons_iff {i : Nat} {a : List Nat} {f : Field} {e : ConversionError}
    (hi : d.message.fields[i]? = some f) :
    c.OffendsAt path d (i :: a) e ↔ (a = [] ∧ c.Offends (d :: path) f e) ∨
      ∃ target, c.Embeds f target ∧ c.OffendsAt (d :: path) target a e := by
  refine ⟨?_, ?_⟩
  · intro h
    cases h with
    | here hi' h =>
      obtain rfl := Option.some.inj (hi.symm.trans hi')
      exact Or.inl ⟨rfl, h⟩
    | inside hi' hf h =>
      obtain rfl := Option.some.inj (hi.symm.trans hi')
      exact Or.inr ⟨_, hf, h⟩
  · rintro (⟨rfl, h⟩ | ⟨target, hf, h⟩)
    · exact .here hi h
    · exact .inside hi hf h

theorem Offends.unique {f : Field} {e e' : ConversionError} (h : c.Offends path f e)
    (h' : c.Offends path f e') : e = e' := by
  have hs : (c.fieldSchema path [] f).result = .error e := result_fieldSchema_of_offends h
  rw [result_fieldSchema_of_offends h'] at hs
  exact (Except.error.inj hs).symm

/-- A field that embeds a message offends only when the message is on the path. -/
theorem Offends.mem_of_embeds {f : Field} {e : ConversionError} {target : Declaration}
    (h : c.Offends path f e) (hf : c.Embeds f target) : target ∈ path := by
  cases h with
  | unrecognized h =>
    have hkind := hf.1.1
    rw [Field.kind, h] at hkind
    cases hkind
  | unresolved _ h =>
    have hl := hf.2
    rw [h] at hl
    cases hl
  | recursive hf' h =>
    rw [hf.unique hf']
    exact h

/-- At one address there is one offence. -/
theorem OffendsAt.unique {a : List Nat} {e e' : ConversionError} (h : c.OffendsAt path d a e)
    (h' : c.OffendsAt path d a e') : e = e' := by
  induction h with
  | here hi h =>
    rcases (offendsAt_cons_iff hi).mp h' with ⟨-, h'⟩ | ⟨target, -, h'⟩
    · exact h.unique h'
    · obtain ⟨_, _, _, hnil, -⟩ := h'.exists_cons
      cases hnil
  | inside hi hf h ih =>
    rcases (offendsAt_cons_iff hi).mp h' with ⟨rfl, -⟩ | ⟨target, hf', h'⟩
    · obtain ⟨_, _, _, hnil, -⟩ := h.exists_cons
      cases hnil
    · rw [hf.unique hf'] at ih
      exact ih h'

/-! ## What a message comes to

The induction is that of the conversion. Its invariant is on both outcomes at once, and it has the
order of the addresses in it, so that no failure has to be compared with those of other messages.
-/

/-- The offence at the first address, if there is any, is what a message comes to. -/
def Follows (c : Conversion) (path : List Declaration) (d : Declaration) :
    Except ConversionError Schema → Prop
  | .ok _ => c.Sound path d
  | .error e => ∃ a, c.OffendsAt path d a e ∧ ∀ b e', c.OffendsAt path d b e' → ¬ Precedes b a

/-- Nothing offends below a field that succeeds, if the messages inside follow the rule. -/
theorem sound_of_field_ok {scope : List EnumType} {f : Field} {i : Nat} {s : Schema}
    (ih : ∀ f target, c.Embeds f target → target ∉ d :: path →
      ∀ scope, c.Follows (d :: path) target (c.messageSchema (d :: path) scope target).result)
    (hi : d.message.fields[i]? = some f) (hs : (c.fieldSchema (d :: path) scope f).result = .ok s)
    (a : List Nat) (e : ConversionError) : ¬ c.OffendsAt path d (i :: a) e := by
  intro h
  rcases (offendsAt_cons_iff hi).mp h with ⟨-, h⟩ | ⟨target, hf, h⟩
  · rw [result_fieldSchema_of_offends h] at hs
    cases hs
  · have hpath : target ∉ d :: path := by
      intro hpath
      rw [result_fieldSchema_of_offends (.recursive hf hpath)] at hs
      cases hs
    rw [result_fieldSchema_of_embeds hf hpath, map_eq_ok_iff] at hs
    obtain ⟨t, ht, -⟩ := hs
    have hfollows := ih f target hf hpath (target.message.scopeWithin scope)
    rw [ht] at hfollows
    exact hfollows a e h

/-- A message succeeds when no field inside offends, and fails as the first one that does. -/
theorem follows_messageSchema (c : Conversion) (path : List Declaration) (d : Declaration) :
    ∀ scope, c.Follows path d (c.messageSchema path scope d).result := by
  refine c.induction (motive := fun path d => ∀ scope,
    c.Follows path d (c.messageSchema path scope d).result) (fun path d ih scope => ?_) path d
  rcases hs : (c.messageSchema path scope d).result with e | s
  · obtain ⟨i, f, hi, he, hbefore⟩ := messageSchema_eq_error_iff.mp hs
    -- an offence at a field before the failing one would have failed that field
    have hleast : ∀ {a : List Nat},
        (∀ b e', c.OffendsAt path d (i :: b) e' → ¬ Precedes b a) →
        ∀ b e', c.OffendsAt path d b e' → ¬ Precedes b (i :: a) := by
      intro a ha b e' hb
      obtain ⟨j, b, g, rfl, hj⟩ := hb.exists_cons
      rw [precedes_cons_iff]
      rintro (hlt | ⟨rfl, hprecedes⟩)
      · obtain ⟨t, ht⟩ := hbefore j g hlt hj
        exact sound_of_field_ok ih hj ht b e' hb
      · exact ha b e' hb hprecedes
    rcases fieldSchema_eq_error_iff.mp he with h | ⟨target, hf, hpath, ht⟩
    · exact ⟨[i], .here hi h, hleast fun b _ _ => not_precedes_nil b⟩
    · have hfollows := ih f target hf hpath (target.message.scopeWithin scope)
      rw [ht] at hfollows
      obtain ⟨a, ha, hmin⟩ := hfollows
      refine ⟨i :: a, .inside hi hf ha, hleast fun b e' hb => ?_⟩
      rcases (offendsAt_cons_iff hi).mp hb with ⟨-, h⟩ | ⟨target', hf', hb⟩
      · exact absurd (h.mem_of_embeds hf) hpath
      · obtain rfl := hf.unique hf'
        exact hmin b e' hb
  · intro a e h
    obtain ⟨i, b, f, rfl, hi⟩ := h.exists_cons
    obtain ⟨ts, hts, -⟩ := messageSchema_eq_ok_iff.mp hs
    obtain ⟨hlt, rfl⟩ := List.getElem?_eq_some_iff.mp hi
    have hlt' : i < ts.length := hts.length_eq ▸ hlt
    exact sound_of_field_ok ih hi (hts.get hlt hlt') b e h

theorem messageSchema_succeeds_iff (c : Conversion) (path : List Declaration)
    (scope : List EnumType) (d : Declaration) :
    (∃ s, (c.messageSchema path scope d).result = .ok s) ↔ c.Sound path d := by
  have hfollows := c.follows_messageSchema path d scope
  revert hfollows
  rcases (c.messageSchema path scope d).result with e | s <;> intro hfollows
  · obtain ⟨a, ha, -⟩ := hfollows
    exact ⟨fun ⟨s, hs⟩ => (by cases hs), fun h => absurd ha (h a e)⟩
  · exact ⟨fun _ => hfollows, fun _ => ⟨s, rfl⟩⟩

/-- A message fails with the offence at the first address, if there is any. -/
theorem messageSchema_fails_iff (c : Conversion) (path : List Declaration)
    (scope : List EnumType) (d : Declaration) (e : ConversionError) :
    (c.messageSchema path scope d).result = .error e ↔
      ∃ a, c.OffendsAt path d a e ∧ ∀ b e', c.OffendsAt path d b e' → ¬ Precedes b a := by
  have hfollows := c.follows_messageSchema path d scope
  refine ⟨?_, ?_⟩
  · intro h
    rw [h] at hfollows
    exact hfollows
  · rintro ⟨a, ha, hmin⟩
    revert hfollows
    rcases (c.messageSchema path scope d).result with e' | s <;> intro hfollows
    · obtain ⟨b, hb, hmin'⟩ := hfollows
      obtain rfl : a = b := eq_of_not_precedes (hmin' a e ha) (hmin b e' hb)
      rw [ha.unique hb]
    · exact absurd ha (hfollows a e)

/-! ## Offences and the graph

What is left is to leave the paths out. At the outermost message the path is empty, and on the way
inwards it is made of messages that lead to the current one.
-/

/-- From where nothing offends, a reference leads off the path to where nothing offends. -/
theorem Sound.refers {e : Declaration} (h : c.Sound path d) (he : c.Refers d e) :
    e ∉ d :: path ∧ c.Sound (d :: path) e := by
  obtain ⟨f, hmem, hf⟩ := he
  obtain ⟨i, hi⟩ := List.getElem?_of_mem hmem
  exact ⟨fun hpath => h _ _ (.here hi (.recursive hf hpath)),
    fun a err ha => h _ _ (.inside hi hf ha)⟩

theorem Sound.wellFormed (h : c.Sound path d) : c.WellFormed d := by
  intro f hmem
  obtain ⟨i, hi⟩ := List.getElem?_of_mem hmem
  refine ⟨fun hnumber => h _ _ (.here hi (.unrecognized hnumber)), fun hf => ?_⟩
  rcases hl : c.registry.lookupType c.package f.typeName with e | target
  · exact absurd (.here hi (.unresolved hf hl)) (h [i] _)
  · exact ⟨target, rfl⟩

theorem Sound.reaches {e : Declaration} (h : c.Sound path d) (he : c.Reaches d e) :
    ∃ path', c.Sound path' e := by
  induction he with
  | refl => exact ⟨path, h⟩
  | tail _ hstep ih =>
    obtain ⟨path', h'⟩ := ih
    exact ⟨_, (h'.refers hstep).2⟩

/-- From where nothing offends, no way along references comes back to the path. -/
theorem Sound.not_mem {e : Declaration} (he : Relation.TransGen c.Refers d e) :
    ∀ {path : List Declaration}, c.Sound path d → e ∉ d :: path := by
  induction he using Relation.TransGen.head_induction_on with
  | single hstep => exact fun h => (h.refers hstep).1
  | head hstep _ ih =>
    intro path h hmem
    exact ih (h.refers hstep).2 (List.mem_cons_of_mem _ hmem)

/-- Whatever offends has its cause within reach: a cycle, or a declaration that is not well formed,
and only a cycle makes a message recursive. The path matters only through this: whatever is on it
leads to where the conversion is now. -/
theorem OffendsAt.cause {a : List Nat} {err : ConversionError} (h : c.OffendsAt path d a err)
    (hpath : ∀ x ∈ path, Relation.TransGen c.Refers x d) :
    ∃ e, c.Reaches d e ∧
      (c.OnCycle e ∨ ¬ c.WellFormed e ∧ ∀ name, err ≠ .recursiveMessage name) := by
  induction h with
  | @here path d i f err hi h =>
    have hmem := List.mem_of_getElem? hi
    refine ⟨d, .refl, ?_⟩
    cases h with
    | unrecognized h => exact Or.inr ⟨fun hwell => (hwell f hmem).1 h, fun _ he => (by cases he)⟩
    | unresolved hf h =>
      refine Or.inr ⟨fun hwell => ?_, fun _ he => (by cases he)⟩
      obtain ⟨target, ht⟩ := (hwell f hmem).2 hf
      rw [h] at ht
      cases ht
    | @recursive target hf h =>
      -- the message is on the path, which leads here, and refers back to it
      have hstep : c.Refers d target := ⟨f, hmem, hf⟩
      rcases List.mem_cons.mp h with rfl | h
      · exact Or.inl (.single hstep)
      · exact Or.inl (.head hstep (hpath target h))
  | @inside path d target i f a err hi hf _ ih =>
    have hstep : c.Refers d target := ⟨f, List.mem_of_getElem? hi, hf⟩
    -- one step further the path leads to the message inside
    have hpath' : ∀ x ∈ d :: path, Relation.TransGen c.Refers x target := by
      intro x hx
      rcases List.mem_cons.mp hx with rfl | hx
      · exact .single hstep
      · exact .tail (hpath x hx) hstep
    obtain ⟨e, he, hcause⟩ := ih hpath'
    exact ⟨e, .head hstep he, hcause⟩

/-- Nothing offends inside an outermost message exactly when all that it reaches is well formed and
on no cycle. -/
theorem sound_nil_iff (c : Conversion) (d : Declaration) :
    c.Sound [] d ↔ ∀ e, c.Reaches d e → c.WellFormed e ∧ ¬ c.OnCycle e := by
  refine ⟨?_, ?_⟩
  · intro h e he
    obtain ⟨path, h'⟩ := h.reaches he
    exact ⟨h'.wellFormed, fun hcycle => Sound.not_mem hcycle h' List.mem_cons_self⟩
  · intro hgraph a err h
    obtain ⟨e, he, hcause⟩ := h.cause fun x hx => absurd hx List.not_mem_nil
    obtain ⟨hwell, hcycle⟩ := hgraph e he
    rcases hcause with h | ⟨h, -⟩
    · exact hcycle h
    · exact h hwell

/-! ## The theorem -/

/-- **When a message converts**: exactly when every declaration that it reaches is well formed and
lies on no cycle. Otherwise it fails as the field that offends at the first address, depth first and
in declaration order; and it fails as recursive only when there is a cycle within reach,
however often one declaration is reached along different ways. -/
theorem message_outcome (c : Conversion) (d : Declaration) (visible : List EnumType) :
    ((∃ s, (c.message d visible).result = .ok s) ↔
      (∀ e, c.Reaches d e → c.WellFormed e) ∧ ¬ ∃ e, c.Reaches d e ∧ c.OnCycle e) ∧
    (∀ err, (c.message d visible).result = .error err ↔
      ∃ a, c.OffendsAt [] d a err ∧ ∀ b err', c.OffendsAt [] d b err' → ¬ Precedes b a) ∧
    ∀ name, (c.message d visible).result = .error (.recursiveMessage name) →
      ∃ e, c.Reaches d e ∧ c.OnCycle e := by
  have hfails := c.messageSchema_fails_iff [] (d.message.outerScope visible) d
  refine ⟨?_, hfails, fun name h => ?_⟩
  · refine (c.messageSchema_succeeds_iff [] _ d).trans ((c.sound_nil_iff d).trans ?_)
    refine ⟨?_, ?_⟩
    · intro h
      exact ⟨fun e he => (h e he).1, fun ⟨e, he, hcycle⟩ => (h e he).2 hcycle⟩
    · rintro ⟨hwell, hcycle⟩ e he
      exact ⟨hwell e he, fun h => hcycle ⟨e, he, h⟩⟩
  · obtain ⟨a, ha, -⟩ := (hfails _).mp h
    obtain ⟨e, he, hcause⟩ := ha.cause fun x hx => absurd hx List.not_mem_nil
    rcases hcause with hcycle | ⟨-, hne⟩
    · exact ⟨e, he, hcycle⟩
    · exact absurd rfl (hne name)

end Conversion

end ProtoSchema
