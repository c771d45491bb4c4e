import ProtoSchema.Proofs.References

/-!
# Accounts of a computation

What a computation does is a matter of *addresses*: it comes to the places at the addresses in their
order, up to the first at which it fails. A log accounts for it when it has a line for each of those
places at which something is missed, in the same order, and behind them the lines of the failure
(`Accounts`).

An account has two cases. Either nothing fails, and then all that is missed is in the log; or there
is a first address at which something fails, and then only what is missed before it is in the log,
and the lines of that failure come last. In both cases the lines are compared as a whole and not one
by one, so that neither their number nor their order is left open.

Computations are put together in rows and each adds a number in front of the addresses of its parts
(`InRow`). The lemmas of this module say that a computation accounts for itself when its parts do:

* `Accounts.map`, `Accounts.mapError`, `Accounts.onFailure` and `Accounts.tell` for one part;
* `Accounts.andThen` for a part behind another, where all addresses of the second come later;
* `Accounts.mapM` for a row, by induction from the two before.

Nothing here speaks of messages or files. What is missed and what fails are relations that the
modules on visits and on the log fill in.
-/

namespace ProtoSchema

open Conversion (Precedes precedes_cons_iff not_precedes_nil)

/-- Of two addresses only one comes before the other. -/
theorem not_precedes_of_precedes {a b : List Nat} (h : Precedes a b) : ¬ Precedes b a :=
  List.lt_asymm h

/-! ## Lines of the log

An event is more than its line: it has the failure itself, where the line has only its text.
Accounts are about lines, so that two events which read alike count as one.
-/

/-- A line of the log. -/
structure Entry where
  /-- how serious it is -/
  level : Level
  /-- what it says -/
  message : String
  /-- its named details -/
  details : List (String × String)
  deriving DecidableEq

/-- The line that tells an event. -/
def Event.entry (e : Event) : Entry := ⟨e.level, e.message, e.details⟩

/-- The lines of a kind that tell the events. -/
def told (keep : Entry → Bool) (events : List Event) : List Entry :=
  (events.map Event.entry).filter keep

@[simp] theorem told_nil (keep : Entry → Bool) : told keep [] = [] := rfl

@[simp] theorem told_append (keep : Entry → Bool) (as bs : List Event) :
    told keep (as ++ bs) = told keep as ++ told keep bs := by
  rw [told, List.map_append, List.filter_append]
  rfl

/-- An event of the kind that is kept has one line. -/
theorem told_singleton {keep : Entry → Bool} {e : Event} (h : keep e.entry = true) :
    told keep [e] = [e.entry] :=
  List.filter_cons_of_pos h

/-- An event of another kind leaves no line. -/
theorem told_singleton_of_not {keep : Entry → Bool} {e : Event} (h : keep e.entry = false) :
    told keep [e] = [] :=
  List.filter_cons_of_neg (by simp [h])

/-! ## Visits

A visit is a field together with what has to be known to tell what happens there. The trail leads
outwards, as the lines of a failure are written from the inside to the outside.
-/

/-- A field that a conversion comes to. -/
structure Visit where
  /-- the field -/
  field : Field
  /-- the enums in scope there -/
  scope : List EnumType
  /-- the field with its message, the field around that message with its own, and so on outwards -/
  trail : List (Field × Message)

/-- The line for a field whose enum was not found. -/
def Visit.warning (v : Visit) : Entry :=
  ⟨.warn, "could not find matching enum",
    [("field", v.field.name), ("type_name", v.field.typeName)]⟩

/-- The lines for a field that fails with that text, the innermost message first. -/
def Visit.failures (v : Visit) (text : String) : List Entry :=
  v.trail.map fun (f, m) => ⟨.error, "failed to convert field",
    [("field", f.name), ("message_name", m.name), ("error", text)]⟩

/-- The visit of a field inside the message that a field of another message embeds. -/
def Visit.within (v : Visit) (f : Field) (m : Message) : Visit :=
  { v with trail := v.trail ++ [(f, m)] }

/-- Around a message that fails, the field that embeds it fails with the same text. -/
theorem Visit.failures_within (v : Visit) (f : Field) (m : Message) (e : ConversionError) :
    (v.within f m).failures e.message =
      v.failures e.message ++ [(Event.fieldFailed f.name m.name e).entry] := by
  rw [failures, within, List.map_append]
  rfl

/-- These are the visits with the property, each at its address, in the order of the addresses. -/
structure Lists (P : List Nat → Visit → Prop) (visits : List (List Nat × Visit)) : Prop where
  /-- they stand in order -/
  ordered : visits.Pairwise fun v w => Precedes v.1 w.1
  /-- they are those with the property -/
  mem_iff : ∀ a v, (a, v) ∈ visits ↔ P a v

namespace Lists

variable {P Q : List Nat → Visit → Prop} {visits others : List (List Nat × Visit)}

/-- A list is one of whatever has the same visits. -/
theorem congr (h : Lists P visits) (hpq : ∀ a v, P a v ↔ Q a v) : Lists Q visits :=
  ⟨h.ordered, fun a v => (h.mem_iff a v).trans (hpq a v)⟩

/-- Where nothing has the property, the list is empty. -/
theorem nil (h : ∀ a v, ¬ P a v) : Lists P [] :=
  ⟨.nil, fun a v => iff_of_false List.not_mem_nil (h a v)⟩

theorem singleton (a : List Nat) (v : Visit) :
    Lists (fun b w => b = a ∧ w = v) [(a, v)] :=
  ⟨List.pairwise_singleton _ _, fun b w => by rw [List.mem_singleton, Prod.mk.injEq]⟩

/-- A number in front of all addresses keeps their order. -/
theorem under (h : Lists P visits) (k : Nat) :
    Lists (fun a v => ∃ b, a = k :: b ∧ P b v) (visits.map fun w => (k :: w.1, w.2)) := by
  refine ⟨?_, fun a v => ?_⟩
  · rw [List.pairwise_map]
    exact h.ordered.imp fun hprecedes => precedes_cons_iff.mpr (Or.inr ⟨rfl, hprecedes⟩)
  · rw [List.mem_map]
    constructor
    · rintro ⟨⟨b, w⟩, hmem, heq⟩
      obtain ⟨rfl, rfl⟩ := Prod.mk.inj heq
      exact ⟨b, rfl, (h.mem_iff b w).mp hmem⟩
    · rintro ⟨b, rfl, hb⟩
      exact ⟨(b, v), (h.mem_iff b v).mpr hb, rfl⟩

/-- What is visited may be looked at from further outside. -/
theorem map (h : Lists P visits) (g : Visit → Visit) :
    Lists (fun a v => ∃ w, P a w ∧ v = g w) (visits.map fun w => (w.1, g w.2)) := by
  refine ⟨List.pairwise_map.mpr h.ordered, fun a v => ?_⟩
  rw [List.mem_map]
  constructor
  · rintro ⟨⟨b, w⟩, hmem, heq⟩
    obtain ⟨rfl, rfl⟩ := Prod.mk.inj heq
    exact ⟨w, (h.mem_iff b w).mp hmem, rfl⟩
  · rintro ⟨w, hw, rfl⟩
    exact ⟨(a, w), (h.mem_iff a w).mpr hw, rfl⟩

/-- Two lists, one behind the other, list what is in either, when all addresses of the first come
before those of the second. -/
theorem append (h : Lists P visits) (h' : Lists Q others)
    (hbefore : ∀ a v b w, P a v → Q b w → Precedes a b) :
    Lists (fun a v => P a v ∨ Q a v) (visits ++ others) := by
  refine ⟨List.pairwise_append.mpr ⟨h.ordered, h'.ordered, ?_⟩, fun a v => ?_⟩
  · rintro ⟨a, v⟩ hv ⟨b, w⟩ hw
    exact hbefore a v b w ((h.mem_iff a v).mp hv) ((h'.mem_iff b w).mp hw)
  · rw [List.mem_append, h.mem_iff, h'.mem_iff]

end Lists

/-! ## Accounts -/

/-- The log of the computation accounts for what it misses and for how it fails, at which addresses.
Of its lines those that are kept count. -/
inductive Accounts {ε α : Type} (keep : Entry → Bool) (Misses : List Nat → Visit → Prop)
    (Fails : List Nat → ε → List Entry → Prop) (x : Logged ε α) : Prop where
  /-- nothing fails, and there is a line for all that is missed -/
  | ok {value : α} {visits : List (List Nat × Visit)} (hx : x.result = .ok value)
    (hsound : ∀ a e es, ¬ Fails a e es) (hvisits : Lists Misses visits)
    (htold : told keep x.events = visits.map (·.2.warning)) : Accounts keep Misses Fails x
  /-- the first that fails has its lines, behind those for what is missed before it -/
  | error {e : ε} {a : List Nat} {es : List Entry} {visits : List (List Nat × Visit)}
    (hx : x.result = .error e) (hfails : Fails a e es)
    (hfirst : ∀ b e' es', Fails b e' es' → ¬ Precedes b a)
    (hvisits : Lists (fun b v => Misses b v ∧ Precedes b a) visits)
    (htold : told keep x.events = visits.map (·.2.warning) ++ es) : Accounts keep Misses Fails x

namespace Logged

variable {ε ε' α β : Type}

theorem events_map (f : α → β) (x : Logged ε α) : (f <$> x).events = x.events := by
  change (Logged.bind x fun a => pure (f a)).events = x.events
  unfold Logged.bind
  cases x.result with
  | ok a => exact List.append_nil _
  | error e => rfl

/-- After a result the second computation goes on with its own events. -/
theorem events_bind_of_ok {x : Logged ε α} {a : α} (h : x.result = .ok a) (f : α → Logged ε β) :
    (x >>= f).events = x.events ++ (f a).events := by
  rw [bind_eq, Logged.bind, h]

/-- After a failure nothing more happens, and so nothing more is logged. -/
theorem events_bind_of_error {x : Logged ε α} {e : ε} (h : x.result = .error e)
    (f : α → Logged ε β) : (x >>= f).events = x.events := by
  rw [bind_eq, Logged.bind, h]

theorem events_onFailure_of_ok {x : Logged ε α} {a : α} (h : x.result = .ok a)
    (event : ε → Event) : (x.onFailure event).events = x.events := by
  rw [onFailure, h]

theorem events_onFailure_of_error {x : Logged ε α} {e : ε} (h : x.result = .error e)
    (event : ε → Event) : (x.onFailure event).events = x.events ++ [event e] := by
  rw [onFailure, h]

end Logged

namespace Accounts

variable {ε ε' α β : Type} {keep : Entry → Bool} {Misses Misses' : List Nat → Visit → Prop}
  {Fails : List Nat → ε → List Entry → Prop} {x : Logged ε α}

/-- An account is one for whatever is missed and fails at the same addresses. -/
theorem congr {Fails' : List Nat → ε → List Entry → Prop} (h : Accounts keep Misses Fails x)
    (hmisses : ∀ a v, Misses a v ↔ Misses' a v)
    (hfails : ∀ a e es, Fails a e es ↔ Fails' a e es) : Accounts keep Misses' Fails' x := by
  have hm : Misses = Misses' := funext fun a => funext fun v => propext (hmisses a v)
  have hf : Fails = Fails' :=
    funext fun a => funext fun e => funext fun es => propext (hfails a e es)
  rwa [← hm, ← hf]

/-! ### One part

Each of these operations touches the log at one end at most, and leaves the addresses as they are.
-/

/-- What is made of the result is not in the log. -/
theorem map (h : Accounts keep Misses Fails x) (f : α → β) :
    Accounts keep Misses Fails (f <$> x) := by
  have hevents := Logged.events_map f x
  cases h with
  | @ok value _ hx hsound hvisits htold =>
    have hresult : (f <$> x).result = .ok (f value) := by
      rw [Logged.result_map, hx]
      rfl
    exact .ok hresult hsound hvisits (hevents ▸ htold)
  | error hx hfails hfirst hvisits htold =>
    refine .error ?_ hfails hfirst hvisits (hevents ▸ htold)
    rw [Logged.result_map, hx]
    rfl

/-- The lines of a failure stay when it is given another name. -/
theorem mapError (h : Accounts keep Misses Fails x) (f : ε → ε') :
    Accounts keep Misses (fun a e' es => ∃ e, Fails a e es ∧ e' = f e) (x.mapError f) := by
  cases h with
  | ok hx hsound hvisits htold =>
    exact .ok (mapError_eq_ok_iff.mpr hx) (fun a e' es ⟨e, he, _⟩ => hsound a e es he) hvisits
      htold
  | error hx hfails hfirst hvisits htold =>
    exact .error (mapError_eq_error_iff.mpr ⟨_, hx, rfl⟩) ⟨_, hfails, rfl⟩
      (fun b e' es ⟨e, he, _⟩ => hfirst b e es he) hvisits htold

/-- A failure that is told adds its line. -/
theorem onFailure (h : Accounts keep Misses Fails x) {event : ε → Event}
    (hkeep : ∀ e, keep (event e).entry = true) :
    Accounts keep Misses (fun a e es => ∃ inner, Fails a e inner ∧ es = inner ++ [(event e).entry])
      (x.onFailure event) := by
  cases h with
  | ok hx hsound hvisits htold =>
    refine .ok ((Logged.result_onFailure x event).trans hx)
      (fun a e es ⟨inner, he, _⟩ => hsound a e inner he) hvisits ?_
    rw [Logged.events_onFailure_of_ok hx, htold]
  | @error e a es visits hx hfails hfirst hvisits htold =>
    refine .error ((Logged.result_onFailure x event).trans hx) ⟨es, hfails, rfl⟩
      (fun b e' _ ⟨inner, he, _⟩ => hfirst b e' inner he) hvisits ?_
    rw [Logged.events_onFailure_of_error hx, told_append, told_singleton (hkeep e), htold,
      List.append_assoc]

/-- What is told before, and not kept, does not count. -/
theorem tell (h : Accounts keep Misses Fails x) {event : Event}
    (hkeep : keep event.entry = false) :
    Accounts keep Misses Fails (Logged.tell event >>= fun _ => x) := by
  have hevents : told keep (Logged.tell event >>= fun _ => x).events = told keep x.events := by
    rw [Logged.events_bind_of_ok rfl, told_append, Logged.events_tell,
      told_singleton_of_not hkeep, List.nil_append]
  have hresult : (Logged.tell event >>= fun _ => x).result = x.result := by
    rw [Logged.result_bind, Logged.result_tell]
    rfl
  cases h with
  | ok hx hsound hvisits htold =>
    exact .ok (hresult.trans hx) hsound hvisits (hevents.trans htold)
  | error hx hfails hfirst hvisits htold =>
    exact .error (hresult.trans hx) hfails hfirst hvisits (hevents.trans htold)

/-- Visits that are looked at from further outside leave the same lines. -/
theorem mapVisits (h : Accounts keep Misses Fails x) {g : Visit → Visit}
    (hg : ∀ v, (g v).warning = v.warning) :
    Accounts keep (fun a v => ∃ w, Misses a w ∧ v = g w) Fails x := by
  have hwarnings : ∀ visits : List (List Nat × Visit),
      (visits.map fun w => (w.1, g w.2)).map (·.2.warning) = visits.map (·.2.warning) := by
    intro visits
    rw [List.map_map]
    exact List.map_congr_left fun w _ => hg w.2
  cases h with
  | ok hx hsound hvisits htold =>
    exact .ok hx hsound (hvisits.map g) (htold.trans (hwarnings _).symm)
  | error hx hfails hfirst hvisits htold =>
    refine .error hx hfails hfirst ((hvisits.map g).congr fun b v => ?_) ?_
    · constructor
      · rintro ⟨w, ⟨hw, hprecedes⟩, rfl⟩
        exact ⟨⟨w, hw, rfl⟩, hprecedes⟩
      · rintro ⟨⟨w, hw, rfl⟩, hprecedes⟩
        exact ⟨w, ⟨hw, hprecedes⟩, rfl⟩
    · rw [hwarnings, htold]

/-- A result that is there at once misses nothing. -/
theorem pure (value : α) :
    Accounts keep (fun _ _ => False) (fun _ (_ : ε) _ => False) (Pure.pure value : Logged ε α) :=
  .ok rfl (fun _ _ _ => id) (.nil fun _ _ => id) rfl

/-- A failure that is there at once stands at the empty address, before everything. -/
theorem fail {e : ε} (hfails : Fails [] e []) :
    Accounts keep Misses Fails (Logged.fail e : Logged ε α) := by
  refine .error rfl hfails (fun b _ _ _ => not_precedes_nil b) (.nil fun a v h => ?_) rfl
  exact not_precedes_nil a h.2

end Accounts

/-! ### One part after another -/

/-- Something is missed or fails at the address. -/
def Touches {ε : Type} (Misses : List Nat → Visit → Prop)
    (Fails : List Nat → ε → List Entry → Prop) (a : List Nat) : Prop :=
  (∃ v, Misses a v) ∨ ∃ e es, Fails a e es

namespace Accounts

variable {ε α β γ : Type} {keep : Entry → Bool} {Misses Misses' : List Nat → Visit → Prop}
  {Fails Fails' : List Nat → ε → List Entry → Prop} {x : Logged ε α} {y : Logged ε β}

/-- A number in front of all addresses. -/
theorem under (h : Accounts keep Misses Fails x) (k : Nat) :
    Accounts keep (fun a v => ∃ b, a = k :: b ∧ Misses b v)
      (fun a e es => ∃ b, a = k :: b ∧ Fails b e es) x := by
  have hsame : ∀ {a b : List Nat}, Precedes (k :: b) (k :: a) → Precedes b a := by
    intro a b hprecedes
    rcases precedes_cons_iff.mp hprecedes with hlt | ⟨-, hprecedes⟩
    · exact absurd hlt (Nat.lt_irrefl k)
    · exact hprecedes
  cases h with
  | ok hx hsound hvisits htold =>
    refine .ok hx (fun _ e es ⟨b, _, he⟩ => hsound b e es he) (hvisits.under k) ?_
    rw [htold, List.map_map]
    rfl
  | @error e a es visits hx hfails hfirst hvisits htold =>
    refine .error hx ⟨a, rfl, hfails⟩ ?_ ((hvisits.under k).congr fun b v => ?_) ?_
    · rintro _ e' es' ⟨b, rfl, hb⟩ hprecedes
      exact hfirst b e' es' hb (hsame hprecedes)
    · constructor
      · rintro ⟨b, rfl, hmisses, hprecedes⟩
        exact ⟨⟨b, rfl, hmisses⟩, precedes_cons_iff.mpr (Or.inr ⟨rfl, hprecedes⟩)⟩
      · rintro ⟨⟨b, rfl, hmisses⟩, hprecedes⟩
        exact ⟨b, rfl, hmisses, hsame hprecedes⟩
    · rw [htold, List.map_map]
      rfl

/-- One part and then another, whose addresses all come later. -/
theorem andThen (h : Accounts keep Misses Fails x) (h' : Accounts keep Misses' Fails' y)
    (hbefore : ∀ a b, Touches Misses Fails a → Touches Misses' Fails' b → Precedes a b)
    (f : α → β → γ) :
    Accounts keep (fun a v => Misses a v ∨ Misses' a v)
      (fun a e es => Fails a e es ∨ Fails' a e es) (x >>= fun a => f a <$> y) := by
  -- no address of the second part comes before one of the first
  have hnot : ∀ a b, Touches Misses Fails a → Touches Misses' Fails' b → ¬ Precedes b a :=
    fun a b ha hb => not_precedes_of_precedes (hbefore a b ha hb)
  cases h with
  | @error e a es visits hx hfails hfirst hvisits htold =>
    refine .error ?_ (Or.inl hfails) ?_ (hvisits.congr fun b v => ?_) ?_
    · rw [Logged.result_bind, hx]
      rfl
    · rintro b e' es' (hb | hb)
      · exact hfirst b e' es' hb
      · exact hnot a b (Or.inr ⟨e, es, hfails⟩) (Or.inr ⟨e', es', hb⟩)
    · refine and_congr_left fun hprecedes => (or_iff_left fun hb => ?_).symm
      exact hnot a b (Or.inr ⟨e, es, hfails⟩) (Or.inl ⟨v, hb⟩) hprecedes
    · rw [Logged.events_bind_of_error hx, htold]
  | @ok value visits hx hsound hvisits htold =>
    have hresult : (x >>= fun a => f a <$> y).result = f value <$> y.result := by
      rw [Logged.result_bind, hx, ← Logged.result_map]
      rfl
    have hevents : told keep (x >>= fun a => f a <$> y).events =
        visits.map (·.2.warning) ++ told keep y.events := by
      rw [Logged.events_bind_of_ok hx, Logged.events_map, told_append, htold]
    cases h' with
    | @ok value' others hy hsound' hothers htold' =>
      refine .ok (hresult.trans (map_eq_ok_iff.mpr ⟨value', hy, rfl⟩)) ?_
        (hvisits.append hothers fun a v b w ha hb => ?_) ?_
      · rintro a e es (ha | ha)
        · exact hsound a e es ha
        · exact hsound' a e es ha
      · exact hbefore a b (Or.inl ⟨v, ha⟩) (Or.inl ⟨w, hb⟩)
      · rw [hevents, htold', List.map_append]
    | @error e a es others hy hfails hfirst hothers htold' =>
      have hlater : Touches Misses' Fails' a := Or.inr ⟨e, es, hfails⟩
      refine .error (hresult.trans (map_eq_error_iff.mpr hy)) (Or.inr hfails) ?_
        ((hvisits.append hothers fun b v b' w hb hb' => ?_).congr fun b v => ?_) ?_
      · rintro b e' es' (hb | hb)
        · exact absurd hb (hsound b e' es')
        · exact hfirst b e' es' hb
      · exact hbefore b b' (Or.inl ⟨v, hb⟩) (Or.inl ⟨w, hb'.1⟩)
      · rw [or_and_right]
        refine or_congr_left ⟨fun hb => ⟨hb, ?_⟩, And.left⟩
        exact hbefore b a (Or.inl ⟨v, hb⟩) hlater
      · rw [hevents, htold', List.map_append, List.append_assoc]

end Accounts

/-! ## Rows -/

/-- The address leads to the element of a row whose number it begins with, where the first of the
row has the number `k`, and has the property there. -/
def InRowFrom {α : Type} (k : Nat) (xs : List α) (P : α → List Nat → Prop) (a : List Nat) : Prop :=
  ∃ i b x, a = (k + i) :: b ∧ xs[i]? = some x ∧ P x b

/-- The address leads to the element of a row whose number it begins with, and has the property
there. -/
def InRow {α : Type} (xs : List α) (P : α → List Nat → Prop) (a : List Nat) : Prop :=
  ∃ i b x, a = i :: b ∧ xs[i]? = some x ∧ P x b

section Rows

variable {α : Type} {k : Nat} {x : α} {xs : List α} {P : α → List Nat → Prop} {a : List Nat}

theorem inRowFrom_zero_iff : InRowFrom 0 xs P a ↔ InRow xs P a := by
  simp only [InRowFrom, InRow, Nat.zero_add]

theorem not_inRowFrom_nil : ¬ InRowFrom k ([] : List α) P a := by
  rintro ⟨i, b, x, -, hx, -⟩
  cases hx

/-- In a row something lies in the head, under the number of the head, or in the rest, under a later
one. -/
theorem inRowFrom_cons_iff :
    InRowFrom k (x :: xs) P a ↔ (∃ b, a = k :: b ∧ P x b) ∨ InRowFrom (k + 1) xs P a := by
  constructor
  · rintro ⟨i, b, y, rfl, hy, h⟩
    cases i with
    | zero =>
      obtain rfl : x = y := Option.some.inj hy
      exact Or.inl ⟨b, rfl, h⟩
    | succ i => exact Or.inr ⟨i, b, y, by rw [Nat.add_right_comm, Nat.add_assoc], hy, h⟩
  · rintro (⟨b, rfl, h⟩ | ⟨i, b, y, rfl, hy, h⟩)
    · exact ⟨0, b, x, rfl, rfl, h⟩
    · exact ⟨i + 1, b, y, by rw [Nat.add_right_comm, Nat.add_assoc], hy, h⟩

/-- What lies in the rest of a row comes after its head. -/
theorem InRowFrom.precedes (h : InRowFrom (k + 1) xs P a) (b : List Nat) :
    Precedes (k :: b) a := by
  obtain ⟨i, c, y, rfl, -, -⟩ := h
  exact precedes_cons_iff.mpr (Or.inl (by omega))

end Rows

namespace Accounts

variable {ε α β : Type} {keep : Entry → Bool} {f : α → Logged ε β}
  {Misses : α → List Nat → Visit → Prop} {Fails : α → List Nat → ε → List Entry → Prop}

/-- The induction behind `Accounts.mapM` has the number of the first element open, as the rest of a
row begins with a later one. -/
theorem mapM_from {xs : List α} (k : Nat)
    (h : ∀ x ∈ xs, Accounts keep (Misses x) (Fails x) (f x)) :
    Accounts keep (fun a v => InRowFrom k xs (fun x b => Misses x b v) a)
      (fun a e es => InRowFrom k xs (fun x b => Fails x b e es) a) (xs.mapM f) := by
  induction xs generalizing k with
  | nil =>
    exact (Accounts.pure []).congr (fun _ _ => iff_of_false id not_inRowFrom_nil)
      fun _ _ _ => iff_of_false id not_inRowFrom_nil
  | cons x xs ih =>
    have hhead := (h x List.mem_cons_self).under k
    have hrest := ih (k + 1) fun y hy => h y (List.mem_cons_of_mem _ hy)
    have hrow : (x :: xs).mapM f = f x >>= fun y => (y :: ·) <$> xs.mapM f := by
      rw [List.mapM_cons]
      simp only [bind_pure_comp]
    rw [hrow]
    refine (hhead.andThen hrest ?_ List.cons).congr
      (fun a v => (inRowFrom_cons_iff (P := fun x b => Misses x b v)).symm)
      fun a e es => (inRowFrom_cons_iff (P := fun x b => Fails x b e es)).symm
    rintro a b (⟨v, c, rfl, -⟩ | ⟨e, es, c, rfl, -⟩) (⟨w, hb⟩ | ⟨e', es', hb⟩) <;>
      exact hb.precedes c

/-- **A row accounts for itself** when its elements do: they come one after the other, up to the
first that fails. What is missed behind that one is not in the log, and does not count, as its
address comes later. -/
theorem mapM {xs : List α} (h : ∀ x ∈ xs, Accounts keep (Misses x) (Fails x) (f x)) :
    Accounts keep (fun a v => InRow xs (fun x b => Misses x b v) a)
      (fun a e es => InRow xs (fun x b => Fails x b e es) a) (xs.mapM f) :=
  (mapM_from 0 h).congr (fun _ _ => inRowFrom_zero_iff) fun _ _ _ => inRowFrom_zero_iff

end Accounts

end ProtoSchema
