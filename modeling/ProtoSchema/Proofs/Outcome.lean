import Mathlib.Data.List.Forall2
import ProtoSchema.Event

/-!
# Outcomes

A logged computation comes to a result or to a failure; what it logged on the way does not matter
for that. This module is about the outcomes alone, and knows nothing of schemas. It has three
layers:

* **One computation.** What is known of the parts when a map, a bind or a change of the failure has
  come to a result or to a failure. These are the lemmas by which a computation is taken apart, so
  that no proof unfolds the monad.
* **Rows of computations.** A row succeeds when each of its computations does, and fails as the
  first one that fails (`mapM_eq_ok_iff`, `mapM_eq_error_iff`). The results of a row are said by
  `List.Forall₂`: one for each element, in order.
* **Agreement.** Two outcomes `Agree` up to a relation when both are results that are related, or
  both are the same failure. Agreement goes through every way in which the conversion puts
  computations together, so that two runs are compared step by step and never as a whole.

The relation of an agreement is left open on purpose. With equality it says that two runs are one;
with a relation of schemas it says what a switch of the policy changes, and with a relation of
declarations it compares two registries that hold the same messages in different places.
-/

namespace ProtoSchema

variable {α β γ δ ε ε' : Type}

/-! ## One computation -/

/-- A mapped computation has a result when the computation itself has one, and it is the image of
that. -/
theorem map_eq_ok_iff {f : α → β} {x : Except ε α} {b : β} :
    f <$> x = .ok b ↔ ∃ a, x = .ok a ∧ b = f a := by
  refine ⟨?_, ?_⟩
  · intro h
    cases x with
    | ok a => exact ⟨a, rfl, (Except.ok.inj h).symm⟩
    | error e => cases h
  · rintro ⟨a, rfl, rfl⟩
    rfl

/-- Mapping the result leaves failures as they are. -/
theorem map_eq_error_iff {f : α → β} {x : Except ε α} {e : ε} :
    f <$> x = .error e ↔ x = .error e := by
  cases x with
  | ok a => exact ⟨fun h => (by cases h), fun h => (by cases h)⟩
  | error e' =>
    exact ⟨fun h => congrArg _ (Except.error.inj h), fun h => congrArg _ (Except.error.inj h)⟩

/-- **Two computations in a row** have a result when the first one has one and the second one has
it, given that. Every proof about a run that succeeds begins by taking it apart so. -/
theorem bind_eq_ok_iff {x : Except ε α} {f : α → Except ε β} {b : β} :
    x >>= f = .ok b ↔ ∃ a, x = .ok a ∧ f a = .ok b := by
  cases x with
  | ok a => exact ⟨fun h => ⟨a, rfl, h⟩, fun ⟨_, ha, h⟩ => Except.ok.inj ha ▸ h⟩
  | error e => exact ⟨fun h => (by cases h), fun ⟨_, ha, _⟩ => (by cases ha)⟩

/-- Changing the failure leaves results as they are. -/
theorem mapError_eq_ok_iff {f : ε → ε'} {x : Except ε α} {a : α} :
    x.mapError f = .ok a ↔ x = .ok a := by
  cases x with
  | ok b => exact ⟨fun h => congrArg _ (Except.ok.inj h), fun h => congrArg _ (Except.ok.inj h)⟩
  | error e => exact ⟨fun h => (by cases h), fun h => (by cases h)⟩

/-- A failure that was changed is the image of one that came before. -/
theorem mapError_eq_error_iff {f : ε → ε'} {x : Except ε α} {e' : ε'} :
    x.mapError f = .error e' ↔ ∃ e, x = .error e ∧ e' = f e := by
  cases x with
  | ok a => exact ⟨fun h => (by cases h), fun ⟨_, he, _⟩ => (by cases he)⟩
  | error e =>
    refine ⟨fun h => ⟨e, rfl, (Except.error.inj h).symm⟩, ?_⟩
    rintro ⟨e, he, rfl⟩
    exact congrArg (Except.error <| f ·) (Except.error.inj he)

theorem toOption_eq_some_iff {x : Except ε α} {a : α} : x.toOption = some a ↔ x = .ok a := by
  cases x <;> simp [Except.toOption]

/-- Nothing is left of a failure, whatever it was. Where only the existence of a result counts, this
is how the failure is forgotten. -/
theorem toOption_eq_none_iff {x : Except ε α} : x.toOption = none ↔ ∀ a, x ≠ .ok a := by
  cases x <;> simp [Except.toOption]

/-! ## Rows of computations

A row stops at its first failure. What it fails as is therefore said with an index: the element
there fails, and all before it succeed.
-/

/-- The outcome of a logged row is that of the row of outcomes, so that the log can be left aside
before a row is looked at. -/
theorem Logged.result_mapM (xs : List α) (f : α → Logged ε β) :
    (xs.mapM f).result = xs.mapM fun x => (f x).result := by
  induction xs with
  | nil => rfl
  | cons x xs ih =>
    simp only [List.mapM_cons, Logged.result_bind, ih]
    rfl

/-- Of two rows that are related in pairs, each element of the second has one of the first. With it
a schema among the results is traced back to the field that it came from. -/
theorem exists_left_of_mem {R : α → β → Prop} {xs : List α} {ys : List β}
    (h : List.Forall₂ R xs ys) {y : β} (hy : y ∈ ys) : ∃ x ∈ xs, R x y := by
  induction h with
  | nil => cases hy
  | @cons x _ xs ys hxy _ ih =>
    rcases List.mem_cons.mp hy with rfl | hy
    · exact ⟨x, List.mem_cons_self, hxy⟩
    · obtain ⟨x', hx', hrel⟩ := ih hy
      exact ⟨x', List.mem_cons_of_mem _ hx', hrel⟩

/-- Two rows that belong to one row are the same when their elements are, one by one. The two
relations may differ, so that the results of two conversions can be compared over one list of
fields. -/
theorem eq_of_forall₂_of_unique {P Q : α → β → Prop} {xs : List α} {ys zs : List β}
    (hys : List.Forall₂ P xs ys) (hzs : List.Forall₂ Q xs zs)
    (h : ∀ x ∈ xs, ∀ y z, P x y → Q x z → y = z) : ys = zs := by
  induction hys generalizing zs with
  | nil =>
    cases hzs
    rfl
  | cons hxy _ ih =>
    cases hzs with
    | cons hxz hzs =>
      rw [h _ List.mem_cons_self _ _ hxy hxz,
        ih hzs fun x hx => h x (List.mem_cons_of_mem _ hx)]

/-- What is made of a result can be made after the whole row. -/
theorem mapM_map_eq (h : α → β → γ) (f : α → Except ε β) (xs : List α) :
    (xs.mapM fun x => h x <$> f x) = (fun ys => xs.zipWith h ys) <$> xs.mapM f := by
  induction xs with
  | nil => rfl
  | cons x xs ih =>
    rw [List.mapM_cons, List.mapM_cons, ih]
    rcases f x with e | y
    · rfl
    · rcases xs.mapM f with e | ys <;> rfl

/-- A row of computations succeeds exactly when each of them does. -/
theorem mapM_eq_ok_iff {f : α → Except ε β} {xs : List α} {ys : List β} :
    xs.mapM f = .ok ys ↔ List.Forall₂ (fun x y => f x = .ok y) xs ys := by
  induction xs generalizing ys with
  | nil =>
    rw [List.forall₂_nil_left_iff]
    exact ⟨fun h => (Except.ok.inj h).symm, fun h => h ▸ rfl⟩
  | cons x xs ih =>
    rw [List.mapM_cons, List.forall₂_cons_left_iff]
    refine ⟨?_, ?_⟩
    · intro h
      rcases hx : f x with e | y
      · rw [hx] at h
        cases h
      · rcases hxs : xs.mapM f with e | ys'
        · rw [hx, hxs] at h
          cases h
        · rw [hx, hxs] at h
          exact ⟨y, ys', rfl, ih.mp hxs, (Except.ok.inj h).symm⟩
    · rintro ⟨y, ys', hy, hys, rfl⟩
      rw [hy, ih.mpr hys]
      rfl

/-- Two runs over related rows that come to the same step by step come to the same. -/
theorem mapM_eq_of_forall₂ {R : α → β → Prop} {m : Type → Type} [Monad m] [LawfulMonad m]
    {xs : List α} {ys : List β} (h : List.Forall₂ R xs ys) {f : α → m γ} {g : β → m γ}
    (hfg : ∀ a b, R a b → f a = g b) : xs.mapM f = ys.mapM g := by
  induction h with
  | nil => rfl
  | cons hab _ ih => rw [List.mapM_cons, List.mapM_cons, hfg _ _ hab, ih]

/-- What is undone element by element is undone for the row. -/
theorem mapM_map_eq_pure {m : Type → Type} [Monad m] [LawfulMonad m] {f : β → m α} {g : α → β}
    {xs : List α} (h : ∀ x ∈ xs, f (g x) = pure x) : (xs.map g).mapM f = pure xs := by
  induction xs with
  | nil => rfl
  | cons x xs ih =>
    rw [List.map_cons, List.mapM_cons, h x List.mem_cons_self,
      ih fun y hy => h y (List.mem_cons_of_mem x hy)]
    simp

/-- A row has results exactly when each of its computations has one; which results these are is left
open. -/
theorem exists_mapM_eq_ok_iff {f : α → Except ε β} {xs : List α} :
    (∃ ys, xs.mapM f = .ok ys) ↔ ∀ x ∈ xs, ∃ y, f x = .ok y := by
  simp only [mapM_eq_ok_iff]
  constructor
  · rintro ⟨ys, h⟩ x hx
    have hflip : List.Forall₂ (flip fun x y => f x = .ok y) ys xs := h.flip
    obtain ⟨y, -, hy⟩ := exists_left_of_mem hflip hx
    exact ⟨y, hy⟩
  · intro h
    induction xs with
    | nil => exact ⟨[], .nil⟩
    | cons x xs ih =>
      obtain ⟨y, hy⟩ := h x List.mem_cons_self
      obtain ⟨ys, hys⟩ := ih fun z hz => h z (List.mem_cons_of_mem _ hz)
      exact ⟨y :: ys, .cons hy hys⟩

/-- The first place of a row with a property, behind places with another, is its head or lies in
what follows a head with the other. -/
theorem exists_first_cons_iff {P Q : α → Prop} {x : α} {xs : List α} :
    (∃ (i : Nat) (y : α), (x :: xs)[i]? = some y ∧ P y ∧
        ∀ (j : Nat) (z : α), j < i → (x :: xs)[j]? = some z → Q z) ↔
      P x ∨ (Q x ∧ ∃ (i : Nat) (y : α), xs[i]? = some y ∧ P y ∧
        ∀ (j : Nat) (z : α), j < i → xs[j]? = some z → Q z) := by
  constructor
  · rintro ⟨i, y, hi, hy, hbefore⟩
    cases i with
    | zero =>
      obtain rfl : x = y := Option.some.inj hi
      exact Or.inl hy
    | succ i =>
      exact Or.inr ⟨hbefore 0 x (Nat.succ_pos i) rfl, i, y, hi, hy,
        fun j z hj hz => hbefore (j + 1) z (Nat.succ_lt_succ hj) hz⟩
  · rintro (hx | ⟨hx, i, y, hi, hy, hbefore⟩)
    · exact ⟨0, x, rfl, hx, fun j z hj => absurd hj (Nat.not_lt_zero j)⟩
    · refine ⟨i + 1, y, hi, hy, fun j z hj hz => ?_⟩
      cases j with
      | zero =>
        obtain rfl : x = z := Option.some.inj hz
        exact hx
      | succ j => exact hbefore j z (Nat.lt_of_succ_lt_succ hj) hz

/-- A row of computations fails as the first one of them that fails. -/
theorem mapM_eq_error_iff {f : α → Except ε β} {xs : List α} {e : ε} :
    xs.mapM f = .error e ↔
      ∃ (i : Nat) (x : α), xs[i]? = some x ∧ f x = .error e ∧
        ∀ (j : Nat) (y : α), j < i → xs[j]? = some y → ∃ b, f y = .ok b := by
  induction xs with
  | nil =>
    refine iff_of_false (fun h => by cases h) ?_
    rintro ⟨i, x, hi, -⟩
    cases hi
  | cons x xs ih =>
    rw [List.mapM_cons, exists_first_cons_iff, ← ih]
    rcases f x with e' | y
    · -- the first one fails: nothing after it is looked at
      refine ⟨fun h => Or.inl (congrArg Except.error (Except.error.inj h)), ?_⟩
      rintro (he | ⟨⟨b, hb⟩, -⟩)
      · exact congrArg Except.error (Except.error.inj he)
      · cases hb
    · have hrest : (do let ys ← xs.mapM f; pure (y :: ys)) = Except.error e ↔
          xs.mapM f = .error e := by
        rw [bind_pure_comp, map_eq_error_iff]
      refine hrest.trans ⟨fun h => Or.inr ⟨⟨y, rfl⟩, h⟩, ?_⟩
      rintro (hy | ⟨-, h⟩)
      · cases hy
      · exact h

/-! ## Agreement

Two runs that agree can be told apart only by their results, and these are related. The lemmas go
through the operations in the order in which the conversion uses them.
-/

/-- Two outcomes agree up to a relation: both are results and related, or both are one failure. -/
inductive Agree (R : α → β → Prop) : Except ε α → Except ε β → Prop where
  /-- two results that are related -/
  | ok {a : α} {b : β} (h : R a b) : Agree R (.ok a) (.ok b)
  /-- the same failure twice -/
  | error (e : ε) : Agree R (.error e) (.error e)

namespace Agree

variable {R : α → β → Prop} {S : γ → δ → Prop}

/-- Two runs agree step by step: when the first steps agree, and what follows agrees on related
results. -/
theorem bind {x : Except ε α} {y : Except ε β} {f : α → Except ε γ} {g : β → Except ε δ}
    (h : Agree R x y) (hfg : ∀ a b, R a b → Agree S (f a) (g b)) :
    Agree S (x >>= f) (y >>= g) := by
  cases h with
  | ok hab => exact hfg _ _ hab
  | error e => exact .error e

/-- Mapping keeps agreement, along functions that take related results to related ones. -/
theorem map {x : Except ε α} {y : Except ε β} {f : α → γ} {g : β → δ}
    (h : Agree R x y) (hfg : ∀ a b, R a b → S (f a) (g b)) : Agree S (f <$> x) (g <$> y) := by
  cases h with
  | ok hab => exact .ok (hfg _ _ hab)
  | error e => exact .error e

theorem mapError {x : Except ε α} {y : Except ε β} (h : Agree R x y) (f : ε → ε') :
    Agree R (x.mapError f) (y.mapError f) := by
  cases h with
  | ok hab => exact .ok hab
  | error e => exact .error (f e)

/-- **Two runs over one row** agree up to the relation of their results in pairs, when they agree on
each element. Both stop at the same element, since they fail together. -/
theorem mapM (xs : List α) {f : α → Except ε γ} {g : α → Except ε δ}
    (h : ∀ x ∈ xs, Agree S (f x) (g x)) : Agree (List.Forall₂ S) (xs.mapM f) (xs.mapM g) := by
  induction xs with
  | nil => exact .ok .nil
  | cons x xs ih =>
    rw [List.mapM_cons, List.mapM_cons]
    refine (h x List.mem_cons_self).bind fun a b hab => ?_
    have hrest := ih fun z hz => h z (List.mem_cons_of_mem _ hz)
    exact hrest.bind fun as bs habs => .ok (.cons hab habs)

/-- What agrees is one failure twice, or two results that are related. In this form the two runs are
replaced by their outcomes in one step. -/
theorem cases {x : Except ε α} {y : Except ε β} (h : Agree R x y) :
    (∃ e, x = .error e ∧ y = .error e) ∨ ∃ a b, x = .ok a ∧ y = .ok b ∧ R a b := by
  cases h with
  | error e => exact Or.inl ⟨e, rfl, rfl⟩
  | @ok a b hab => exact Or.inr ⟨a, b, rfl, rfl, hab⟩

/-- What is the same agrees. -/
theorem of_eq {x y : Except ε α} (h : x = y) : Agree Eq x y := by
  subst h
  cases x with
  | ok a => exact .ok rfl
  | error e => exact .error e

/-- What agrees fails together and alike. -/
theorem error_iff {x : Except ε α} {y : Except ε β} (h : Agree R x y) (e : ε) :
    x = .error e ↔ y = .error e := by
  cases h with
  | ok hab => exact ⟨fun h => (by cases h), fun h => (by cases h)⟩
  | error e' =>
    exact ⟨fun h => congrArg _ (Except.error.inj h), fun h => congrArg _ (Except.error.inj h)⟩

end Agree

end ProtoSchema
