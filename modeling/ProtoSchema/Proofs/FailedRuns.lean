import ProtoSchema.CommandLine.Run
import ProtoSchema.Proofs.Accounts
import ProtoSchema.Proofs.Targets

/-!
# Conversions that fail

A run of `convert` settles what to write before it writes anything. What can go wrong until then
stands at a position (`ConvertSettings.FailsAt`): first the options, then the inputs as patterns,
then the descriptor sets at their paths, and last the targets. The run fails as the first of these,
and it leaves no trace: nothing is printed and no file is changed (`Invocation.run_of_failsAt`).

A row of computations, or one computation after another, fails as the first of its parts that fails.
`FailsFirst` says so of one computation, and there is a lemma for each way of putting computations
together. Positions are lists of numbers, which are compared from the front: each way of putting
computations together puts one more number in front.

The stages are joined at the end (`ConvertSettings.failsFirst_documents`). A failure of a later
stage is told relative to the results of the earlier ones, so that its lemma has these as
hypotheses, and `FailsFirst.stage` gives them.
-/

namespace ProtoSchema

open Conversion (Precedes precedes_cons_iff)

/-! ## First failures

A computation in `Except` fails at most once. Of the failures that are possible only the first one
happens, and which are possible has to be said apart from the computation: this is `P`.
-/

variable {ε ε' α β : Type}

/-- Of these failures, the one at the address comes first. -/
def IsFirst (P : List Nat → ε → Prop) (a : List Nat) (e : ε) : Prop :=
  P a e ∧ ∀ b e', P b e' → Precedes a b ∨ b = a ∧ e' = e

/-- The computation fails as the first of these failures, and succeeds when there is none. -/
def FailsFirst (P : List Nat → ε → Prop) : Except ε α → Prop
  | .ok _ => ∀ a e, ¬ P a e
  | .error e => ∃ a, IsFirst P a e

/-- The failure stands in a stage of that number or a later one. -/
def FromStage (k : Nat) (P : List Nat → ε → Prop) (a : List Nat) (e : ε) : Prop :=
  P a e ∧ ∃ l b, a = l :: b ∧ k ≤ l

namespace FailsFirst

variable {P Q : List Nat → ε → Prop} {x : Except ε α}

theorem congr (h : FailsFirst P x) (hpq : ∀ a e, P a e ↔ Q a e) : FailsFirst Q x := by
  have heq : P = Q := funext fun a => funext fun e => propext (hpq a e)
  rwa [← heq]

/-- A computation without parts fails by itself. -/
theorem self (x : Except ε α) : FailsFirst (fun a e => a = [] ∧ x = .error e) x := by
  cases x with
  | ok value => exact fun a e h => by cases h.2
  | error e =>
    refine ⟨[], ⟨rfl, rfl⟩, fun b e' h => Or.inr ⟨h.1, ?_⟩⟩
    exact (Except.error.inj h.2).symm

theorem map (h : FailsFirst P x) (f : α → β) : FailsFirst P (f <$> x) := by
  cases x <;> exact h

theorem mapError (h : FailsFirst P x) (f : ε → ε') :
    FailsFirst (fun a e' => ∃ e, P a e ∧ e' = f e) (x.mapError f) := by
  cases x with
  | ok value => exact fun a e' ⟨e, he, _⟩ => h a e he
  | error e =>
    obtain ⟨a, ha, hfirst⟩ := h
    refine ⟨a, ⟨e, ha, rfl⟩, ?_⟩
    rintro b _ ⟨e', hb, rfl⟩
    exact (hfirst b e' hb).imp id fun ⟨hab, he⟩ => ⟨hab, congrArg f he⟩

/-- A number in front of all addresses. -/
theorem under (h : FailsFirst P x) (k : Nat) :
    FailsFirst (fun a e => ∃ b, a = k :: b ∧ P b e) x := by
  cases x with
  | ok value => exact fun _ e ⟨b, _, hb⟩ => h b e hb
  | error e =>
    obtain ⟨a, ha, hfirst⟩ := h
    refine ⟨k :: a, ⟨a, rfl, ha⟩, ?_⟩
    rintro _ e' ⟨b, rfl, hb⟩
    rcases hfirst b e' hb with hlt | ⟨rfl, rfl⟩
    · exact Or.inl (precedes_cons_iff.mpr (Or.inr ⟨rfl, hlt⟩))
    · exact Or.inr ⟨rfl, rfl⟩

/-- One computation and then another, whose failures all come later. -/
theorem bind {f : α → Except ε β} (h : FailsFirst P x)
    (hf : ∀ value, x = .ok value → FailsFirst Q (f value))
    (hlater : ∀ a b e e', P a e → Q b e' → Precedes a b) :
    FailsFirst (fun a e => P a e ∨ Q a e) (x >>= f) := by
  cases x with
  | ok value =>
    refine (hf value rfl).congr fun a e => ?_
    exact (or_iff_right (h a e)).symm
  | error e =>
    obtain ⟨a, ha, hfirst⟩ := h
    refine ⟨a, Or.inl ha, fun b e' hb => ?_⟩
    rcases hb with hb | hb
    · exact hfirst b e' hb
    · exact Or.inl (hlater a b e e' ha hb)

/-- One stage and then the later ones. -/
theorem stage {f : α → Except ε β} {k : Nat} (h : FailsFirst (fun b e => P (k :: b) e) x)
    (hf : ∀ value, x = .ok value → FailsFirst (FromStage (k + 1) P) (f value)) :
    FailsFirst (FromStage k P) (x >>= f) := by
  refine ((h.under k).bind hf ?_).congr fun a e => ?_
  · rintro _ _ e e' ⟨a, rfl, -⟩ ⟨-, l, b, rfl, hle⟩
    exact precedes_cons_iff.mpr (Or.inl hle)
  · constructor
    · rintro (⟨b, rfl, hb⟩ | ⟨ha, l, b, rfl, hle⟩)
      · exact ⟨hb, k, b, rfl, Nat.le_refl k⟩
      · exact ⟨ha, l, b, rfl, Nat.le_of_succ_le hle⟩
    · rintro ⟨ha, l, b, rfl, hle⟩
      rcases Nat.eq_or_lt_of_le hle with rfl | hlt
      · exact Or.inl ⟨b, rfl, ha⟩
      · exact Or.inr ⟨ha, l, b, rfl, hlt⟩

/-- The last stage. -/
theorem lastStage {k : Nat} (h : FailsFirst (fun b e => P (k :: b) e) x)
    (hlast : ∀ l b e, P (l :: b) e → l ≤ k) : FailsFirst (FromStage k P) x := by
  refine (h.under k).congr fun a e => ?_
  constructor
  · rintro ⟨b, rfl, hb⟩
    exact ⟨hb, k, b, rfl, Nat.le_refl k⟩
  · rintro ⟨ha, l, b, rfl, hle⟩
    obtain rfl := Nat.le_antisymm hle (hlast l b e ha)
    exact ⟨b, rfl, ha⟩

/-- A row fails as the first of its elements that fails. -/
theorem mapM {f : α → Except ε β} {P : α → List Nat → ε → Prop} {xs : List α}
    (h : ∀ x ∈ xs, FailsFirst (P x) (f x)) :
    FailsFirst (fun a e => InRow xs (fun x b => P x b e) a) (xs.mapM f) := by
  have hnone : ∀ (j : Nat) (x : α), xs[j]? = some x → (∃ y, f x = .ok y) →
      ∀ b e, ¬ P x b e := by
    rintro j x hj ⟨y, hy⟩
    have hx := h x (List.mem_of_getElem? hj)
    rwa [hy] at hx
  cases hxs : xs.mapM f with
  | ok ys =>
    rintro _ e ⟨j, b, x, rfl, hj, hb⟩
    have hall := exists_mapM_eq_ok_iff.mp ⟨ys, hxs⟩ x (List.mem_of_getElem? hj)
    exact hnone j x hj hall b e hb
  | error e =>
    obtain ⟨i, x, hi, he, hbefore⟩ := mapM_eq_error_iff.mp hxs
    have hx := h x (List.mem_of_getElem? hi)
    rw [he] at hx
    obtain ⟨a, ha, hfirst⟩ := hx
    refine ⟨i :: a, ⟨i, a, x, rfl, hi, ha⟩, ?_⟩
    rintro _ e' ⟨j, b, y, rfl, hj, hb⟩
    -- before the element that failed nothing fails, and behind it nothing comes first
    rcases Nat.lt_trichotomy j i with hlt | rfl | hlt
    · exact absurd hb (hnone j y hj (hbefore j y hlt hj) b e')
    · obtain rfl := Option.some.inj (hi.symm.trans hj)
      rcases hfirst b e' hb with hprecedes | ⟨rfl, rfl⟩
      · exact Or.inl (precedes_cons_iff.mpr (Or.inr ⟨rfl, hprecedes⟩))
      · exact Or.inr ⟨rfl, rfl⟩
    · exact Or.inl (precedes_cons_iff.mpr (Or.inl hlt))

end FailsFirst

/-- What is said of a row can be said of another one that goes with it, element by element. -/
theorem inRow_iff_of_forall₂ {R : α → β → Prop} {xs : List α} {ys : List β}
    (h : List.Forall₂ R xs ys) (hunique : ∀ x y y', R x y → R x y' → y = y')
    {P : β → List Nat → Prop} {a : List Nat} :
    InRow ys P a ↔ InRow xs (fun x b => ∃ y, R x y ∧ P y b) a := by
  constructor
  · rintro ⟨j, b, y, rfl, hj, hb⟩
    obtain ⟨hlt, rfl⟩ := List.getElem?_eq_some_iff.mp hj
    have hlt' : j < xs.length := h.length_eq ▸ hlt
    exact ⟨j, b, xs[j], rfl, List.getElem?_eq_getElem hlt', ys[j], h.get hlt' hlt, hb⟩
  · rintro ⟨j, b, x, rfl, hj, y, hxy, hb⟩
    obtain ⟨hlt, rfl⟩ := List.getElem?_eq_some_iff.mp hj
    have hlt' : j < ys.length := h.length_eq ▸ hlt
    obtain rfl := hunique _ _ _ hxy (h.get hlt hlt')
    exact ⟨j, b, ys[j], rfl, List.getElem?_eq_getElem hlt', hb⟩

/-- A row of rows is gone through row by row. -/
theorem mapM_flatten (f : α → Except ε β) (xss : List (List α)) :
    xss.flatten.mapM f = List.flatten <$> xss.mapM (List.mapM f) := by
  induction xss with
  | nil => rfl
  | cons xs xss ih =>
    rw [List.flatten_cons, List.mapM_append, ih, List.mapM_cons]
    rcases xs.mapM f with e | ys
    · rfl
    · rcases xss.mapM (List.mapM f) with e | yss <;> rfl

/-! ## What can go wrong

Each case has its position, so that the order in which the failures are looked for is seen here and
need not be told again.
-/

/-- What goes wrong before anything is written, with its position: the number of the stage, and in
it that of the input, and of the path it stands for, or that of the target. -/
inductive ConvertSettings.FailsAt (settings : ConvertSettings) (o : Options) (fs : FileSystem) :
    List Nat → ConvertFailure → Prop where
  /-- the options are in conflict -/
  | options {c : OptionConflict} (h : o.resolve = .error c) : FailsAt settings o fs [0] (.options c)
  /-- an input is a pattern, and broken -/
  | pattern {j : Nat} {input : String} {e : PatternError} (hj : settings.inputs[j]? = some input)
    (hpattern : isPattern input = true) (h : fs.glob input = .error e) :
    FailsAt settings o fs [1, j] (.pattern e)
  /-- an input is a pattern that no file matches -/
  | unmatched {j : Nat} {input : String} (hj : settings.inputs[j]? = some input)
    (hpattern : isPattern input = true) (h : fs.glob input = .ok []) :
    FailsAt settings o fs [1, j] (.unmatched input)
  /-- there is no file to read at a path that an input stands for -/
  | unreadable {j k : Nat} {input path : String} {paths : List String}
    (hj : settings.inputs[j]? = some input) (hpaths : inputPaths fs input = .ok paths)
    (hk : paths[k]? = some path) (h : fs.read? path = none) :
    FailsAt settings o fs [2, j, k] (.unreadable path)
  /-- the file at a path that an input stands for is no descriptor set -/
  | undecodable {j k : Nat} {input path : String} {paths : List String} {bytes : Bytes}
    (hj : settings.inputs[j]? = some input) (hpaths : inputPaths fs input = .ok paths)
    (hk : paths[k]? = some path) (hbytes : fs.read? path = some bytes)
    (h : decodeFileSet? bytes = none) :
    FailsAt settings o fs [2, j, k] (.undecodable path)
  /-- a target is unknown, or does not convert -/
  | session {i : Nat} {p : Policy} {paths : List String} {forest : List File} {target : String}
    {e : SessionError} (hp : o.resolve = .ok p)
    (hpaths : allInputPaths fs settings.inputs = .ok paths)
    (hforest : loadForest fs paths = .ok forest)
    (hi : (settings.targets forest)[i]? = some target)
    (h : (Session.mk forest p).Refuses target e) :
    FailsAt settings o fs [3, i] (.session e)

/-! ## The stages

Each stage is a computation over a row, and fails by the lemma for rows.
-/

variable {fs : FileSystem}

/-- An input stands for no path when it is a pattern that is broken or that no file matches. A path
stands for itself, be there a file or not. -/
theorem inputPaths_eq_error_iff {input : String} {e : ConvertFailure} :
    inputPaths fs input = .error e ↔ isPattern input = true ∧
      ((∃ broken, fs.glob input = .error broken ∧ e = .pattern broken) ∨
        fs.glob input = .ok [] ∧ e = .unmatched input) := by
  rw [inputPaths]
  by_cases hpattern : isPattern input = true
  · rw [if_pos hpattern]
    rcases fs.glob input with broken | (_ | ⟨path, paths⟩) <;>
      simp [hpattern, eq_comm]
  · simp [hpattern]

theorem loadSet_eq_error_iff {path : String} {e : ConvertFailure} :
    loadSet fs path = .error e ↔ (fs.read? path = none ∧ e = .unreadable path) ∨
      ∃ bytes, fs.read? path = some bytes ∧ decodeFileSet? bytes = none ∧
        e = .undecodable path := by
  rw [loadSet]
  rcases fs.read? path with _ | bytes
  · simp [eq_comm]
  · rcases hdecoded : decodeFileSet? bytes with _ | files
    · simp [hdecoded, eq_comm]
    · simp [hdecoded]

theorem allInputPaths_eq (fs : FileSystem) (inputs : List String) :
    allInputPaths fs inputs = List.flatten <$> inputs.mapM (inputPaths fs) := by
  rw [allInputPaths, bind_pure_comp]

/-- All sets are read before their files are brought together, which cannot fail. -/
theorem loadForest_eq (fs : FileSystem) (paths : List String) :
    loadForest fs paths =
      (fun sets => firstByName [] sets.flatten) <$> paths.mapM (loadSet fs) := by
  rw [loadForest, bind_pure_comp]

/-- The inputs fail as the first of them that stands for no path. -/
theorem failsFirst_allInputPaths (fs : FileSystem) (inputs : List String) :
    FailsFirst (fun a e => InRow inputs (fun input b => b = [] ∧ inputPaths fs input = .error e) a)
      (allInputPaths fs inputs) := by
  rw [allInputPaths_eq]
  exact (FailsFirst.mapM fun input _ => .self (inputPaths fs input)).map _

/-- The sets fail as the first of them that cannot be read or is no set, input by input. -/
theorem failsFirst_loadForest {inputs paths : List String}
    (hpaths : allInputPaths fs inputs = .ok paths) :
    FailsFirst (fun a e => InRow inputs (fun input b => ∃ ps, inputPaths fs input = .ok ps ∧
        InRow ps (fun path c => c = [] ∧ loadSet fs path = .error e) b) a)
      (loadForest fs paths) := by
  rw [allInputPaths_eq, map_eq_ok_iff] at hpaths
  obtain ⟨pss, hpss, rfl⟩ := hpaths
  rw [mapM_eq_ok_iff] at hpss
  have hrow : ∀ ps : List String, FailsFirst
      (fun a e => InRow ps (fun path c => c = [] ∧ loadSet fs path = .error e) a)
      (ps.mapM (loadSet fs)) := fun ps => .mapM fun path _ => .self (loadSet fs path)
  rw [loadForest_eq, mapM_flatten]
  exact (((FailsFirst.mapM fun ps _ => hrow ps).map _).map _).congr fun a e =>
    inRow_iff_of_forall₂ hpss fun input ps ps' hps hps' => Except.ok.inj (hps.symm.trans hps')

/-- The session fails as the first of its targets that is refused. -/
theorem failsFirst_generate (s : Session) (targets : List String) :
    FailsFirst (fun a e => ∃ e', InRow targets (fun target b => b = [] ∧ s.Refuses target e') a ∧
        e = ConvertFailure.session e')
      ((s.generate targets).result.mapError .session) := by
  rw [Session.result_generate]
  have hrow : ∀ target ∈ targets, FailsFirst (fun a e => a = [] ∧ s.Refuses target e)
      (s.documentsOf s.registry target).result := fun target _ =>
    (FailsFirst.self _).congr fun _ _ => and_congr_right fun _ => Session.documentsOf_eq_error_iff
  exact ((FailsFirst.mapM hrow).map _).mapError _

/-! ## All stages -/

namespace ConvertSettings

variable {settings : ConvertSettings} {o : Options} {a : List Nat} {e : ConvertFailure}

theorem failsAt_zero_iff : settings.FailsAt o fs (0 :: a) e ↔
    ∃ c, (a = [] ∧ o.resolve = .error c) ∧ e = .options c := by
  constructor
  · intro hfails
    cases hfails with
    | options h => exact ⟨_, ⟨rfl, h⟩, rfl⟩
  · rintro ⟨c, ⟨rfl, h⟩, rfl⟩
    exact .options h

/-- What goes wrong with an input goes wrong in the stage of the inputs. -/
theorem failsAt_one_iff : settings.FailsAt o fs (1 :: a) e ↔
    InRow settings.inputs (fun input b => b = [] ∧ inputPaths fs input = .error e) a := by
  constructor
  · intro hfails
    cases hfails with
    | pattern hj hpattern h =>
      exact ⟨_, _, _, rfl, hj, rfl, inputPaths_eq_error_iff.mpr ⟨hpattern, Or.inl ⟨_, h, rfl⟩⟩⟩
    | unmatched hj hpattern h =>
      exact ⟨_, _, _, rfl, hj, rfl, inputPaths_eq_error_iff.mpr ⟨hpattern, Or.inr ⟨h, rfl⟩⟩⟩
  · rintro ⟨j, _, input, rfl, hj, rfl, herror⟩
    obtain ⟨hpattern, ⟨broken, h, rfl⟩ | ⟨h, rfl⟩⟩ := inputPaths_eq_error_iff.mp herror
    · exact .pattern hj hpattern h
    · exact .unmatched hj hpattern h

/-- What goes wrong with a path goes wrong in the stage of the sets. -/
theorem failsAt_two_iff : settings.FailsAt o fs (2 :: a) e ↔
    InRow settings.inputs (fun input b => ∃ ps, inputPaths fs input = .ok ps ∧
      InRow ps (fun path c => c = [] ∧ loadSet fs path = .error e) b) a := by
  constructor
  · intro hfails
    cases hfails with
    | unreadable hj hpaths hk h =>
      exact ⟨_, _, _, rfl, hj, _, hpaths, _, _, _, rfl, hk, rfl,
        loadSet_eq_error_iff.mpr (Or.inl ⟨h, rfl⟩)⟩
    | undecodable hj hpaths hk hbytes h =>
      exact ⟨_, _, _, rfl, hj, _, hpaths, _, _, _, rfl, hk, rfl,
        loadSet_eq_error_iff.mpr (Or.inr ⟨_, hbytes, h, rfl⟩)⟩
  · rintro ⟨j, _, input, rfl, hj, ps, hpaths, k, _, path, rfl, hk, rfl, herror⟩
    obtain ⟨h, rfl⟩ | ⟨bytes, hbytes, h, rfl⟩ := loadSet_eq_error_iff.mp herror
    · exact .unreadable hj hpaths hk h
    · exact .undecodable hj hpaths hk hbytes h

/-- What goes wrong with a target goes wrong in the last stage, once the others are through. -/
theorem failsAt_three_iff {p : Policy} {paths : List String} {forest : List File}
    (hp : o.resolve = .ok p) (hpaths : allInputPaths fs settings.inputs = .ok paths)
    (hforest : loadForest fs paths = .ok forest) :
    settings.FailsAt o fs (3 :: a) e ↔ ∃ e', InRow (settings.targets forest)
      (fun target b => b = [] ∧ (Session.mk forest p).Refuses target e') a ∧ e = .session e' := by
  constructor
  · intro hfails
    cases hfails with
    | session hp' hpaths' hforest' hi h =>
      obtain rfl := Except.ok.inj (hp.symm.trans hp')
      obtain rfl := Except.ok.inj (hpaths.symm.trans hpaths')
      obtain rfl := Except.ok.inj (hforest.symm.trans hforest')
      exact ⟨_, ⟨_, _, _, rfl, hi, rfl, h⟩, rfl⟩
  · rintro ⟨e', ⟨i, _, target, rfl, hi, rfl, h⟩, rfl⟩
    exact .session hp hpaths hforest hi h

/-- What goes wrong goes wrong in one of four stages. -/
theorem FailsAt.exists_stage (h : settings.FailsAt o fs a e) : ∃ l b, a = l :: b ∧ l ≤ 3 := by
  cases h with
  | options => exact ⟨_, _, rfl, by decide⟩
  | pattern => exact ⟨_, _, rfl, by decide⟩
  | unmatched => exact ⟨_, _, rfl, by decide⟩
  | unreadable => exact ⟨_, _, rfl, by decide⟩
  | undecodable => exact ⟨_, _, rfl, by decide⟩
  | session => exact ⟨_, _, rfl, by decide⟩

/-- **What to write** is settled when nothing goes wrong, and else it fails as the first thing that
does. -/
theorem failsFirst_documents (settings : ConvertSettings) (o : Options) (fs : FileSystem) :
    FailsFirst (settings.FailsAt o fs) (settings.documents o fs) := by
  have hstages : FailsFirst (FromStage 0 (settings.FailsAt o fs)) (settings.documents o fs) := by
    -- the stages in their order, each with the results of those before
    refine .stage ?_ fun p hp => .stage ?_ fun paths hpaths => .stage ?_ fun forest hforest =>
      .lastStage ?_ ?_
    · exact ((FailsFirst.self o.resolve).mapError _).congr fun _ _ => failsAt_zero_iff.symm
    · exact (failsFirst_allInputPaths fs settings.inputs).congr fun _ _ => failsAt_one_iff.symm
    · exact (failsFirst_loadForest hpaths).congr fun _ _ => failsAt_two_iff.symm
    · rw [mapError_eq_ok_iff] at hp
      exact (failsFirst_generate _ _).congr fun _ _ =>
        (failsAt_three_iff hp hpaths hforest).symm
    · intro l b e h
      obtain ⟨_, _, heq, hle⟩ := h.exists_stage
      obtain ⟨rfl, -⟩ := List.cons.inj heq
      exact hle
  refine hstages.congr fun a e => ⟨And.left, fun h => ⟨h, ?_⟩⟩
  obtain ⟨l, b, rfl, -⟩ := h.exists_stage
  exact ⟨l, b, rfl, Nat.zero_le l⟩

end ConvertSettings

/-! ## The run -/

/-- A run whose documents cannot be settled leaves nothing behind. -/
theorem runConvert_of_error {settings : ConvertSettings} {o : Options} {e : ConvertFailure}
    (h : settings.documents o fs = .error e) :
    runConvert settings o fs = ⟨[], fs, some e.message⟩ := by
  rw [runConvert, ConvertSettings.delivery, h]
  rfl

/-- **A conversion that fails leaves nothing behind.** When the options are in conflict, when an
input is a pattern that is broken or that no file matches, when a path that an input stands for
cannot be read or holds no descriptor set, or when a target is unknown or does not convert, then the
run fails with the text of the first of these in that order. Nothing is printed, and the files stay
as they were. When none of this is the case the documents are settled. -/
theorem Invocation.run_of_failsAt {i : Invocation} {settings : ConvertSettings}
    (hi : i.command = .convert settings) (fs : FileSystem) (input : Input) :
    ((∃ a e, settings.FailsAt i.options fs a e) →
      ∃ a e, IsFirst (settings.FailsAt i.options fs) a e ∧
        i.run fs input = ⟨[], fs, some e.message⟩) ∧
    ((∀ a e, ¬ settings.FailsAt i.options fs a e) →
      ∃ documents, settings.documents i.options fs = .ok documents) := by
  have hfirst := settings.failsFirst_documents i.options fs
  rw [run, hi]
  cases hdocuments : settings.documents i.options fs with
  | ok documents =>
    rw [hdocuments] at hfirst
    exact ⟨fun ⟨a, e, h⟩ => absurd h (hfirst a e), fun _ => ⟨documents, rfl⟩⟩
  | error e =>
    rw [hdocuments] at hfirst
    obtain ⟨a, ha⟩ := hfirst
    exact ⟨fun _ => ⟨a, e, ha, runConvert_of_error hdocuments⟩, fun h => absurd ha.1 (h a e)⟩

/-! ### A desk -/

namespace Desk

/-- A desk with one file, which is no descriptor set. -/
def files : FileSystem := ⟨.directory [("notes.txt", .file [255])], []⟩

/-- The arguments ask for the sets on the desk and for the notes, and for documents in a directory
that is not there. -/
def arguments : List String := ["convert", "-i", "*.set", "notes.txt", "-o", "documents"]

/-- What the arguments say. -/
def settings : ConvertSettings := ⟨["*.set", "notes.txt"], [], some "documents"⟩

/-- The notes are no set, but before that there are no sets. -/
theorem run_of_failsAt_desk :
    parseArguments arguments = .ok ⟨{}, .convert settings⟩ ∧
    settings.FailsAt {} files [2, 1, 0] (.undecodable "notes.txt") ∧
    ∃ a e, IsFirst (settings.FailsAt {} files) a e ∧
      (Invocation.mk {} (.convert settings)).run files { bytes := [] } =
        ⟨[], files, some e.message⟩ := by
  have hbytes : files.read? "notes.txt" = some [255] := by with_unfolding_all rfl
  have hdecode : decodeFileSet? [255] = none := by with_unfolding_all rfl
  have hnotes : settings.FailsAt {} files [2, 1, 0] (.undecodable "notes.txt") :=
    .undecodable rfl rfl rfl hbytes hdecode
  have hcommand : (Invocation.mk {} (.convert settings)).command = .convert settings := rfl
  obtain ⟨hfailed, -⟩ := Invocation.run_of_failsAt hcommand files { bytes := [] }
  exact ⟨by with_unfolding_all rfl, hnotes, hfailed ⟨_, _, hnotes⟩⟩

example : ((Invocation.mk {} (.convert settings)).run files { bytes := [] }).failure =
    some (ConvertFailure.unmatched "*.set").message := by
  with_unfolding_all rfl

end Desk

end ProtoSchema
