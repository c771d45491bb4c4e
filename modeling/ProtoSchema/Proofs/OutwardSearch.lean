import ProtoSchema.Proofs.Simulation

/-!
# The search outwards

A name without a leading dot is looked for in the package where it is used and in the packages
around it, the nearest first. In a tree of packages this comes to looking up full names: a package
is led to by its name (`Registry.IsTree.lookupType_fullName`), so that reading a name from a package
is looking up the name of the package and the name behind it from the root. The search ends at the
root, since a package is newer than the one around it (`Registry.IsTree.outwards_descends`).

The way outwards is given by the links of the packages alone (`Registry.Outwards`), without the
bound that the function carries to be seen to end. There is only one such way, and the function goes
it (`Registry.IsTree.outwards_outwards`). What it finds on it is then a question about a list: the
first element that comes to something, or none.
-/

namespace ProtoSchema

namespace Registry

/-- From the first package the row of packages leads outwards, the nearest first, to a package that
has none around it. -/
inductive Outwards (r : Registry) : Nat → List Nat → Prop where
  /-- a package that has none around it -/
  | outermost {id : Nat} (h : (r.node id).parent = none) : Outwards r id [id]
  /-- a package, and outwards from the one around it -/
  | inside {id p : Nat} {ids : List Nat} (h : (r.node id).parent = some p)
    (hids : Outwards r p ids) : Outwards r id (id :: ids)

/-- A name as it is read from a package, in full. -/
def fullName (r : Registry) (id : Nat) (name : String) : String :=
  (r.node id).name ++ "." ++ name

variable {r : Registry}

/-- There is one way outwards. -/
theorem Outwards.unique {id : Nat} {ids ids' : List Nat} (h : r.Outwards id ids)
    (h' : r.Outwards id ids') : ids = ids' := by
  induction h generalizing ids' with
  | outermost hnone =>
    cases h' with
    | outermost => rfl
    | inside hp =>
      rw [hnone] at hp
      cases hp
  | inside hp _ ih =>
    cases h' with
    | outermost hnone =>
      rw [hp] at hnone
      cases hnone
    | inside hp' hids' =>
      obtain rfl := Option.some.inj (hp.symm.trans hp')
      rw [ih hids']

namespace IsTree

variable (h : r.IsTree)
include h

/-- The way outwards ends for every package. -/
theorem outwards_outwards {id : Nat} (hid : id < r.nodes.size) :
    r.Outwards id (r.outwards id) := by
  refine h.induction (motive := fun id => r.Outwards id (r.outwards id)) ?_ ?_ hid
  · rw [h.outwards_root]
    exact .outermost ((h.parent_eq_none_iff root h.nonempty).mpr rfl)
  · intro p segment id hmem ih
    obtain ⟨-, hp, -, -⟩ := h.child p segment id hmem
    rw [h.outwards_child hmem]
    exact .inside hp ih

theorem lt_of_mem_outwards {id a : Nat} {ids : List Nat} (hids : r.Outwards id ids)
    (hid : id < r.nodes.size) (ha : a ∈ ids) : a ≤ id ∧ a < r.nodes.size := by
  induction hids with
  | outermost =>
    obtain rfl := List.mem_singleton.mp ha
    exact ⟨Nat.le_refl _, hid⟩
  | @inside id p ids hp _ ih =>
    rcases List.mem_cons.mp ha with rfl | ha
    · exact ⟨Nat.le_refl _, hid⟩
    · obtain ⟨hlt, -⟩ := h.parent id p hid hp
      obtain ⟨hle, hsize⟩ := ih (Nat.lt_trans hlt hid) ha
      exact ⟨Nat.le_trans hle (Nat.le_of_lt hlt), hsize⟩

/-- Outwards the packages get older, and the last one is the root. -/
theorem outwards_descends {id : Nat} {ids : List Nat} (hids : r.Outwards id ids)
    (hid : id < r.nodes.size) : ids.Pairwise (· > ·) ∧ ids.getLast? = some root := by
  induction hids with
  | @outermost id hnone =>
    obtain rfl := (h.parent_eq_none_iff id hid).mp hnone
    exact ⟨List.pairwise_singleton _ _, rfl⟩
  | @inside id p ids hp hids ih =>
    obtain ⟨hlt, -⟩ := h.parent id p hid hp
    obtain ⟨hpairwise, hlast⟩ := ih (Nat.lt_trans hlt hid)
    refine ⟨List.pairwise_cons.mpr ⟨fun a ha => ?_, hpairwise⟩, ?_⟩
    · exact Nat.lt_of_le_of_lt (h.lt_of_mem_outwards hids (Nat.lt_trans hlt hid) ha).1 hlt
    · rw [List.getLast?_cons, hlast]
      rfl

/-- **A full name** is read from the root as its last part is from the package in front. The
segments of the package lead down to it, and what is behind them is not empty, so that the way down
does not take it for a type. -/
theorem lookupType_fullName {id : Nat} (hid : id < r.nodes.size) (name : String)
    (context : PackageId) :
    r.lookupType context (r.fullName id name) = r.resolve id (components name) := by
  have hparts : components (r.fullName id name) = "" :: (r.path id ++ components name) := by
    have hpath : ∀ part ∈ r.path id, '.' ∉ part.toList := fun _ hpart =>
      (isSegment_of_mem_segments hpart).2
    rw [fullName, components_append, h.name_eq hid, components_dottedName hpath]
    rfl
  rw [lookupType_of_components_eq
    (List.append_ne_nil_of_right_ne_nil _ (components_ne_nil name)) hparts]
  exact resolve_append (h.descend_root_iff.mpr ⟨hid, rfl⟩) (components_ne_nil name)

section Relative

variable {id : Nat} (hid : id < r.nodes.size) {name : String}
  (hname : ∀ tail, name ≠ "." ++ tail) {ids : List Nat} (hids : r.Outwards id ids)
include hid hname hids

/-- A name without a leading dot is looked for under the full names that it has outwards. -/
theorem lookupType_eq : r.lookupType id name =
    ((ids.findSome? fun a => (r.lookupType root (r.fullName a name)).toOption).elim
      (.error (.notFound name (r.node id).name)) .ok) := by
  have hparts : ∀ parts, parts ≠ [] → components name ≠ "" :: parts := by
    intro parts hne hparts
    obtain ⟨tail, htail, -⟩ := exists_of_components_eq hne hparts
    exact hname tail htail
  have hfull : ∀ a ∈ ids, (r.resolve a (components name)).toOption =
      (r.lookupType root (r.fullName a name)).toOption := fun a ha => by
    rw [h.lookupType_fullName (h.lt_of_mem_outwards hids hid ha).2]
  rw [lookupType_of_components_ne hparts, (h.outwards_outwards hid).unique hids,
    ← List.head?_filterMap, List.filterMap_congr hfull, List.head?_filterMap]
  split
  · next hfound => rw [hfound, Option.elim_some]
  · next hnone => rw [hnone, Option.elim_none]

/-- It means what the first of them means that means anything. -/
theorem lookupType_eq_ok_iff {d : Declaration} : r.lookupType id name = .ok d ↔
    ∃ before a after, ids = before ++ a :: after ∧
      r.lookupType root (r.fullName a name) = .ok d ∧
      ∀ b ∈ before, ∀ e, r.lookupType root (r.fullName b name) ≠ .ok e := by
  simp only [h.lookupType_eq hid hname hids, ← toOption_eq_some_iff, ← toOption_eq_none_iff]
  rw [← List.findSome?_eq_some_iff]
  cases ids.findSome? fun a => (r.lookupType root (r.fullName a name)).toOption <;> rfl

/-- It is not found when none of them means anything. -/
theorem lookupType_eq_error_iff {err : LookupError} : r.lookupType id name = .error err ↔
    (∀ a ∈ ids, ∀ d, r.lookupType root (r.fullName a name) ≠ .ok d) ∧
      err = .notFound name (r.node id).name := by
  simp only [h.lookupType_eq hid hname hids, ← toOption_eq_none_iff]
  rw [← List.findSome?_eq_none_iff]
  cases ids.findSome? fun a => (r.lookupType root (r.fullName a name)).toOption with
  | none => simp [eq_comm]
  | some d => simp

end Relative

end IsTree

/-- **Relative names**: from every package a way leads outwards, through older and older packages up
to the root. A name without a leading dot means what the first of its full names on that way means
that means anything. When none of them does it is not found, for whatever reasons they were not. -/
theorem lookupType_outwards (messages : List (String × Declaration)) :
    let r := empty.registerAll messages
    ∀ context : Nat, context < r.nodes.size → ∃ ids, r.Outwards context ids ∧
      ids.Pairwise (· > ·) ∧ ids.getLast? = some root ∧
      ∀ name : String, (∀ tail, name ≠ "." ++ tail) →
        (∀ d, r.lookupType context name = .ok d ↔ ∃ before a after, ids = before ++ a :: after ∧
          r.lookupType root (r.fullName a name) = .ok d ∧
          ∀ b ∈ before, ∀ e, r.lookupType root (r.fullName b name) ≠ .ok e) ∧
        ∀ err, r.lookupType context name = .error err ↔
          (∀ a ∈ ids, ∀ d, r.lookupType root (r.fullName a name) ≠ .ok d) ∧
          err = .notFound name (r.node context).name := by
  intro r context hcontext
  have h : r.IsTree := (holds_registerAll messages).tree
  have hids := h.outwards_outwards hcontext
  obtain ⟨hpairwise, hlast⟩ := h.outwards_descends hids hcontext
  refine ⟨_, hids, hpairwise, hlast, fun name hname => ⟨fun d => ?_, fun err => ?_⟩⟩
  · exact h.lookupType_eq_ok_iff hcontext hname hids
  · exact h.lookupType_eq_error_iff hcontext hname hids

namespace Nested

/-- A label in a package, inside which is another package of the same name. -/
def messages : List (String × Declaration) :=
  [("shop", ⟨[0, 0], { name := "Label" }⟩), ("shop.shop", ⟨[1, 0], { name := "Box" }⟩)]

end Nested

/-- From the outer package the name of the label leads into the inner one first, where there is no
label, and then from the root to the label. The name of a crate leads to nothing from both. -/
theorem lookupType_outwards_nested : let r := empty.registerAll Nested.messages
    r.lookupType 1 "shop.Label" = .ok ⟨[0, 0], { name := "Label" }⟩ ∧
    (∀ d, r.lookupType root (r.fullName 1 "shop.Label") ≠ .ok d) ∧
    r.lookupType 1 "shop.Crate" = .error (.notFound "shop.Crate" ".shop") := by
  intro r
  obtain ⟨ids, hids, -, -, hlookup⟩ := lookupType_outwards Nested.messages 1 (by decide +kernel)
  obtain rfl : ids = [1, root] := hids.unique (.inside (by decide +kernel) (.outermost rfl))
  have hdot : ∀ name : String, name.toList.head? = some 's' → ∀ tail, name ≠ "." ++ tail := by
    rintro _ hs tail rfl
    simp at hs
  have hlabel : ∀ d, r.lookupType root (r.fullName 1 "shop.Label") ≠ .ok d :=
    toOption_eq_none_iff.mp (by decide +kernel)
  have hcrate : ∀ a ∈ [1, root],
      (r.lookupType root (r.fullName a "shop.Crate")).toOption = none := by decide +kernel
  refine ⟨?_, hlabel, ?_⟩
  · refine ((hlookup "shop.Label" (hdot _ rfl)).1 _).mpr ⟨[1], root, [], rfl, ?_, ?_⟩
    · decide +kernel
    · intro b hb
      obtain rfl := List.mem_singleton.mp hb
      exact hlabel
  · exact ((hlookup "shop.Crate" (hdot _ rfl)).2 _).mpr
      ⟨fun a ha => toOption_eq_none_iff.mp (hcrate a ha), by decide +kernel⟩

end Registry

end ProtoSchema
