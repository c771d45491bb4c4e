import Mathlib.Data.List.Nodup
import ProtoSchema.Registry.Lookup

/-!
# Packages form a tree

A registry keeps its packages in an array, with numbers for the links up and down. This module shows
that the links make a tree (`Registry.IsTree`): every package but the root is newer than the one
around it, is a child of that one alone, and is named for it and for one segment more. Making a
child keeps the tree (`IsTree.enter`), and nothing that was there changes but for children that come
last (`Registry.Extends`).

The lemmas on making a child (`name_enter`, `parent_enter`, `children_enter`) tell all that the step
does to a package, and the definition is opened for these alone. Each part of the invariant follows
from two of them, and is a lemma of its own.

In a tree a package is known by the segments of its name: they lead down from the root to it and to
no other package (`IsTree.descend_root_iff`). For this the segments of a name have to be told from
the name, so that no segment may be empty or hold a dot.
-/

namespace ProtoSchema

namespace Registry

/-- The segments of the name of a package. -/
def path (r : Registry) (id : PackageId) : List String := segments (r.node id).name

/-- The segments of the children of a package. -/
def childNames (r : Registry) (id : Nat) : List String := (r.node id).children.map (·.1)

/-! ## Making a child

The new package has the number that is next, which no link holds before.
-/

section Enter

variable {r : Registry} {id : Nat} {segment : String}

/-- A number that no package has stands for one without name, links and types. -/
theorem node_of_size_le (h : r.nodes.size ≤ id) : r.node id = {} := by
  rw [node, Array.getD_eq_getD_getElem?, Array.getElem?_eq_none h]
  rfl

/-- Only packages have children. -/
theorem lt_of_mem_children {p : Nat} {e : String × PackageId} (h : e ∈ (r.node p).children) :
    p < r.nodes.size := by
  by_contra hge
  rw [node_of_size_le (Nat.le_of_not_lt hge)] at h
  cases h

/-- A child that is there is entered, and nothing changes. -/
theorem enter_of_child {child : Nat} (h : r.child? id segment = some child) :
    r.enter id segment = (r, child) := by
  rw [enter, h]

theorem child?_eq_none_iff :
    r.child? id segment = none ↔ segment ∉ r.childNames id := by
  rw [child?, List.lookup_eq_none_iff, childNames, List.mem_map]
  simp only [bne_iff_ne, not_exists, not_and]
  exact ⟨fun h e he heq => h e he heq.symm, fun h e he heq => h e he heq.symm⟩

variable (hid : id < r.nodes.size) (hnone : r.child? id segment = none)
include hnone

theorem enter_snd : (r.enter id segment).2 = r.nodes.size := by
  rw [enter, hnone]

/-- One package is made. -/
theorem size_enter : (r.enter id segment).1.nodes.size = r.nodes.size + 1 := by
  simp only [enter, hnone, Array.size_push, Array.size_modify]

include hid

/-- The package that is entered gets a child, and the child has a name and nothing else. -/
theorem node_enter (j : Nat) :
    (r.enter id segment).1.node j =
      if j = r.nodes.size then { name := r.childName id segment, parent := some id }
      else if j = id then
        { r.node id with children := (r.node id).children ++ [(segment, r.nodes.size)] }
      else r.node j := by
  simp only [enter, hnone, node, Array.getD_eq_getD_getElem?, Array.getElem?_push,
    Array.size_modify, Array.getElem?_modify]
  by_cases hj : j = r.nodes.size
  · rw [if_pos hj, if_pos hj]
    rfl
  · rw [if_neg hj, if_neg hj]
    by_cases hji : j = id
    · subst hji
      rw [child?_eq_none_iff, childNames, node, Array.getD_eq_getD_getElem?] at hnone
      rw [if_pos rfl, if_pos rfl, Array.getElem?_eq_getElem hid, Option.map_some,
        Option.getD_some]
      rw [Array.getElem?_eq_getElem hid, Option.getD_some] at hnone
      rw [put_eq_append hnone]
      rfl
    · rw [if_neg hji, if_neg (Ne.symm hji)]

/-- Only the new package gets a name, made of that of the package around it and of its segment. -/
theorem name_enter (j : Nat) :
    ((r.enter id segment).1.node j).name =
      if j = r.nodes.size then r.childName id segment else (r.node j).name := by
  rw [node_enter hid hnone]
  split
  · rfl
  · split
    · next hj => rw [hj]
    · rfl

/-- Only the new package gets a package around it, the one that it is entered from. -/
theorem parent_enter (j : Nat) :
    ((r.enter id segment).1.node j).parent =
      if j = r.nodes.size then some id else (r.node j).parent := by
  rw [node_enter hid hnone]
  split
  · rfl
  · split
    · next hj => rw [hj]
    · rfl

/-- Only the package that is entered from gets a child, which comes last. -/
theorem children_enter (j : Nat) :
    ((r.enter id segment).1.node j).children =
      if j = id then (r.node j).children ++ [(segment, r.nodes.size)] else (r.node j).children := by
  rw [node_enter hid hnone]
  split
  · next hj =>
    rw [if_neg (hj ▸ Nat.ne_of_gt hid), hj, node_of_size_le (Nat.le_refl _)]
  · split
    · next hj => rw [hj]
    · rfl

/-- A child of the new registry is a child of the old one, or the new child. -/
theorem mem_children_enter_iff {p j : Nat} {s : String} :
    (s, j) ∈ ((r.enter id segment).1.node p).children ↔
      (s, j) ∈ (r.node p).children ∨ (p = id ∧ s = segment ∧ j = r.nodes.size) := by
  rw [children_enter hid hnone]
  split
  · next hp => simp [hp]
  · next hp => simp [hp]

end Enter

/-- Entering a child changes no message types. -/
theorem types_enter {r : Registry} {id : Nat} (hid : id < r.nodes.size) (segment : String)
    (j : Nat) : ((r.enter id segment).1.node j).types = (r.node j).types := by
  cases hchild : r.child? id segment with
  | some child => rw [enter_of_child hchild]
  | none =>
    rw [node_enter hid hchild]
    split
    · next hj => rw [hj, node_of_size_le (Nat.le_refl _)]
    · split
      · next hj => rw [hj]
      · rfl

/-- What is entered is a child of the package that it is entered from. -/
theorem mem_children_enter {r : Registry} {id : Nat} (hid : id < r.nodes.size)
    (segment : String) :
    (segment, (r.enter id segment).2) ∈ ((r.enter id segment).1.node id).children := by
  cases hchild : r.child? id segment with
  | some child =>
    rw [enter_of_child hchild]
    exact mem_of_lookup hchild
  | none =>
    rw [children_enter hid hchild, if_pos rfl, enter_snd hchild]
    exact List.mem_append_right _ List.mem_cons_self

/-- A package that was not there before is the one that is entered. -/
theorem eq_of_size_le_enter {r : Registry} {id : Nat} {segment : String} {j : Nat}
    (hge : r.nodes.size ≤ j) (hlt : j < (r.enter id segment).1.nodes.size) :
    j = (r.enter id segment).2 := by
  cases hchild : r.child? id segment with
  | some child =>
    rw [enter_of_child hchild] at hlt
    exact absurd hlt (Nat.not_lt.mpr hge)
  | none =>
    rw [size_enter hchild] at hlt
    rw [enter_snd hchild]
    omega

/-- The package that is entered from gets the segment, unless it has it. -/
theorem childNames_enter {r : Registry} {id : Nat} (hid : id < r.nodes.size) (segment : String)
    (j : Nat) : (r.enter id segment).1.childNames j =
      if j = id then addName (r.childNames j) segment else r.childNames j := by
  cases hchild : r.child? id segment with
  | some child =>
    rw [enter_of_child hchild]
    split
    · next hj =>
      rw [addName_of_mem]
      exact hj ▸ List.mem_map.mpr ⟨_, mem_of_lookup hchild, rfl⟩
    · rfl
  | none =>
    rw [childNames, children_enter hid hchild]
    split
    · next hj =>
      subst hj
      rw [List.map_append, addName, if_neg (child?_eq_none_iff.mp hchild)]
      rfl
    · rfl

/-! ## What does not change

A way down that was there before is there afterwards, and ends at the same package. Ways that ended
early may go on now.
-/

/-- What is in the first registry is in the second: the packages keep their numbers, their names and
what is around them, and get new children behind those that they have. -/
structure Extends (r r' : Registry) : Prop where
  /-- no package is taken away -/
  size_le : r.nodes.size ≤ r'.nodes.size
  /-- the names stay -/
  name : ∀ id : Nat, id < r.nodes.size → (r'.node id).name = (r.node id).name
  /-- the packages around stay -/
  parent : ∀ id : Nat, id < r.nodes.size → (r'.node id).parent = (r.node id).parent
  /-- the children stay, and in their order -/
  children : ∀ id : Nat, id < r.nodes.size → (r.node id).children <+: (r'.node id).children

theorem Extends.refl (r : Registry) : r.Extends r :=
  ⟨Nat.le_refl _, fun _ _ => rfl, fun _ _ => rfl, fun _ _ => List.prefix_refl _⟩

theorem Extends.trans {r r' r'' : Registry} (h : r.Extends r') (h' : r'.Extends r'') :
    r.Extends r'' where
  size_le := Nat.le_trans h.size_le h'.size_le
  name id hid := (h'.name id (Nat.lt_of_lt_of_le hid h.size_le)).trans (h.name id hid)
  parent id hid := (h'.parent id (Nat.lt_of_lt_of_le hid h.size_le)).trans (h.parent id hid)
  children id hid :=
    (h.children id hid).trans (h'.children id (Nat.lt_of_lt_of_le hid h.size_le))

theorem Extends.path_eq {r r' : Registry} (h : r.Extends r') {id : Nat}
    (hid : id < r.nodes.size) : r'.path id = r.path id := by
  rw [path, path, h.name id hid]

theorem extends_enter {r : Registry} {id : Nat} (hid : id < r.nodes.size)
    (segment : String) : r.Extends (r.enter id segment).1 := by
  cases hchild : r.child? id segment with
  | some child =>
    rw [enter_of_child hchild]
    exact .refl r
  | none =>
    refine ⟨?_, fun j hj => ?_, fun j hj => ?_, fun j hj => ?_⟩
    · rw [size_enter hchild]
      exact Nat.le_succ _
    · rw [name_enter hid hchild, if_neg (Nat.ne_of_lt hj)]
    · rw [parent_enter hid hchild, if_neg (Nat.ne_of_lt hj)]
    · rw [children_enter hid hchild]
      split
      · exact List.prefix_append _ _
      · exact List.prefix_refl _

/-- Down two ways, one after the other. -/
theorem descend_append (r : Registry) (id : Nat) (way way' : List String) :
    r.descend id (way ++ way') = r.descend id way >>= fun j => r.descend j way' := by
  induction way generalizing id with
  | nil => rfl
  | cons segment rest ih =>
    rw [List.cons_append, descend, descend]
    cases r.child? id segment with
    | some child => exact ih child
    | none => rfl

/-- The way ends early at the first package that has no child for its segment. -/
theorem descend_eq_error_iff {r : Registry} {way : List String} {id : Nat} {e : LookupError} :
    r.descend id way = .error e ↔ ∃ front segment rest j, way = front ++ segment :: rest ∧
      r.descend id front = .ok j ∧ r.child? j segment = none ∧
      e = .noSuchPackage (r.childName j segment) := by
  induction way generalizing id with
  | nil =>
    -- an empty way does not end early
    refine iff_of_false (fun h => nomatch h) ?_
    rintro ⟨front, segment, rest, j, hway, -⟩
    cases front <;> cases hway
  | cons s way ih =>
    rw [descend]
    rcases hchild : r.child? id s with _ | child
    · refine ⟨fun h => ⟨[], s, way, id, rfl, rfl, hchild, (Except.error.inj h).symm⟩, ?_⟩
      rintro ⟨front, segment, rest, j, hway, hj, -, rfl⟩
      cases front with
      | nil =>
        obtain ⟨rfl, rfl⟩ := List.cons.inj hway
        obtain rfl := Except.ok.inj hj
        rfl
      | cons t front =>
        obtain ⟨rfl, rfl⟩ := List.cons.inj hway
        rw [descend, hchild] at hj
        cases hj
    · refine ih.trans ⟨?_, ?_⟩
      · -- the way goes on from the child, and may end early there
        rintro ⟨front, segment, rest, j, rfl, hj, hend⟩
        refine ⟨s :: front, segment, rest, j, rfl, ?_, hend⟩
        rw [descend, hchild]
        exact hj
      · rintro ⟨front, segment, rest, j, hway, hj, hend, he⟩
        cases front with
        | nil =>
          obtain ⟨rfl, rfl⟩ := List.cons.inj hway
          obtain rfl := Except.ok.inj hj
          rw [hchild] at hend
          cases hend
        | cons t front =>
          obtain ⟨rfl, rfl⟩ := List.cons.inj hway
          rw [descend, hchild] at hj
          exact ⟨front, segment, rest, j, rfl, hj, hend, he⟩

/-! ## Trees

The invariant is on the links in both directions, since the search for a name goes down by children
and up by the packages around.
-/

/-- The links between packages make a tree. -/
structure IsTree (r : Registry) : Prop where
  /-- there is a root -/
  nonempty : root < r.nodes.size
  /-- the root has the empty name -/
  root_name : (r.node root).name = ""
  /-- the root alone has no package around it -/
  parent_eq_none_iff : ∀ id : Nat, id < r.nodes.size → ((r.node id).parent = none ↔ id = root)
  /-- every other package is newer than the one around it, and is a child of it -/
  parent : ∀ id p : Nat, id < r.nodes.size → (r.node id).parent = some p →
    p < id ∧ ∃ segment, (segment, id) ∈ (r.node p).children
  /-- every child is a package, the package around it is this one alone, and it is named for this
  one and for its segment -/
  child : ∀ (p : Nat) (segment : String) (id : Nat), (segment, id) ∈ (r.node p).children →
    id < r.nodes.size ∧ (r.node id).parent = some p ∧ IsSegment segment ∧
      (r.node id).name = (r.node p).name ++ "." ++ segment
  /-- no two children of a package have one segment -/
  nodup : ∀ p : Nat, (r.childNames p).Nodup
  /-- the children stand in the order in which they were made -/
  ascending : ∀ p : Nat, ((r.node p).children.map (·.2)).Pairwise (· < ·)

theorem isTree_empty : empty.IsTree := by
  have hnode : ∀ id, empty.node id = {} := by
    intro id
    cases id with
    | zero => rfl
    | succ id => exact node_of_size_le (Nat.succ_le_succ (Nat.zero_le id))
  refine ⟨Nat.zero_lt_one, rfl, fun id hid => ?_, fun id p _ hp => ?_, fun p s id h => ?_,
    fun p => ?_, fun p => ?_⟩
  · exact iff_of_true (by rw [hnode]) (Nat.lt_one_iff.mp hid)
  · rw [hnode] at hp
    cases hp
  · rw [hnode] at h
    cases h
  · rw [childNames, hnode]
    exact .nil
  · rw [hnode]
    exact .nil

namespace IsTree

variable {r : Registry} (h : r.IsTree)
include h

theorem child?_iff {p id : Nat} {segment : String} :
    r.child? p segment = some id ↔ (segment, id) ∈ (r.node p).children :=
  ⟨mem_of_lookup, fun hmem => lookup_of_mem (h.nodup p) hmem⟩

/-! ### Making a child -/

section Enter

variable {id : Nat} {segment : String} (hid : id < r.nodes.size)
  (hnone : r.child? id segment = none)
include hid hnone

/-- The new child has a package around it, and so it is not the root. -/
theorem parent_eq_none_iff_enter {j : Nat} (hj : j < (r.enter id segment).1.nodes.size) :
    ((r.enter id segment).1.node j).parent = none ↔ j = root := by
  rw [size_enter hnone] at hj
  rw [parent_enter hid hnone]
  split
  · next hnew =>
    refine iff_of_false (Option.some_ne_none id) fun hroot => ?_
    exact Nat.ne_of_gt h.nonempty (hnew.symm.trans hroot)
  · next hold => exact h.parent_eq_none_iff j (by omega)

/-- The new child is newer than the package that it is entered from, and a child of it. -/
theorem parent_lt_enter {j p : Nat} (hj : j < (r.enter id segment).1.nodes.size)
    (hp : ((r.enter id segment).1.node j).parent = some p) :
    p < j ∧ ∃ s, (s, j) ∈ ((r.enter id segment).1.node p).children := by
  rw [size_enter hnone] at hj
  rw [parent_enter hid hnone] at hp
  split at hp
  · next hnew =>
    obtain rfl := Option.some.inj hp
    exact ⟨hnew ▸ hid, segment, (mem_children_enter_iff hid hnone).mpr (.inr ⟨rfl, rfl, hnew⟩)⟩
  · next hold =>
    obtain ⟨hlt, s, hs⟩ := h.parent j p (by omega) hp
    exact ⟨hlt, s, (mem_children_enter_iff hid hnone).mpr (.inl hs)⟩

/-- The new child is named for the package that it is entered from and for its segment. -/
theorem child_enter (hsegment : IsSegment segment) {p j : Nat} {s : String}
    (hj : (s, j) ∈ ((r.enter id segment).1.node p).children) :
    j < (r.enter id segment).1.nodes.size ∧ ((r.enter id segment).1.node j).parent = some p ∧
      IsSegment s ∧ ((r.enter id segment).1.node j).name =
        ((r.enter id segment).1.node p).name ++ "." ++ s := by
  have hextends := extends_enter hid segment
  rcases (mem_children_enter_iff hid hnone).mp hj with hj | ⟨rfl, rfl, rfl⟩
  · obtain ⟨hlt, hp, hs, hname⟩ := h.child p s j hj
    refine ⟨Nat.lt_of_lt_of_le hlt hextends.size_le, ?_, hs, ?_⟩
    · rw [hextends.parent j hlt, hp]
    · rw [hextends.name j hlt, hextends.name p (lt_of_mem_children hj), hname]
  · refine ⟨?_, ?_, hsegment, ?_⟩
    · rw [size_enter hnone]
      exact Nat.lt_succ_self _
    · rw [parent_enter hid hnone, if_pos rfl]
    · rw [name_enter hid hnone, if_pos rfl, hextends.name p hid, childName]

/-- The segment of the new child is none that was there. -/
theorem nodup_enter (p : Nat) : ((r.enter id segment).1.childNames p).Nodup := by
  rw [childNames, children_enter hid hnone]
  split
  · next hp =>
    rw [List.map_append, List.nodup_append']
    refine ⟨h.nodup p, List.nodup_singleton _, ?_⟩
    rw [hp, List.map_singleton, List.disjoint_singleton]
    exact child?_eq_none_iff.mp hnone
  · exact h.nodup p

/-- The new child is newer than all others. -/
theorem ascending_enter (p : Nat) :
    (((r.enter id segment).1.node p).children.map (·.2)).Pairwise (· < ·) := by
  rw [children_enter hid hnone]
  split
  · rw [List.map_append, List.pairwise_append]
    refine ⟨h.ascending p, List.pairwise_singleton _ _, fun j hj k hk => ?_⟩
    obtain ⟨⟨s, j⟩, hmem, rfl⟩ := List.mem_map.mp hj
    obtain rfl := List.mem_singleton.mp hk
    exact (h.child p s j hmem).1
  · exact h.ascending p

end Enter

/-- **Making a child** keeps the tree. Where the child is there already nothing changes; where it is
made, each part of the invariant is kept for a reason of its own, given above. -/
theorem enter {id : Nat} (hid : id < r.nodes.size) {segment : String}
    (hsegment : IsSegment segment) : (r.enter id segment).1.IsTree := by
  cases hchild : r.child? id segment with
  | some child =>
    rw [enter_of_child hchild]
    exact h
  | none =>
    have hextends := extends_enter hid segment
    exact
      { nonempty := Nat.lt_of_lt_of_le h.nonempty hextends.size_le
        root_name := (hextends.name root h.nonempty).trans h.root_name
        parent_eq_none_iff := fun j hj => h.parent_eq_none_iff_enter hid hchild hj
        parent := fun j p hj hp => h.parent_lt_enter hid hchild hj hp
        child := fun p s j hj => h.child_enter hid hchild hsegment hj
        nodup := h.nodup_enter hid hchild
        ascending := h.ascending_enter hid hchild }

/-! ## Ways down

The root is the package with the least number, and every other number has one around it that is
less. So the packages are gone through from the root by induction on the number.
-/

/-- What holds of the root, and of every child of a package that it holds of, holds of every
package. -/
theorem induction {motive : Nat → Prop} (hroot : motive root)
    (hchild : ∀ (p : Nat) (segment : String) (id : Nat), (segment, id) ∈ (r.node p).children →
      motive p → motive id) {id : Nat} (hid : id < r.nodes.size) : motive id := by
  induction id using Nat.strongRecOn with
  | ind id ih =>
    rcases hparent : (r.node id).parent with _ | p
    · obtain rfl := (h.parent_eq_none_iff id hid).mp hparent
      exact hroot
    · obtain ⟨hlt, segment, hmem⟩ := h.parent id p hid hparent
      exact hchild p segment id hmem (ih p hlt (lt_of_mem_children hmem))

theorem path_root : r.path root = [] := by
  rw [path, h.root_name]
  rfl

/-- A child has one segment more than the package around it. -/
theorem path_child {p id : Nat} {segment : String} (hmem : (segment, id) ∈ (r.node p).children) :
    r.path id = r.path p ++ [segment] := by
  obtain ⟨-, -, hsegment, hname⟩ := h.child p segment id hmem
  rw [path, hname, segments_append, hsegment.segments_eq]
  rfl

/-- The name of a package is made of its segments. -/
theorem name_eq {id : Nat} (hid : id < r.nodes.size) :
    (r.node id).name = dottedName (r.path id) := by
  refine h.induction (motive := fun id => (r.node id).name = dottedName (r.path id)) ?_ ?_ hid
  · rw [h.path_root, h.root_name]
    rfl
  · intro p segment id hmem ih
    obtain ⟨-, -, -, hname⟩ := h.child p segment id hmem
    rw [h.path_child hmem, dottedName_append, ← ih, hname]

/-- The package at the end of a way has the segments of the way behind those of the first. -/
theorem path_of_descend {way : List String} {id j : Nat} (hj : r.descend id way = .ok j) :
    r.path j = r.path id ++ way := by
  induction way generalizing id with
  | nil =>
    obtain rfl := Except.ok.inj hj
    rw [List.append_nil]
  | cons segment rest ih =>
    rw [descend] at hj
    split at hj
    · next child hchild =>
      rw [ih hj, h.path_child (h.child?_iff.mp hchild), List.append_assoc]
      rfl
    · cases hj

theorem lt_of_descend {way : List String} {id j : Nat} (hid : id < r.nodes.size)
    (hj : r.descend id way = .ok j) : j < r.nodes.size := by
  induction way generalizing id with
  | nil =>
    obtain rfl := Except.ok.inj hj
    exact hid
  | cons segment rest ih =>
    rw [descend] at hj
    split at hj
    · next child hchild => exact ih (h.child _ _ _ (h.child?_iff.mp hchild)).1 hj
    · cases hj

/-- **Ways down**: the segments of a package, and no others, lead from the root to it. A way that is
gone adds its segments to those of the root, which are none. That there is a way to each package
follows from the root outwards, as a child is found by its last segment. -/
theorem descend_root_iff {way : List String} {id : Nat} :
    r.descend root way = .ok id ↔ id < r.nodes.size ∧ r.path id = way := by
  refine ⟨?_, ?_⟩
  · intro hid
    refine ⟨h.lt_of_descend h.nonempty hid, ?_⟩
    rw [h.path_of_descend hid, h.path_root, List.nil_append]
  · rintro ⟨hid, rfl⟩
    refine h.induction (motive := fun id => r.descend root (r.path id) = .ok id) ?_ ?_ hid
    · rw [h.path_root]
      rfl
    · intro p segment id hmem ih
      rw [h.path_child hmem, descend_append, ih]
      simp only [bind, Except.bind, descend, h.child?_iff.mpr hmem]

/-- No two packages have one name, since one way leads to both. -/
theorem eq_of_path_eq {id j : Nat} (hid : id < r.nodes.size) (hj : j < r.nodes.size)
    (hpath : r.path id = r.path j) : id = j := by
  have hwayi := h.descend_root_iff.mpr ⟨hid, hpath⟩
  rw [h.descend_root_iff.mpr ⟨hj, rfl⟩] at hwayi
  exact (Except.ok.inj hwayi).symm

/-- The packages on the way to a package are there. -/
theorem exists_of_prefix {id : Nat} (hid : id < r.nodes.size) {way : List String}
    (hway : way <+: r.path id) : ∃ p, p < r.nodes.size ∧ r.path p = way := by
  obtain ⟨rest, hrest⟩ := hway
  have hdescend := h.descend_root_iff.mpr ⟨hid, hrest.symm⟩
  rw [descend_append] at hdescend
  rcases hp : r.descend root way with e | p
  · rw [hp] at hdescend
    cases hdescend
  · exact ⟨p, h.descend_root_iff.mp hp⟩

/-- The children of a package are those with one segment more. -/
theorem mem_children_iff {p id : Nat} (hp : p < r.nodes.size) {segment : String} :
    (segment, id) ∈ (r.node p).children ↔
      id < r.nodes.size ∧ r.path id = r.path p ++ [segment] := by
  refine ⟨fun hmem => ⟨(h.child p segment id hmem).1, h.path_child hmem⟩, ?_⟩
  intro hid
  have hdescend := h.descend_root_iff.mpr hid
  rw [descend_append, h.descend_root_iff.mpr ⟨hp, rfl⟩] at hdescend
  simp only [bind, Except.bind, descend] at hdescend
  split at hdescend
  · next child hchild =>
    obtain rfl := Except.ok.inj hdescend
    exact h.child?_iff.mp hchild
  · cases hdescend

/-- Every package but the root hangs in one place: under an older package, by one segment, and for
these two it is named. -/
theorem exists_place {id : Nat} (hid : id < r.nodes.size) (hroot : id ≠ root) :
    ∃ (p : Nat) (segment : String), p < id ∧ (r.node id).parent = some p ∧ IsSegment segment ∧
      (r.node id).name = (r.node p).name ++ "." ++ segment ∧
      ∀ (q : Nat) (s : String), (s, id) ∈ (r.node q).children ↔ q = p ∧ s = segment := by
  obtain ⟨p, hp⟩ := Option.ne_none_iff_exists'.mp (mt (h.parent_eq_none_iff id hid).mp hroot)
  obtain ⟨hlt, segment, hmem⟩ := h.parent id p hid hp
  obtain ⟨-, -, hsegment, hname⟩ := h.child p segment id hmem
  refine ⟨p, segment, hlt, hp, hsegment, hname, fun q s => ⟨fun hs => ?_, ?_⟩⟩
  · obtain ⟨-, hq, -, -⟩ := h.child q s id hs
    rw [hp] at hq
    obtain rfl := Option.some.inj hq
    have hpath := h.path_child hs
    rw [h.path_child hmem] at hpath
    exact ⟨rfl, (List.cons.inj (List.append_cancel_left hpath)).1.symm⟩
  · rintro ⟨rfl, rfl⟩
    exact hmem

end IsTree

end Registry

end ProtoSchema
