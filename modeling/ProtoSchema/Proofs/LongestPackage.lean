import Mathlib.Order.Bounds.Defs
import ProtoSchema.Proofs.QualifiedNames

/-!
# The longest package in front of a name

A qualified name is read from a package in one go: as many of its parts as possible, but never the
last one, lead down through packages (`Registry.EndsAt.isGreatest`). What the rest of the name comes
to is decided at the package where that way ends (`Registry.ReadsAt`). If one part is left it is the
name of a type there; if more are left the first of them is, and the others lead inwards from that
type (`Declaration.LeadsTo`). Nothing is tried twice, so that a package hides a message of its name
also when nothing is found in it.

The definition goes down part by part and does not know of a longest way. That the way ends
somewhere is shown by induction on the parts (`Registry.exists_endsAt`); that no longer beginning
leads down follows, as a way down is unique, part by part. Both are put together in
`Registry.lookupTypeFrom_longest`, with all outcomes and the texts of the failures.
-/

namespace ProtoSchema

/-! ## Inwards

Behind a type only messages inside it can follow, and no package.
-/

namespace Declaration

/-- The names lead inwards from the first declaration to the second. Of the messages of one name
that are declared inside a message the first is meant. -/
inductive LeadsTo : Declaration → List String → Declaration → Prop where
  /-- no names lead nowhere else -/
  | self (d : Declaration) : LeadsTo d [] d
  /-- the first message of that name, and inwards from there -/
  | inwards {d e f : Declaration} {before after : List Declaration} {names : List String}
    (hnested : d.nested = before ++ e :: after)
    (hfirst : ∀ g ∈ before, g.message.name ≠ e.message.name) (hf : LeadsTo e names f) :
    LeadsTo d (e.message.name :: names) f

variable {d e : Declaration} {name : String} {names : List String}

theorem find?_nested_eq_some_iff :
    d.nested.find? (·.message.name = name) = some e ↔ e.message.name = name ∧
      ∃ before after, d.nested = before ++ e :: after ∧ ∀ g ∈ before, g.message.name ≠ name := by
  rw [List.find?_eq_some_iff_append]
  simp

theorem find?_nested_eq_none_iff :
    d.nested.find? (·.message.name = name) = none ↔ ∀ f ∈ d.nested, f.message.name ≠ name := by
  rw [List.find?_eq_none]
  simp

/-- A message inside is found where the names lead. -/
theorem member_eq_ok_iff : d.member names = .ok e ↔ d.LeadsTo names e := by
  constructor
  · intro h
    induction names generalizing d with
    | nil =>
      obtain rfl := Except.ok.inj h
      exact .self d
    | cons name names ih =>
      rw [member] at h
      split at h
      · next f hf =>
        obtain ⟨rfl, before, after, hnested, hfirst⟩ := find?_nested_eq_some_iff.mp hf
        exact .inwards hnested hfirst (ih h)
      · cases h
  · intro h
    induction h with
    | self d => rfl
    | inwards hnested hfirst _ ih =>
      rw [member, find?_nested_eq_some_iff.mpr ⟨rfl, _, _, hnested, hfirst⟩]
      exact ih

/-- The search inwards ends early at the first name that no message has where the names before it
lead. -/
theorem member_eq_error_iff {err : LookupError} : d.member names = .error err ↔
    ∃ front name rest e, names = front ++ name :: rest ∧ d.LeadsTo front e ∧
      (∀ f ∈ e.nested, f.message.name ≠ name) ∧
      err = .noSuchNestedMessage name e.message.name := by
  constructor
  · intro h
    induction names generalizing d with
    | nil => cases h
    | cons name names ih =>
      rw [member] at h
      split at h
      · next f hf =>
        obtain ⟨rfl, before, after, hnested, hfirst⟩ := find?_nested_eq_some_iff.mp hf
        obtain ⟨front, last, rest, e, rfl, he, hnone, rfl⟩ := ih h
        -- the search goes on inside, and ends there
        exact ⟨f.message.name :: front, last, rest, e, rfl, .inwards hnested hfirst he, hnone, rfl⟩
      · next hnone =>
        exact ⟨[], name, names, d, rfl, .self d, find?_nested_eq_none_iff.mp hnone,
          (Except.error.inj h).symm⟩
  · rintro ⟨front, name, rest, e, rfl, he, hnone, rfl⟩
    induction he with
    | self d => rw [List.nil_append, member, find?_nested_eq_none_iff.mpr hnone]
    | inwards hnested hfirst _ ih =>
      rw [List.cons_append, member, find?_nested_eq_some_iff.mpr ⟨rfl, _, _, hnested, hfirst⟩]
      exact ih hnone

end Declaration

namespace Registry

/-! ## Where the way down ends

`ReadsAt` has a case for each outcome, and its cases exclude each other, so that it holds of one
outcome only.
-/

/-- What parts of a name come to at a package, when the first of them does not lead further down or
is the last. -/
inductive ReadsAt (r : Registry) (id : Nat) :
    List String → Except LookupError Declaration → Prop where
  /-- a last part that is empty is no name -/
  | empty : ReadsAt r id [""] (.error .emptyName)
  /-- a last part is the name of a type -/
  | type {part : String} {d : Declaration} (hpart : part ≠ "") (hd : r.type? id part = some d) :
    ReadsAt r id [part] (.ok d)
  /-- a last part is the name of no type -/
  | noType {part : String} (hpart : part ≠ "") (hd : r.type? id part = none) :
    ReadsAt r id [part] (.error (.notFound part (r.node id).name))
  /-- the first part is the name of a type, and the others lead inwards -/
  | member {part : String} {rest : List String} {d e : Declaration} (hrest : rest ≠ [])
    (hd : r.type? id part = some d) (he : d.LeadsTo rest e) : ReadsAt r id (part :: rest) (.ok e)
  /-- the first part is the name of a type, and some others lead inwards, but no further -/
  | noMember {part name : String} {rest front more : List String} {d e : Declaration}
    (hrest : rest = front ++ name :: more) (hd : r.type? id part = some d)
    (he : d.LeadsTo front e) (hnone : ∀ f ∈ e.nested, f.message.name ≠ name) :
    ReadsAt r id (part :: rest) (.error (.noSuchNestedMessage name e.message.name))
  /-- the first part is the name of no type -/
  | noMessage {part : String} {rest : List String} (hrest : rest ≠ [])
    (hd : r.type? id part = none) :
    ReadsAt r id (part :: rest) (.error (.noSuchPackageOrMessage part (r.node id).name))

variable {r : Registry} {id j : Nat} {part : String} {front rest parts : List String}
  {result : Except LookupError Declaration}

/-- A single part is read where it stands. -/
theorem resolve_singleton_iff : r.resolve id [part] = result ↔ r.ReadsAt id [part] result := by
  rw [resolve]
  constructor
  · rintro rfl
    split
    · next hpart => exact hpart ▸ .empty
    · next hpart =>
      rcases hd : r.type? id part with _ | d
      · exact .noType hpart hd
      · exact .type hpart hd
  · intro h
    cases h with
    | empty => exact if_pos rfl
    | type hpart hd => rw [if_neg hpart, hd]
    | noType hpart hd => rw [if_neg hpart, hd]
    | member hrest => exact absurd rfl hrest
    | noMember hrest => exact absurd hrest.symm (List.append_ne_nil_of_right_ne_nil _ (by simp))
    | noMessage hrest => exact absurd rfl hrest

/-- So are several parts, when the first of them is no child. -/
theorem resolve_inwards_iff (hchild : r.child? id part = none) (hrest : rest ≠ []) :
    r.resolve id (part :: rest) = result ↔ r.ReadsAt id (part :: rest) result := by
  -- without a child the first part can only be a type, and the others lead inwards from it
  obtain ⟨next, more, rfl⟩ := List.exists_cons_of_ne_nil hrest
  rw [resolve, hchild]
  constructor
  · rintro rfl
    rcases hd : r.type? id part with _ | d
    · exact .noMessage hrest hd
    · rcases he : d.member (next :: more) with err | e
      · obtain ⟨front, name, last, e, hparts, hlead, hnone, rfl⟩ :=
          Declaration.member_eq_error_iff.mp he
        simp only [he]
        exact .noMember hparts hd hlead hnone
      · simp only [he]
        exact .member hrest hd (Declaration.member_eq_ok_iff.mp he)
  · intro h
    cases h with
    | member _ hd he =>
      rw [hd]
      exact Declaration.member_eq_ok_iff.mpr he
    | noMember hparts hd he hnone =>
      rw [hd]
      exact Declaration.member_eq_error_iff.mpr ⟨_, _, _, _, hparts, he, hnone, rfl⟩
    | noMessage _ hd => rw [hd]

/-- The parts before the rest lead down to a package, and the next part leads no further or is the
last one. -/
structure EndsAt (r : Registry) (id : Nat) (front : List String) (part : String)
    (rest : List String) (j : Nat) : Prop where
  /-- the parts before lead to the package -/
  descend_eq : r.descend id front = .ok j
  /-- the next part leads no further, unless it is the last one -/
  stop : rest = [] ∨ r.child? j part = none

/-- Every name has a part at which the way down ends. -/
theorem exists_endsAt (r : Registry) (hparts : parts ≠ []) : ∀ id,
    ∃ front part rest j, parts = front ++ part :: rest ∧ r.EndsAt id front part rest j := by
  induction parts with
  | nil => exact absurd rfl hparts
  | cons part rest ih =>
    intro id
    by_cases hrest : rest = []
    · exact ⟨[], part, rest, id, rfl, rfl, Or.inl hrest⟩
    · rcases hchild : r.child? id part with _ | child
      · exact ⟨[], part, rest, id, rfl, rfl, Or.inr hchild⟩
      · obtain ⟨front, last, more, j, rfl, hj, hstop⟩ := ih hrest child
        refine ⟨part :: front, last, more, j, rfl, ?_, hstop⟩
        rw [descend, hchild]
        exact hj

/-- What a name comes to is decided where the way down ends. -/
theorem EndsAt.resolve_iff (h : r.EndsAt id front part rest j) :
    r.resolve id (front ++ part :: rest) = result ↔ r.ReadsAt j (part :: rest) result := by
  rw [resolve_append h.descend_eq (List.cons_ne_nil part rest)]
  by_cases hrest : rest = []
  · rw [hrest, resolve_singleton_iff]
  · exact resolve_inwards_iff (h.stop.resolve_left hrest) hrest

/-- The way down ends behind as many parts as lead down, the last one left out. -/
theorem EndsAt.isGreatest (h : r.EndsAt id front part rest j) :
    IsGreatest {k | k < (front ++ part :: rest).length ∧
      ∃ j, r.descend id ((front ++ part :: rest).take k) = .ok j} front.length := by
  refine ⟨⟨by simp, j, ?_⟩, ?_⟩
  · rw [List.take_left]
    exact h.descend_eq
  · rintro k ⟨hlt, j', hj'⟩
    by_contra hk
    have hk := Nat.lt_of_not_le hk
    -- the part at the end would lead further down
    obtain ⟨n, rfl⟩ := Nat.exists_eq_add_of_lt hk
    have hrest : rest ≠ [] := by
      rintro rfl
      rw [List.length_append, List.length_singleton] at hlt
      omega
    have htake : (front ++ part :: rest).take (front.length + n + 1) =
        front ++ part :: rest.take n := by
      rw [Nat.add_assoc, List.take_length_add_append, List.take_succ_cons]
    rw [htake, descend_append, h.descend_eq] at hj'
    simp only [bind, Except.bind, descend, h.stop.resolve_left hrest] at hj'
    cases hj'

/-! ## The theorem -/

/-- A child is followed whenever more parts follow. -/
theorem resolve_of_child? {child : Nat} (hchild : r.child? id part = some child)
    (hrest : rest ≠ []) : r.resolve id (part :: rest) = r.resolve child rest := by
  have hdown : r.descend id [part] = .ok child := by
    rw [descend, hchild]
    rfl
  exact resolve_append hdown hrest

/-- **Qualified names**: read from a package, the longest beginning of a name that leads down
through packages and leaves a part over is followed, to the package that is named for it. What the
parts left over come to there is what the name comes to, as a message or as a failure. So a package
hides a message of its name: whatever stands behind the name of a child is read from the child
alone. -/
theorem lookupTypeFrom_longest (messages : List (String × Declaration)) :
    let r := empty.registerAll messages
    ∀ id : Nat, id < r.nodes.size →
      (∀ name : String, ∃ k j,
        IsGreatest {k | k < (components name).length ∧
          ∃ j, r.descend id ((components name).take k) = .ok j} k ∧
        r.descend id ((components name).take k) = .ok j ∧
        (r.node j).name = dottedName (r.path id ++ (components name).take k) ∧
        ∀ result, r.lookupTypeFrom id name = result ↔
          r.ReadsAt j ((components name).drop k) result) ∧
      ∀ (segment : String) (child : Nat), r.child? id segment = some child →
        ∀ tail, r.lookupTypeFrom id (segment ++ "." ++ tail) = r.lookupTypeFrom child tail := by
  intro r id hid
  have h : r.IsTree := (holds_registerAll messages).tree
  refine ⟨fun name => ?_, fun segment child hchild tail => ?_⟩
  · obtain ⟨front, part, rest, j, hparts, hend⟩ :=
      r.exists_endsAt (components_ne_nil name) id
    simp only [lookupTypeFrom, hparts]
    refine ⟨front.length, j, hend.isGreatest, ?_, ?_, fun result => ?_⟩
    · rw [List.take_left]
      exact hend.descend_eq
    · rw [List.take_left, ← h.path_of_descend hend.descend_eq]
      exact h.name_eq (h.lt_of_descend hid hend.descend_eq)
    · rw [List.drop_left]
      exact hend.resolve_iff
  · obtain ⟨-, -, hsegment, -⟩ := h.child _ _ _ (h.child?_iff.mp hchild)
    rw [lookupTypeFrom, lookupTypeFrom, components_append, components_eq_singleton hsegment.2]
    exact resolve_of_child? hchild (components_ne_nil tail)

namespace Hidden

/-- A message with another one inside. -/
def shop : Declaration := ⟨[0, 0], { name := "shop", nested := [{ name := "Item" }] }⟩

/-- A message outside of all packages, and a package of the same name. -/
def messages : List (String × Declaration) :=
  [("", shop), ("shop", ⟨[1, 0], { name := "Order" }⟩)]

end Hidden

/-- The package hides the message: what is inside the message is not found. -/
theorem lookupTypeFrom_hidden : let r := empty.registerAll Hidden.messages
    r.type? root "shop" = some Hidden.shop ∧ (∃ d, Hidden.shop.member ["Item"] = .ok d) ∧
    r.child? root "shop" = some 1 ∧
    r.lookupTypeFrom root ("shop" ++ "." ++ "Item") = .error (.notFound "Item" ".shop") ∧
    ∃ k j, IsGreatest {k | k < (components "shop.Item").length ∧
        ∃ j, r.descend root ((components "shop.Item").take k) = .ok j} k ∧
      r.ReadsAt j ((components "shop.Item").drop k) (.error (.notFound "Item" ".shop")) := by
  intro r
  have hchild : r.child? root "shop" = some 1 := by decide +kernel
  have hitem : r.lookupTypeFrom 1 "Item" = .error (.notFound "Item" ".shop") := by decide +kernel
  obtain ⟨hlongest, hhides⟩ := lookupTypeFrom_longest Hidden.messages root (by decide +kernel)
  have hname := (hhides "shop" 1 hchild "Item").trans hitem
  obtain ⟨k, j, hk, -, -, hreads⟩ := hlongest "shop.Item"
  exact ⟨by decide +kernel, ⟨_, rfl⟩, hchild, hname, k, j, hk, (hreads _).mp hname⟩

end Registry

end ProtoSchema
