import Mathlib.Data.List.Forall2
import ProtoSchema.Proofs.QualifiedNames
import ProtoSchema.Proofs.Runs
import ProtoSchema.Proofs.Steps

/-!
# Registries that cannot be told apart

Two registries may hold the same packages and messages under different numbers and at different
places. A relation pairs the declarations of the one with those of the other (`IsPairing`), and
packages are `Alike` when they have one name. If packages that are alike have paired types
(`Registry.Simulates`), nothing that is done with a registry shows which of the two it is: lookups
find what is paired or fail with the same error, and conversions come to the same result
(`Registry.Simulates.result_typeDocuments`).

The pairing has to be one to one, since a conversion compares declarations: it stops at a message
that it is inside of.

The lemmas follow the functions on a registry one by one, from the child of a package to the
documents of a file, and each is about one function only. What the pairs have in common besides
their names is left open as long as possible: it is asked for in the section on conversions, and
there the enums of the outermost messages may still differ.
-/

namespace ProtoSchema

/-! ## Related rows -/

section Related

variable {α β γ δ ε : Type} {R : α → β → Prop}

/-- Two options are related when whatever the one has goes with something of the other. -/
theorem optionRel_of_exists {x : Option α} {y : Option β}
    (h : ∀ a, x = some a → ∃ b, y = some b ∧ R a b)
    (h' : ∀ b, y = some b → ∃ a, x = some a ∧ R a b) : Option.Rel R x y := by
  rcases x with _ | a
  · rcases y with _ | b
    · exact .none
    · obtain ⟨a, ha, -⟩ := h' b rfl
      cases ha
  · obtain ⟨b, rfl, hab⟩ := h a rfl
    exact .some hab

theorem optionRel_cases {x : Option α} {y : Option β} (h : Option.Rel R x y) :
    (x = none ∧ y = none) ∨ ∃ a b, x = some a ∧ y = some b ∧ R a b := by
  cases h with
  | none => exact Or.inl ⟨rfl, rfl⟩
  | @some a b hab => exact Or.inr ⟨a, b, rfl, rfl, hab⟩

theorem Agree.toOption {x : Except ε α} {y : Except ε β} (h : Agree R x y) :
    Option.Rel R x.toOption y.toOption := by
  cases h with
  | ok hab => exact .some hab
  | error e => exact .none

/-- In related rows the first element with a property is at the same place in both. -/
theorem rel_find? {xs : List α} {ys : List β} (h : List.Forall₂ R xs ys) {p : α → Bool}
    {q : β → Bool} (hpq : ∀ a b, R a b → p a = q b) :
    Option.Rel R (xs.find? p) (ys.find? q) := by
  induction h with
  | nil => exact .none
  | @cons a b xs ys hab _ ih =>
    rw [List.find?_cons, List.find?_cons, hpq a b hab]
    cases q b with
    | true => exact .some hab
    | false => exact ih

theorem rel_findRev? {xs : List α} {ys : List β} (h : List.Forall₂ R xs ys) {p : α → Bool}
    {q : β → Bool} (hpq : ∀ a b, R a b → p a = q b) :
    Option.Rel R (xs.findRev? p) (ys.findRev? q) := by
  rw [List.findRev?_eq_find?_reverse, List.findRev?_eq_find?_reverse]
  exact rel_find? (List.forall₂_reverse_iff.mpr h) hpq

theorem rel_findSome? {S : γ → δ → Prop} {xs : List α} {ys : List β} (h : List.Forall₂ R xs ys)
    {f : α → Option γ} {g : β → Option δ} (hfg : ∀ a b, R a b → Option.Rel S (f a) (g b)) :
    Option.Rel S (xs.findSome? f) (ys.findSome? g) := by
  induction h with
  | nil => exact .none
  | @cons a b xs ys hab _ ih =>
    rw [List.findSome?_cons, List.findSome?_cons]
    rcases optionRel_cases (hfg a b hab) with ⟨ha, hb⟩ | ⟨c, d, ha, hb, hcd⟩
    · rw [ha, hb]
      exact ih
    · rw [ha, hb]
      exact .some hcd

end Related

/-! ## Paired declarations

The relation is not on messages but on declarations, which know their place: two messages that are
equal at two places are two declarations.
-/

/-- The relation pairs declarations that have one name, inside and out, and no two with one. -/
structure IsPairing (R : Declaration → Declaration → Prop) : Prop where
  /-- paired declarations have one name -/
  name : ∀ {d d' : Declaration}, R d d' → d.message.name = d'.message.name
  /-- what is declared inside paired declarations is paired -/
  nested : ∀ {d d' : Declaration}, R d d' → List.Forall₂ R d.nested d'.nested
  /-- no two declarations are paired with one -/
  unique : Relator.BiUnique R

/-- The same way inwards leads from paired declarations to paired ones. -/
theorem IsPairing.member {R : Declaration → Declaration → Prop} (hR : IsPairing R)
    (names : List String) {d d' : Declaration} (hd : R d d') :
    Agree R (d.member names) (d'.member names) := by
  induction names generalizing d d' with
  | nil => exact .ok hd
  | cons name names ih =>
    have hfind := rel_find? (hR.nested hd) (p := fun e => e.message.name = name)
      (q := fun e => e.message.name = name) fun a b hab => by rw [hR.name hab]
    rw [Declaration.member, Declaration.member]
    rcases optionRel_cases hfind with ⟨hx, hy⟩ | ⟨a, b, hx, hy, hab⟩
    · rw [hx, hy, hR.name hd]
      exact .error _
    · rw [hx, hy]
      exact ih hab

namespace Registry

/-! ## Ways outwards -/

theorem IsTree.outwards_root {r : Registry} (h : r.IsTree) : r.outwards root = [root] := by
  rw [outwards, (h.parent_eq_none_iff root h.nonempty).mpr rfl]

theorem IsTree.outwards_child {r : Registry} (h : r.IsTree) {p id : Nat} {segment : String}
    (hmem : (segment, id) ∈ (r.node p).children) : r.outwards id = id :: r.outwards p := by
  obtain ⟨hid, hp, -, -⟩ := h.child p segment id hmem
  obtain ⟨hlt, -⟩ := h.parent id p hid hp
  rw [outwards, hp]
  exact if_pos hlt

/-! ## Registries

That both registries are trees is a part of the relation, since packages are compared by their names
and a name has to lead to one package.
-/

/-- Packages of one name. -/
structure Alike (r r' : Registry) (id id' : Nat) : Prop where
  /-- the first is a package of the first registry -/
  lt : id < r.nodes.size
  /-- the second is a package of the second registry -/
  lt' : id' < r'.nodes.size
  /-- the segments of their names are the same -/
  path_eq : r.path id = r'.path id'

/-- The registries hold packages of the same names, with paired types. -/
structure Simulates (R : Declaration → Declaration → Prop) (r r' : Registry) : Prop where
  /-- the declarations are paired -/
  pairing : IsPairing R
  /-- the first registry is a tree -/
  tree : r.IsTree
  /-- the second registry is a tree -/
  tree' : r'.IsTree
  /-- the packages have the same names -/
  packages : ∀ way, (∃ id, id < r.nodes.size ∧ r.path id = way) ↔
    ∃ id, id < r'.nodes.size ∧ r'.path id = way
  /-- the types of packages that are alike are paired -/
  types : ∀ id id' : Nat, r.Alike r' id id' → ∀ name,
    Option.Rel R (r.type? id name) (r'.type? id' name)

/-- Registries that hold messages which are paired one by one, under the same packages. -/
theorem Holds.simulates {R : Declaration → Declaration → Prop} (hR : IsPairing R)
    {r r' : Registry} {messages messages' : List (String × Declaration)}
    (h : List.Forall₂ (fun m m' => m.1 = m'.1 ∧ R m.2 m'.2) messages messages')
    (hr : r.Holds messages) (hr' : r'.Holds messages') : r.Simulates R r' where
  pairing := hR
  tree := hr.tree
  tree' := hr'.tree
  packages way := by
    have hpackages : List.Forall₂ Eq (messages.map (·.1)) (messages'.map (·.1)) := by
      rw [List.forall₂_map_left_iff, List.forall₂_map_right_iff]
      exact h.imp fun m m' hm => hm.1
    have hiff : ∀ ms : List (String × Declaration),
        IsPackage ms way ↔ way = [] ∨ ∃ package ∈ ms.map (·.1), way <+: segments package := by
      intro ms
      simp only [IsPackage, List.mem_map, exists_exists_and_eq_and]
    rw [List.forall₂_eq_eq_eq] at hpackages
    rw [hr.packages, hr'.packages, hiff, hiff, hpackages]
  types id id' hid name := by
    rw [(hr.offers id hid.lt).type?_eq, (hr'.offers id' hid.lt').type?_eq, ← hid.path_eq]
    have hfound := rel_findRev? h
      (p := fun m => segments m.1 = r.path id ∧ m.2.message.name = name)
      (q := fun m => segments m.1 = r.path id ∧ m.2.message.name = name)
      fun m m' hm => by rw [hm.1, hR.name hm.2]
    rcases optionRel_cases hfound with ⟨hx, hy⟩ | ⟨m, m', hx, hy, -, hm⟩
    · rw [hx, hy]
      exact .none
    · rw [hx, hy]
      exact .some hm

namespace Simulates

variable {R : Declaration → Declaration → Prop} {r r' : Registry} (h : r.Simulates R r')
  {id id' : Nat} (hid : r.Alike r' id id')
include h

theorem alike_root : r.Alike r' root root :=
  ⟨h.tree.nonempty, h.tree'.nonempty, h.tree.path_root.trans h.tree'.path_root.symm⟩

include hid

theorem name_eq : (r.node id).name = (r'.node id').name := by
  rw [h.tree.name_eq hid.lt, h.tree'.name_eq hid.lt', hid.path_eq]

/-- The children for one segment are alike, or there are none. -/
theorem child? (segment : String) :
    Option.Rel (r.Alike r') (r.child? id segment) (r'.child? id' segment) := by
  refine optionRel_of_exists (fun child hchild => ?_) fun child' hchild' => ?_
  · rw [h.tree.child?_iff, h.tree.mem_children_iff hid.lt] at hchild
    obtain ⟨child', hlt', hpath'⟩ := (h.packages _).mp ⟨child, hchild⟩
    refine ⟨child', ?_, hchild.1, hlt', hchild.2.trans hpath'.symm⟩
    rw [h.tree'.child?_iff, h.tree'.mem_children_iff hid.lt', ← hid.path_eq]
    exact ⟨hlt', hpath'⟩
  · rw [h.tree'.child?_iff, h.tree'.mem_children_iff hid.lt'] at hchild'
    obtain ⟨child, hlt, hpath⟩ := (h.packages _).mpr ⟨child', hchild'⟩
    refine ⟨child, ?_, hlt, hchild'.1, hpath.trans hchild'.2.symm⟩
    rw [h.tree.child?_iff, h.tree.mem_children_iff hid.lt, hid.path_eq]
    exact ⟨hlt, hpath⟩

/-- The packages around are alike, one by one. -/
theorem outwards : List.Forall₂ (r.Alike r') (r.outwards id) (r'.outwards id') := by
  refine h.tree.induction (motive := fun id => ∀ id', r.Alike r' id id' →
    List.Forall₂ (r.Alike r') (r.outwards id) (r'.outwards id')) ?_ ?_ hid.lt id' hid
  · intro id' hid
    obtain rfl : id' = root := h.tree'.eq_of_path_eq hid.lt' h.tree'.nonempty
      (hid.path_eq.symm.trans h.alike_root.path_eq)
    rw [h.tree.outwards_root, h.tree'.outwards_root]
    exact .cons hid .nil
  · intro p segment id hmem ih id' hid
    have hpath' : r'.path id' = r.path p ++ [segment] := by
      rw [← hid.path_eq, h.tree.path_child hmem]
    obtain ⟨p', hp', hpathp⟩ := h.tree'.exists_of_prefix hid.lt' ⟨[segment], hpath'.symm⟩
    have hmem' : (segment, id') ∈ (r'.node p').children := by
      rw [h.tree'.mem_children_iff hp', hpathp]
      exact ⟨hid.lt', hpath'⟩
    rw [h.tree.outwards_child hmem, h.tree'.outwards_child hmem']
    exact .cons hid (ih p' ⟨lt_of_mem_children hmem, hp', hpathp.symm⟩)

/-! ## Lookups

Each lemma has the two packages as its hypothesis and goes on from there to the next ones.
-/

/-- One way leads down to packages that are alike, or ends early at one place. -/
theorem descend (way : List String) :
    Agree (r.Alike r') (r.descend id way) (r'.descend id' way) := by
  induction way generalizing id id' with
  | nil => exact .ok hid
  | cons segment rest ih =>
    rw [Registry.descend, Registry.descend]
    rcases optionRel_cases (h.child? hid segment) with ⟨hx, hy⟩ | ⟨child, child', hx, hy, hchild⟩
    · rw [hx, hy, childName, childName, h.name_eq hid]
      exact .error _
    · rw [hx, hy]
      exact ih hchild

/-- The parts of a name lead through packages that are alike, to paired messages or to one
failure. -/
theorem resolve (parts : List String) :
    Agree R (r.resolve id parts) (r'.resolve id' parts) := by
  induction parts generalizing id id' with
  | nil =>
    rw [Registry.resolve, Registry.resolve]
    exact .error _
  | cons part rest ih =>
    -- a last part is a type; any other leads to a child if there is one, or else to a type and
    -- inwards
    have htype := optionRel_cases (h.types id id' hid part)
    cases rest with
    | nil =>
      rw [Registry.resolve, Registry.resolve]
      split
      · exact .error _
      · rcases htype with ⟨hx, hy⟩ | ⟨d, d', hx, hy, hd⟩
        · rw [hx, hy, h.name_eq hid]
          exact .error _
        · rw [hx, hy]
          exact .ok hd
    | cons next rest =>
      rw [Registry.resolve, Registry.resolve]
      rcases optionRel_cases (h.child? hid part) with ⟨hx, hy⟩ | ⟨child, child', hx, hy, hchild⟩
      · rw [hx, hy]
        rcases htype with ⟨hx, hy⟩ | ⟨d, d', hx, hy, hd⟩
        · rw [hx, hy, h.name_eq hid]
          exact .error _
        · rw [hx, hy]
          exact h.pairing.member _ hd
      · rw [hx, hy]
        exact ih hchild

/-- **Names of types** mean paired declarations in packages that are alike, or fail alike. -/
theorem lookupType (name : String) :
    Agree R (r.lookupType id name) (r'.lookupType id' name) := by
  by_cases hname : ∃ parts, parts ≠ [] ∧ components name = "" :: parts
  · obtain ⟨parts, hparts, hname⟩ := hname
    rw [lookupType_of_components_eq hparts hname, lookupType_of_components_eq hparts hname]
    exact h.resolve h.alike_root parts
  · simp only [not_exists, not_and] at hname
    rw [lookupType_of_components_ne hname, lookupType_of_components_ne hname]
    have hfound := rel_findSome? (h.outwards hid) fun a b hab =>
      (h.resolve hab (components name)).toOption
    rcases optionRel_cases hfound with ⟨hx, hy⟩ | ⟨d, d', hx, hy, hd⟩
    · rw [hx, hy, h.name_eq hid]
      exact .error _
    · rw [hx, hy]
      exact .ok hd

omit hid in
/-- **Names of packages** mean packages that are alike, or fail alike. -/
theorem lookupPackage (name : String) :
    Agree (r.Alike r') (r.lookupPackage name) (r'.lookupPackage name) :=
  h.descend h.alike_root (segments name)

/-! ## Conversions

The paths are paired as well, message by message, and so a message is on the one exactly when its
partner is on the other.
-/

section Conversion

variable (p : Policy) {path path' : List Declaration} (hpath : List.Forall₂ R path path')
include hpath

/-- A field comes to the same, or embeds paired messages that are not on the path. -/
theorem fieldSchema_cases (scope : List EnumType) (f : Field) :
    ((⟨r, id, p⟩ : Conversion).fieldSchema path scope f).result =
        ((⟨r', id', p⟩ : Conversion).fieldSchema path' scope f).result ∨
      ∃ target target', (⟨r, id, p⟩ : Conversion).Embeds f target ∧ target ∉ path ∧
        (⟨r', id', p⟩ : Conversion).Embeds f target' ∧ target' ∉ path' ∧ R target target' :=
  Conversion.fieldSchema_cases rfl (fun _ => h.lookupType hid f.typeName)
    fun _ _ _ ht => List.rel_mem h.pairing.unique ht hpath

variable (hfields : ∀ {d d' : Declaration}, R d d' → d.message.fields = d'.message.fields)
  {outer : List Declaration} (henums : ∀ {d d' : Declaration}, R d d' → d ∉ outer →
    d.message.enums = d'.message.enums)
include hfields henums

/-- **Messages** that are paired come to the same inside messages that are paired. They may differ
in what is declared inside them, and the outermost ones in their enums too. The path keeps the
latter out of the way: a message on it is not entered again, and only a message that is entered is
asked for its enums. -/
theorem result_messageSchema (scope : List EnumType) {d d' : Declaration} (hd : R d d')
    (houter : outer ⊆ d :: path) : ((⟨r, id, p⟩ : Conversion).messageSchema path scope d).result =
      ((⟨r', id', p⟩ : Conversion).messageSchema path' scope d').result := by
  refine (⟨r, id, p⟩ : Conversion).induction (motive := fun path d => ∀ path' d' scope,
    List.Forall₂ R path path' → R d d' → outer ⊆ d :: path →
      ((⟨r, id, p⟩ : Conversion).messageSchema path scope d).result =
        ((⟨r', id', p⟩ : Conversion).messageSchema path' scope d').result) ?_ path d path' d' scope
    hpath hd houter
  intro path d ih path' d' scope hpath hd houter
  have hschemas : ∀ f, ((⟨r, id, p⟩ : Conversion).fieldSchema (d :: path) scope f).result =
      ((⟨r', id', p⟩ : Conversion).fieldSchema (d' :: path') scope f).result := by
    intro f
    have hpath' : List.Forall₂ R (d :: path) (d' :: path') := .cons hd hpath
    rcases h.fieldSchema_cases hid p hpath' scope f with
      heq | ⟨target, target', hf, hmem, hf', hmem', ht⟩
    · exact heq
    · have hscope : target.message.scopeWithin scope = target'.message.scopeWithin scope := by
        rw [Message.scopeWithin, Message.scopeWithin, henums ht fun hout => hmem (houter hout)]
      rw [Conversion.result_fieldSchema_of_embeds hf hmem,
        Conversion.result_fieldSchema_of_embeds hf' hmem', ← hscope,
        ih f target hf hmem _ target' _ hpath' ht (List.subset_cons_of_subset target houter)]
  rw [Conversion.result_messageSchema, Conversion.result_messageSchema]
  simp only [hschemas, Message.propertyTable, hfields hd]

end Conversion

omit hid in
/-- **The types of a file** come to the same documents, or to the same failure. -/
theorem result_typeDocuments (p : Policy) (file : File)
    (hmessage : ∀ {d d' : Declaration}, R d d' → d.message = d'.message)
    {messages messages' : List Declaration} (hmessages : List.Forall₂ R messages messages')
    (visible : List EnumType) :
    (typeDocuments r p file messages visible).result =
      (typeDocuments r' p file messages' visible).result := by
  have hfields : ∀ {d d' : Declaration}, R d d' → d.message.fields = d'.message.fields :=
    fun hd => congrArg Message.fields (hmessage hd)
  have henums : ∀ {d d' : Declaration}, R d d' → d.message.enums = d'.message.enums :=
    fun hd => congrArg Message.enums (hmessage hd)
  rcases hmessages with _ | @⟨d, d', ds, ds', hd, hds⟩
  · rw [result_typeDocuments_nil, result_typeDocuments_nil]
  · rw [result_typeDocuments_of_ne_nil _ _ _ (List.cons_ne_nil d ds),
      result_typeDocuments_of_ne_nil _ _ _ (List.cons_ne_nil d' ds')]
    rcases (h.lookupPackage file.package).cases with ⟨e, hx, hy⟩ | ⟨id, id', hx, hy, hid⟩
    · rw [hx, hy]
      rfl
    · rw [hx, hy]
      change (d :: ds).mapM (fun d => (messageDocument ⟨r, id, p⟩ file visible d).result) =
        (d' :: ds').mapM fun d => (messageDocument ⟨r', id', p⟩ file visible d).result
      refine mapM_eq_of_forall₂ (.cons hd hds) fun d d' hd => ?_
      rw [result_messageDocument, result_messageDocument, Conversion.message, Conversion.message,
        h.result_messageSchema hid p .nil hfields (fun hd _ => henums hd) _ hd
          (List.nil_subset [d]), hmessage hd]

end Simulates

end Registry

end ProtoSchema
