import Mathlib.Logic.Relation
import ProtoSchema.Proofs.Outcome
import ProtoSchema.Proofs.PackageContents

/-!
# Names of types mean what they say

A registered message has a full name: the segments of its package, its own name and, when it is
declared inside another message, the names on the way inwards (`IsNamed`). This module shows that
what a type name resolves to is named so, with the parts of the name read from the root or from a
package around (`Registry.Holds.isNamed_of_resolve`), and that every full name is found again as
long as the messages can be told apart (`Registry.Holds.resolve_of_isNamed`).

The two directions have different hypotheses. What is found has the name, whatever was registered.
That the name is found needs more: of two messages of one full name the later one comes in place of
the other, and a name that is empty or holds a dot is no part of a name.

Otherwise finding can fail in one way only: a package hides a message of its name, and the search
does not go back. So no message may have the full name of a package (`Unambiguous.apart`).
-/

namespace ProtoSchema

/-! ## Declarations by name

A declaration is found inside another by its name, and of two of one name the first is found. So
names do not always lead back to a declaration, though they always lead away from one.
-/

/-- The second is declared inside the first, and these are the names on the way inwards. -/
inductive Declaration.Declares : Declaration → List String → Declaration → Prop where
  /-- the declaration itself -/
  | self (d : Declaration) : Declares d [] d
  /-- inside a declaration inside -/
  | nested {d e f : Declaration} {names : List String} (he : e ∈ d.nested)
    (hf : Declares e names f) : Declares d (e.message.name :: names) f

namespace Declaration

theorem mem_nestedDeclarations_iff {position : Position} {ms : List Message} {i : Nat}
    {e : Declaration} : e ∈ nestedDeclarations position i ms ↔
      ∃ m j, (m, j) ∈ ms.zipIdx i ∧ e ∈ m.declarations (position ++ [j]) := by
  refine ⟨fun h => ?_, fun ⟨m, j, hmem, he⟩ => mem_nestedDeclarations hmem he⟩
  induction ms generalizing i with
  | nil => exact absurd h List.not_mem_nil
  | cons m ms ih =>
    rw [nestedDeclarations, List.mem_append] at h
    rcases h with h | h
    · exact ⟨m, i, List.mem_cons_self, h⟩
    · obtain ⟨m', j, hmem, he⟩ := ih h
      exact ⟨m', j, List.mem_cons_of_mem _ hmem, he⟩

/-- What is declared inside is the declaration itself and what is inside those right inside. -/
theorem mem_all_iff {d f : Declaration} : f ∈ d.all ↔ f = d ∨ ∃ e ∈ d.nested, f ∈ e.all := by
  rw [d.all_eq, List.mem_cons, mem_nestedDeclarations_iff]
  refine or_congr_right ⟨?_, ?_⟩
  · rintro ⟨m, j, hmem, hf⟩
    exact ⟨⟨d.position ++ [j], m⟩, List.mem_map.mpr ⟨(m, j), hmem, rfl⟩, hf⟩
  · rintro ⟨e, he, hf⟩
    obtain ⟨⟨m, j⟩, hmem, rfl⟩ := List.mem_map.mp he
    exact ⟨m, j, hmem, hf⟩

theorem mem_nested_all {d e f : Declaration} (he : e ∈ d.nested) (hf : f ∈ e.all) : f ∈ d.all :=
  mem_all_iff.mpr (Or.inr ⟨e, he, hf⟩)

/-- A message is larger than those inside it, which is what ends the induction on declarations. -/
theorem sizeOf_lt_of_mem_nested {d e : Declaration} (he : e ∈ d.nested) :
    sizeOf e.message < sizeOf d.message := by
  have hmem : e.message ∈ d.message.nested := by
    rw [← map_message_declarationsAt d.position d.message.nested]
    exact List.mem_map_of_mem he
  have hlt := List.sizeOf_lt_of_mem hmem
  obtain ⟨position, ⟨name, fields, nested, enums⟩⟩ := d
  simp only [Message.mk.sizeOf_spec] at hlt ⊢
  omega

/-- Whatever is declared inside has names on the way to it. -/
theorem exists_declares {d f : Declaration} (hf : f ∈ d.all) : ∃ names, d.Declares names f := by
  rcases mem_all_iff.mp hf with rfl | ⟨e, he, hf⟩
  · exact ⟨[], .self f⟩
  · have hlt := sizeOf_lt_of_mem_nested he
    obtain ⟨names, hnames⟩ := exists_declares hf
    exact ⟨e.message.name :: names, .nested he hnames⟩
termination_by sizeOf d.message

theorem Declares.mem_all {d e : Declaration} {names : List String} (h : d.Declares names e) :
    e ∈ d.all := by
  induction h with
  | self d => exact d.mem_all_self
  | nested he _ ih => exact mem_nested_all he ih

theorem mem_all_iff_declares {d f : Declaration} : f ∈ d.all ↔ ∃ names, d.Declares names f :=
  ⟨exists_declares, fun ⟨_, hnames⟩ => hnames.mem_all⟩

/-- The names on the way are those of declarations inside. -/
theorem Declares.exists_of_mem {d e : Declaration} {names : List String} (h : d.Declares names e)
    {name : String} (hname : name ∈ names) : ∃ f ∈ d.all, f.message.name = name := by
  induction h with
  | self d => cases hname
  | @nested d e f names he _ ih =>
    rcases List.mem_cons.mp hname with rfl | hname
    · exact ⟨e, mem_nested_all he e.mem_all_self, rfl⟩
    · obtain ⟨g, hg, hgname⟩ := ih hname
      exact ⟨g, mem_nested_all he hg, hgname⟩

theorem declares_of_member {d e : Declaration} {names : List String}
    (h : d.member names = .ok e) : d.Declares names e := by
  induction names generalizing d with
  | nil =>
    obtain rfl := Except.ok.inj h
    exact .self d
  | cons name names ih =>
    rw [member] at h
    split at h
    · next f hf =>
      obtain rfl : f.message.name = name := by simpa using List.find?_some hf
      exact .nested (List.mem_of_find?_eq_some hf) (ih h)
    · cases h

/-- Where no message declares two of one name, the names on the way lead inwards. -/
theorem member_of_declares {d e : Declaration} {names : List String} (h : d.Declares names e)
    (hnodup : ∀ f ∈ d.all, (f.message.nested.map (·.name)).Nodup) : d.member names = .ok e := by
  induction h with
  | self d => rfl
  | @nested d e f names he _ ih =>
    have hnames : (d.nested.map (·.message.name)).Nodup := by
      have hd := hnodup d d.mem_all_self
      rw [← map_message_declarationsAt d.position d.message.nested, List.map_map] at hd
      exact hd
    have hfind : d.nested.find? (fun g => g.message.name = e.message.name) = some e :=
      find?_of_mem hnames he
    rw [member, hfind]
    exact ih fun g hg => hnodup g (mem_nested_all he hg)

end Declaration

/-- The declaration has this full name, when messages were registered under these packages. -/
def IsNamed (messages : List (String × Declaration)) (full : List String) (d : Declaration) :
    Prop :=
  ∃ m ∈ messages, ∃ names, m.2.Declares names d ∧
    full = segments m.1 ++ m.2.message.name :: names

/-- The messages can be told apart by their full names. -/
structure Unambiguous (messages : List (String × Declaration)) : Prop where
  /-- the names are names, and without dots -/
  names : ∀ m ∈ messages, ∀ d ∈ m.2.all, IsSegment d.message.name
  /-- no message declares two of one name -/
  nested : ∀ m ∈ messages, ∀ d ∈ m.2.all, (d.message.nested.map (·.name)).Nodup
  /-- no two messages of one name are registered under one package -/
  distinct : (messages.map fun m => (segments m.1, m.2.message.name)).Nodup
  /-- no message has the name of a package -/
  apart : ∀ m ∈ messages, ¬ IsPackage messages (segments m.1 ++ [m.2.message.name])

/-- The parts of a full name are segments. -/
theorem Unambiguous.isSegment {messages : List (String × Declaration)} (h : Unambiguous messages)
    {full : List String} {d : Declaration} (hd : IsNamed messages full d) :
    ∀ part ∈ full, IsSegment part := by
  obtain ⟨m, hm, names, hdeclares, rfl⟩ := hd
  intro part hpart
  rcases List.mem_append.mp hpart with hpart | hpart
  · exact isSegment_of_mem_segments hpart
  · rcases List.mem_cons.mp hpart with rfl | hpart
    · exact h.names m hm m.2 m.2.mem_all_self
    · obtain ⟨f, hf, rfl⟩ := hdeclares.exists_of_mem hpart
      exact h.names m hm f hf

namespace Registry

/-! ## Resolving from a package

A name is cut in three: the parts that lead down through packages, the name of a message, and the
names inwards.
-/

section Resolve

variable {r : Registry} {id : Nat}

/-- What is found stands at the end of a way down, and then inwards from a message there. -/
theorem exists_of_resolve {parts : List String} {d : Declaration}
    (h : r.resolve id parts = .ok d) : ∃ front name names j m, parts = front ++ name :: names ∧
      r.descend id front = .ok j ∧ r.type? j name = some m ∧ m.member names = .ok d := by
  fun_induction r.resolve id parts with
  | case1 => cases h
  | case2 => cases h
  | case3 id part hne m hm => exact ⟨[], part, [], id, m, rfl, rfl, hm, h⟩
  | case4 => cases h
  | case5 id part next rest child hchild ih =>
    obtain ⟨front, name, names, j, m, hparts, hj, hm, hd⟩ := ih h
    refine ⟨part :: front, name, names, j, m, ?_, ?_, hm, hd⟩
    · rw [hparts, List.cons_append]
    · rw [descend, hchild]
      exact hj
  | case6 id part next rest hchild m hm => exact ⟨[], part, next :: rest, id, m, rfl, rfl, hm, h⟩
  | case7 => cases h

/-- Parts that lead down to a package are followed to it, if there are more. -/
theorem resolve_append {front parts : List String} {j : Nat} (hfront : r.descend id front = .ok j)
    (hparts : parts ≠ []) : r.resolve id (front ++ parts) = r.resolve j parts := by
  induction front generalizing id with
  | nil =>
    obtain rfl := Except.ok.inj hfront
    rfl
  | cons segment front ih =>
    obtain ⟨next, rest, hrest⟩ : ∃ next rest, front ++ parts = next :: rest :=
      List.exists_cons_of_ne_nil (List.append_ne_nil_of_right_ne_nil front hparts)
    rw [descend] at hfront
    split at hfront
    · next child hchild =>
      rw [List.cons_append, hrest, resolve, hchild, ← hrest]
      exact ih hfront
    · cases hfront

/-- A part that names a message and no package is followed into the message. -/
theorem resolve_cons {name : String} {names : List String} {m : Declaration} (hname : name ≠ "")
    (hchild : r.child? id name = none) (hm : r.type? id name = some m) :
    r.resolve id (name :: names) = m.member names := by
  cases names with
  | nil => rw [resolve, if_neg hname, hm, Declaration.member]
  | cons next rest => rw [resolve, hchild, hm]

/-- Only packages have types. -/
theorem lt_of_type? {name : String} {m : Declaration} (hm : r.type? id name = some m) :
    id < r.nodes.size := by
  by_contra hge
  rw [type?, node_of_size_le (Nat.le_of_not_lt hge)] at hm
  cases hm

end Resolve

/-- The second package is the first or one around it. -/
def Around (r : Registry) : Nat → Nat → Prop :=
  Relation.ReflTransGen fun id p => (r.node id).parent = some p

/-- The packages that a search goes through are around the one where it begins. -/
theorem around_of_mem_outwards {r : Registry} {id a : Nat} (h : a ∈ r.outwards id) :
    r.Around id a := by
  fun_induction r.outwards id with
  | case1 id p hp _ ih =>
    rcases List.mem_cons.mp h with rfl | h
    · exact .refl
    · exact .head hp (ih h)
  | case2 id p hp _ =>
    obtain rfl := List.mem_singleton.mp h
    exact .refl
  | case3 id hp =>
    obtain rfl := List.mem_singleton.mp h
    exact .refl

namespace Holds

variable {r : Registry} {messages : List (String × Declaration)} (h : r.Holds messages)
include h

/-- A type of a package is a message that was registered under its segments. -/
theorem exists_of_type? {id : Nat} {name : String} {m : Declaration}
    (hm : r.type? id name = some m) :
    ∃ entry ∈ messages, segments entry.1 = r.path id ∧ entry.2.message.name = name ∧
      entry.2 = m := by
  have hid := lt_of_type? hm
  rw [(h.offers id hid).type?_eq name, Option.map_eq_some_iff] at hm
  obtain ⟨entry, hentry, rfl⟩ := hm
  obtain ⟨hmem, hfound⟩ := mem_of_findRev? hentry
  simp only [decide_eq_true_eq] at hfound
  exact ⟨entry, hmem, hfound.1, hfound.2, rfl⟩

/-- **Soundness**: what is found from a package has the name that was looked for, read from that
package. The parts that were followed downwards add to the segments of the package, the next one is
the name of a type there, and the others are names on the way inwards. -/
theorem isNamed_of_resolve {id : Nat} {parts : List String} {d : Declaration}
    (hd : r.resolve id parts = .ok d) :
    id < r.nodes.size ∧ IsNamed messages (r.path id ++ parts) d := by
  obtain ⟨front, name, names, j, m, rfl, hj, hm, hmember⟩ := exists_of_resolve hd
  obtain ⟨entry, hentry, hpath, rfl, rfl⟩ := h.exists_of_type? hm
  refine ⟨?_, entry, hentry, names, Declaration.declares_of_member hmember, ?_⟩
  · -- a way down starts at a package
    cases front with
    | nil =>
      obtain rfl := Except.ok.inj hj
      exact lt_of_type? hm
    | cons segment front =>
      rw [descend] at hj
      split at hj
      · next child hchild => exact lt_of_mem_children (h.tree.child?_iff.mp hchild)
      · cases hj
  · rw [hpath, h.tree.path_of_descend hj, List.append_assoc]

theorem type?_of_mem (hmessages : Unambiguous messages) {m : String × Declaration}
    (hm : m ∈ messages) {id : Nat} (hid : id < r.nodes.size) (hpath : r.path id = segments m.1) :
    r.type? id m.2.message.name = some m.2 := by
  have hfind := findRev?_of_mem hmessages.distinct hm
  simp only [Prod.mk.injEq] at hfind
  rw [(h.offers id hid).type?_eq, hpath, hfind, Option.map_some]

/-- **Completeness**: what has a full name is found by it from the root. The segments of the package
are followed to it; the name behind them is no child, as no message has the name of a package, and
so it is the type; and inwards each name is found, as no other message has it. -/
theorem resolve_of_isNamed (hmessages : Unambiguous messages) {full : List String}
    {d : Declaration} (hd : IsNamed messages full d) : r.resolve root full = .ok d := by
  obtain ⟨m, hm, names, hdeclares, rfl⟩ := hd
  obtain ⟨id, hid, hpath⟩ := (h.packages _).mpr (Or.inr ⟨m, hm, List.prefix_refl _⟩)
  have hname := hmessages.names m hm m.2 m.2.mem_all_self
  have hchild : r.child? id m.2.message.name = none := by
    rw [h.child?_eq_none_iff hid, hpath]
    exact hmessages.apart m hm
  rw [resolve_append (h.tree.descend_root_iff.mpr ⟨hid, hpath⟩) (List.cons_ne_nil _ _),
    resolve_cons hname.1 hchild (h.type?_of_mem hmessages hm hid hpath)]
  exact Declaration.member_of_declares hdeclares (hmessages.nested m hm)

end Holds

/-! ## Absolute and relative names

A name is read as its parts, and the first part is empty when there is a leading dot.
-/

/-- A leading dot leads to the root. -/
theorem lookupType_of_components_eq {r : Registry} {name : String} {parts : List String}
    (hparts : parts ≠ []) (hname : components name = "" :: parts) (context : PackageId) :
    r.lookupType context name = r.resolve root parts := by
  obtain ⟨part, rest, rfl⟩ := List.exists_cons_of_ne_nil hparts
  simp only [lookupType, hname]

/-- With a leading dot the search is from the root, wherever the name is used. -/
theorem lookupType_dot (r : Registry) (context : PackageId) (tail : String) :
    r.lookupType context ("." ++ tail) = r.resolve root (components tail) :=
  lookupType_of_components_eq (components_ne_nil tail) (components_dot_append tail) context

/-- Without a leading dot the search goes outwards. -/
theorem lookupType_of_components_ne {r : Registry} {name : String}
    (hname : ∀ parts, parts ≠ [] → components name ≠ "" :: parts) (context : PackageId) :
    r.lookupType context name =
      match (r.outwards context).findSome? fun id => (r.resolve id (components name)).toOption with
      | some d => .ok d
      | none => .error (.notFound name (r.node context).name) := by
  rw [lookupType]
  split
  · next part rest hparts => exact absurd hparts (hname _ (List.cons_ne_nil part rest))
  · rfl

/-- What is found without a leading dot is found from a package around. -/
theorem exists_of_lookupType {r : Registry} {name : String} (hname : ∀ tail, name ≠ "." ++ tail)
    {context : Nat} {d : Declaration} (h : r.lookupType context name = .ok d) :
    ∃ a, r.Around context a ∧ r.resolve a (components name) = .ok d := by
  rw [lookupType_of_components_ne] at h
  · split at h
    · next found hfound =>
      obtain rfl := Except.ok.inj h
      obtain ⟨a, ha, hresolve⟩ := List.exists_of_findSome?_eq_some hfound
      exact ⟨a, around_of_mem_outwards ha, toOption_eq_some_iff.mp hresolve⟩
    · cases h
  · intro parts hne hparts
    obtain ⟨tail, htail, -⟩ := exists_of_components_eq hne hparts
    exact hname tail htail

/-- **Names of types**: what a name with a leading dot resolves to has the rest for its full name,
and what any other name resolves to has it for its full name behind the segments of a package
around. All messages, and all that are declared inside them, have a full name, and where they can be
told apart they are found by it from everywhere. -/
theorem lookupType_named (messages : List (String × Declaration)) :
    let r := empty.registerAll messages
    (∀ (context : Nat) (name : String) (d : Declaration), r.lookupType context name = .ok d →
      (∀ tail, name = "." ++ tail → IsNamed messages (components tail) d) ∧
      ((∀ tail, name ≠ "." ++ tail) → ∃ a, r.Around context a ∧ a < r.nodes.size ∧
        IsNamed messages (r.path a ++ components name) d)) ∧
    (∀ m ∈ messages, ∀ d ∈ m.2.all, ∃ full, IsNamed messages full d) ∧
    (Unambiguous messages → ∀ full d, IsNamed messages full d →
      ∀ context : Nat, r.lookupType context (dottedName full) = .ok d) := by
  intro r
  have h : r.Holds messages := holds_registerAll messages
  refine ⟨fun context name d hd => ⟨?_, fun hname => ?_⟩, fun m hm d hd => ?_,
    fun hmessages full d hd context => ?_⟩
  · rintro tail rfl
    rw [lookupType_of_components_eq (components_ne_nil tail) (components_dot_append tail)] at hd
    obtain ⟨-, hnamed⟩ := h.isNamed_of_resolve hd
    rw [h.tree.path_root, List.nil_append] at hnamed
    exact hnamed
  · obtain ⟨a, ha, hresolve⟩ := exists_of_lookupType hname hd
    exact ⟨a, ha, h.isNamed_of_resolve hresolve⟩
  · obtain ⟨names, hnames⟩ := Declaration.mem_all_iff_declares.mp hd
    exact ⟨_, m, hm, names, hnames, rfl⟩
  · have hparts : components (dottedName full) = "" :: full :=
      components_dottedName fun part hpart => (hmessages.isSegment hd part hpart).2
    have hne : full ≠ [] := by
      obtain ⟨m, -, names, -, rfl⟩ := hd
      exact List.append_ne_nil_of_right_ne_nil _ (List.cons_ne_nil _ _)
    rw [lookupType_of_components_eq hne hparts]
    exact h.resolve_of_isNamed hmessages hd

namespace Depot

/-- An order with its lines. -/
def order : Declaration := ⟨[0, 0], { name := "Order", nested := [{ name := "Line" }] }⟩

/-- The line of an order. -/
def line : Declaration := ⟨[0, 0, 0], { name := "Line" }⟩

/-- The order and an item, in a package and one inside. -/
def messages : List (String × Declaration) :=
  [("depot", order), ("depot.stock", ⟨[1, 0], { name := "Item" }⟩)]

end Depot

/-- From the package of the item, the line of an order has a short name and a full one. -/
theorem lookupType_named_depot : let r := empty.registerAll Depot.messages
    r.lookupType 2 "Order.Line" = .ok Depot.line ∧
    (∃ a, r.Around 2 a ∧ a < r.nodes.size ∧
      IsNamed Depot.messages (r.path a ++ components "Order.Line") Depot.line) ∧
    Unambiguous Depot.messages ∧
    r.lookupType 2 (dottedName ["depot", "Order", "Line"]) = .ok Depot.line := by
  intro r
  obtain ⟨hsound, -, hcomplete⟩ := lookupType_named Depot.messages
  have hline : r.lookupType 2 "Order.Line" = .ok Depot.line := by decide +kernel
  have hmessages : Unambiguous Depot.messages :=
    ⟨by decide +kernel, by decide +kernel, by decide +kernel, by decide +kernel⟩
  refine ⟨hline, ?_, hmessages, ?_⟩
  · refine (hsound 2 "Order.Line" Depot.line hline).2 fun tail htail => ?_
    have hchars := congrArg String.toList htail
    simp at hchars
  · have hdeclares : Depot.order.Declares ["Line"] Depot.line :=
      .nested (e := Depot.line) List.mem_cons_self (.self Depot.line)
    exact hcomplete hmessages _ _ ⟨_, List.mem_cons_self, _, hdeclares, by decide +kernel⟩ 2

end Registry

end ProtoSchema
