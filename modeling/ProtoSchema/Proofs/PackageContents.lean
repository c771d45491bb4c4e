import ProtoSchema.Proofs.PackageTree

/-!
# What the tree of packages holds

The tree stands for a flat table. Its packages are the beginnings of the packages under which
messages were registered (`IsPackage`), and the types of a package are the messages that were
registered under its segments, of each name the last one. Children and types stand in the order in
which they were first registered (`Registry.Holds`).

This is kept by registering one message more (`Registry.Holds.register`), in three steps with a
lemma each:

* the way down to the package adds one child to the last package that is there and makes the others
  (`Registry.Entered`), by induction on the way;
* then the message is put into that one package, and nothing but its types changes
  (`Registry.Registered`);
* and each package offers what it has to offer when there is one message more
  (`Registry.Registered.offers`).

All later questions about a registry are answered from the list of what was registered
(`Registry.holds_registerAll`), and none of them goes back to the array of packages.
-/

namespace ProtoSchema

/-! ## Ways

A way is a list of segments from the root downwards, and it is looked at here without any registry.
-/

/-- The segment behind the beginning of a way. -/
def nextAfter : List String → List String → Option String
  | [], way => way.head?
  | _ :: _, [] => none
  | s :: path, t :: way => if s = t then nextAfter path way else none

/-- There is one when the way goes on behind the beginning. -/
theorem nextAfter_eq_some_iff {path way : List String} {segment : String} :
    nextAfter path way = some segment ↔ path ++ [segment] <+: way := by
  fun_induction nextAfter path way with
  | case1 way => cases way <;> simp [eq_comm]
  | case2 => simp
  | case3 path t way ih => rw [List.cons_append, List.prefix_cons_inj, ih]
  | case4 s path t way hne =>
    refine iff_of_false (Option.some_ne_none segment ·.symm) fun h => ?_
    exact hne (List.cons_prefix_cons.mp h).1

/-- The way leads to a package, when messages were registered under these packages: it begins the
segments of one of them, or it leads nowhere. -/
def IsPackage (messages : List (String × Declaration)) (way : List String) : Prop :=
  way = [] ∨ ∃ m ∈ messages, way <+: segments m.1

instance (messages : List (String × Declaration)) (way : List String) :
    Decidable (IsPackage messages way) := inferInstanceAs (Decidable (_ ∨ _))

theorem isPackage_append_iff {messages : List (String × Declaration)} {m : String × Declaration}
    {way : List String} :
    IsPackage (messages ++ [m]) way ↔ IsPackage messages way ∨ way <+: segments m.1 := by
  simp only [IsPackage, List.mem_append, List.mem_singleton]
  constructor
  · rintro (hnil | ⟨m', hm' | rfl, hway⟩)
    · exact Or.inl (Or.inl hnil)
    · exact Or.inl (Or.inr ⟨m', hm', hway⟩)
    · exact Or.inr hway
  · rintro ((hnil | ⟨m', hm', hway⟩) | hway)
    · exact Or.inl hnil
    · exact Or.inr ⟨m', Or.inl hm', hway⟩
    · exact Or.inr ⟨m, Or.inr rfl, hway⟩

namespace Registry

/-! ## Going down

`Entered` compares the registry before with the one after, and names the package at which the way
ends. It says of each package what has become of its children, and of the new ones where they are.
-/

/-- The registry that comes of going down a way from a package, and the package at the end of it. -/
structure Entered (r : Registry) (id : Nat) (way : List String) (r' : Registry) (last : Nat) :
    Prop where
  /-- the packages are a tree still -/
  tree : r'.IsTree
  /-- what was there stays -/
  kept : r.Extends r'
  /-- the way ends at a package -/
  lt : last < r'.nodes.size
  /-- the way ends where it should -/
  path_eq : r'.path last = r.path id ++ way
  /-- new packages are on the way -/
  fresh : ∀ k : Nat, r.nodes.size ≤ k → k < r'.nodes.size → r'.path k <+: r.path id ++ way
  /-- a package on the way has a child on the way, which comes last when it is new -/
  childNames : ∀ k : Nat, k < r'.nodes.size → r'.childNames k =
    (nextAfter (r'.path k) (r.path id ++ way)).elim (r.childNames k) (addName (r.childNames k))
  /-- no types change -/
  types : ∀ k : Nat, (r'.node k).types = (r.node k).types

theorem entered_nil {r : Registry} (h : r.IsTree) {id : Nat} (hid : id < r.nodes.size) :
    r.Entered id [] r id where
  tree := h
  kept := .refl r
  lt := hid
  path_eq := (List.append_nil _).symm
  fresh k hge hlt := absurd hlt (Nat.not_lt.mpr hge)
  childNames k hk := by
    rw [List.append_nil]
    rcases hnext : nextAfter (r.path k) (r.path id) with _ | segment
    · rfl
    · -- the next package on the way to a package is a child already
      obtain ⟨c, hc, hpath⟩ := h.exists_of_prefix hid (nextAfter_eq_some_iff.mp hnext)
      have hmem := (h.mem_children_iff hk).mpr ⟨hc, hpath⟩
      exact (if_pos (List.mem_map.mpr ⟨_, hmem, rfl⟩)).symm
  types _ := rfl

/-- The first segment is entered, and the rest of the way is gone from there. -/
theorem entered_cons {r : Registry} (h : r.IsTree) {id : Nat} (hid : id < r.nodes.size)
    {segment : String} (hsegment : IsSegment segment) {rest : List String} {r' : Registry}
    {last : Nat}
    (ih : (r.enter id segment).1.Entered (r.enter id segment).2 rest r' last) :
    r.Entered id (segment :: rest) r' last := by
  have hextends := extends_enter hid segment
  have htypes := types_enter hid segment
  have hnames := childNames_enter hid segment
  have hfresh : ∀ k : Nat, r.nodes.size ≤ k → k < (r.enter id segment).1.nodes.size →
      k = (r.enter id segment).2 := fun k hge hlt => eq_of_size_le_enter hge hlt
  have hchild := (h.enter hid hsegment).path_child (mem_children_enter hid segment)
  rw [hextends.path_eq hid] at hchild
  generalize (r.enter id segment).1 = r₁ at *
  generalize (r.enter id segment).2 = child at *
  -- from the child the rest of the way leads to the same end
  have hfull : r₁.path child ++ rest = r.path id ++ segment :: rest := by
    rw [hchild, List.append_assoc]
    rfl
  refine ⟨ih.tree, hextends.trans ih.kept, ih.lt, ?_, fun k hge hlt => ?_, fun k hk => ?_,
    fun k => ?_⟩
  · rw [ih.path_eq, hfull]
  · rw [← hfull]
    by_cases hk : r₁.nodes.size ≤ k
    · exact ih.fresh k hk hlt
    · have hk := Nat.lt_of_not_le hk
      rw [ih.kept.path_eq hk, hfresh k hge hk]
      exact List.prefix_append _ _
  · rw [ih.childNames k hk, hfull, hnames]
    split
    · next heq =>
      subst heq
      -- the package that the way leads through first: it has the child already, which is not added
      -- twice
      have hk' : r'.path k = r.path k := (hextends.trans ih.kept).path_eq hid
      have hnext : nextAfter (r'.path k) (r.path k ++ segment :: rest) = some segment := by
        rw [hk', nextAfter_eq_some_iff]
        exact ⟨rest, by rw [List.append_assoc]; rfl⟩
      rw [hnext]
      exact addName_of_mem (mem_addName_self _ _)
    · rfl
  · rw [ih.types, htypes]

/-- **Going down** a way of segments makes the packages on it, and changes nothing else. The
induction is on the way, with the registry open, as each segment is entered in the registry that the
one before has left. -/
theorem entered_enterAll {way : List String} (hway : ∀ segment ∈ way, IsSegment segment) :
    ∀ {r : Registry} {id : Nat}, r.IsTree → id < r.nodes.size →
      r.Entered id way (r.enterAll id way).1 (r.enterAll id way).2 := by
  induction way with
  | nil => exact fun h hid => entered_nil h hid
  | cons segment rest ih =>
    intro r id h hid
    have hsegment := hway segment List.mem_cons_self
    have htree := h.enter hid hsegment
    have hlt := (htree.child _ _ _ (mem_children_enter hid segment)).1
    exact entered_cons h hid hsegment
      (ih (fun s hs => hway s (List.mem_cons_of_mem _ hs)) htree hlt)

/-- After going down, the packages are those that were there and those on the way. -/
theorem Entered.exists_path_iff {r r' : Registry} {id last : Nat} {way : List String}
    (h : r.Entered id way r' last) {q : List String} :
    (∃ k, k < r'.nodes.size ∧ r'.path k = q) ↔
      (∃ k, k < r.nodes.size ∧ r.path k = q) ∨ q <+: r.path id ++ way := by
  refine ⟨?_, ?_⟩
  · rintro ⟨k, hk, rfl⟩
    rcases Nat.lt_or_ge k r.nodes.size with hold | hnew
    · exact Or.inl ⟨k, hold, (h.kept.path_eq hold).symm⟩
    · exact Or.inr (h.fresh k hnew hk)
  · rintro (⟨k, hk, rfl⟩ | hq)
    · exact ⟨k, Nat.lt_of_lt_of_le hk h.kept.size_le, h.kept.path_eq hk⟩
    · rw [← h.path_eq] at hq
      exact h.tree.exists_of_prefix h.lt hq

/-! ## Putting a message in

The message is put into the package at the end of the way, under its own name.
-/

/-- The names of the types of a package. -/
def typeNames (r : Registry) (id : Nat) : List String := (r.node id).types.map (·.1)

/-- Putting a message in changes one package. -/
theorem node_addType {r : Registry} {id : Nat} (hid : id < r.nodes.size) (d : Declaration)
    (k : Nat) : (r.addType id d).node k =
      if k = id then { r.node id with types := put d.message.name d (r.node id).types }
      else r.node k := by
  simp only [addType, node, Array.getD_eq_getD_getElem?, Array.getElem?_modify]
  by_cases hk : k = id
  · subst hk
    rw [if_pos rfl, if_pos rfl, Array.getElem?_eq_getElem hid]
    rfl
  · rw [if_neg hk, if_neg (Ne.symm hk)]

theorem types_addType {r : Registry} {id : Nat} (hid : id < r.nodes.size) (d : Declaration)
    (k : Nat) : ((r.addType id d).node k).types =
      if k = id then put d.message.name d (r.node k).types else (r.node k).types := by
  rw [node_addType hid]
  split
  · next hk => rw [hk]
  · rfl

/-- Putting a message in changes types alone. -/
theorem links_addType {r : Registry} {id : Nat} (hid : id < r.nodes.size) (d : Declaration)
    (k : Nat) : ((r.addType id d).node k).name = (r.node k).name ∧
      ((r.addType id d).node k).parent = (r.node k).parent ∧
      ((r.addType id d).node k).children = (r.node k).children := by
  rw [node_addType hid]
  split
  · next hk => exact hk ▸ ⟨rfl, rfl, rfl⟩
  · exact ⟨rfl, rfl, rfl⟩

theorem size_addType (r : Registry) (id : Nat) (d : Declaration) :
    (r.addType id d).nodes.size = r.nodes.size :=
  Array.size_modify

theorem extends_addType {r : Registry} {id : Nat} (hid : id < r.nodes.size) (d : Declaration) :
    r.Extends (r.addType id d) where
  size_le := Nat.le_of_eq (size_addType r id d).symm
  name k _ := (links_addType hid d k).1
  parent k _ := (links_addType hid d k).2.1
  children k _ := (links_addType hid d k).2.2 ▸ List.prefix_refl _

/-- The packages are a tree still, as no link changes. -/
theorem IsTree.addType {r : Registry} (h : r.IsTree) {id : Nat} (hid : id < r.nodes.size)
    (d : Declaration) : (r.addType id d).IsTree := by
  have hlinks := links_addType hid d
  have hsize := size_addType r id d
  generalize r.addType id d = r' at hlinks hsize
  obtain ⟨hname, hparent, hchildren⟩ : (∀ k, (r'.node k).name = (r.node k).name) ∧
      (∀ k, (r'.node k).parent = (r.node k).parent) ∧
      ∀ k, (r'.node k).children = (r.node k).children :=
    ⟨fun k => (hlinks k).1, fun k => (hlinks k).2.1, fun k => (hlinks k).2.2⟩
  refine ⟨?_, ?_, fun k hk => ?_, fun k p hk hp => ?_, fun p s k hk => ?_, fun p => ?_, fun p => ?_⟩
  · rw [hsize]
    exact h.nonempty
  · rw [hname]
    exact h.root_name
  · rw [hparent]
    exact h.parent_eq_none_iff k (hsize ▸ hk)
  · rw [hparent] at hp
    rw [hchildren]
    exact h.parent k p (hsize ▸ hk) hp
  · rw [hchildren] at hk
    rw [hsize, hparent, hname, hname]
    exact h.child p s k hk
  · rw [childNames, hchildren]
    exact h.nodup p
  · rw [hchildren]
    exact h.ascending p

/-! ## Registering -/

/-- The registry that comes of registering a message, and the package that it is put into. -/
structure Registered (r : Registry) (package : String) (d : Declaration) (r' : Registry)
    (last : Nat) : Prop where
  /-- the packages are a tree still -/
  tree : r'.IsTree
  /-- what was there stays, but for types -/
  kept : r.Extends r'
  /-- the message is put into a package -/
  lt : last < r'.nodes.size
  /-- the message is put into the package that it is registered under -/
  path_eq : r'.path last = segments package
  /-- the packages are those that were there and those on the way -/
  packages : ∀ q, (∃ k, k < r'.nodes.size ∧ r'.path k = q) ↔
    (∃ k, k < r.nodes.size ∧ r.path k = q) ∨ q <+: segments package
  /-- a package on the way has a child on the way, which comes last when it is new -/
  childNames : ∀ k : Nat, k < r'.nodes.size → r'.childNames k =
    (nextAfter (r'.path k) (segments package)).elim (r.childNames k) (addName (r.childNames k))
  /-- the types of no other package change -/
  types : ∀ k : Nat, (r'.node k).types =
    if k = last then put d.message.name d (r.node k).types else (r.node k).types

/-- **Registering** a message makes its package with those around it, and puts the message there.
The two steps change different things: going down changes children, and putting the message in
changes types. -/
theorem registered_register {r : Registry} (h : r.IsTree) (package : String) (d : Declaration) :
    r.Registered package d (r.register package d).1 (r.register package d).2 := by
  have hsegments : ∀ segment ∈ segments package, IsSegment segment := fun _ hs =>
    isSegment_of_mem_segments hs
  have hentered := entered_enterAll hsegments h h.nonempty
  rw [register]
  generalize r.enterAll root (segments package) = entered at hentered
  obtain ⟨r', last⟩ := entered
  have hlinks := links_addType hentered.lt d
  have hpath : ∀ k, (r'.addType last d).path k = r'.path k := fun k => by
    rw [path, path, (hlinks k).1]
  have hway : r.path root ++ segments package = segments package := by
    rw [h.path_root, List.nil_append]
  refine ⟨hentered.tree.addType hentered.lt d, hentered.kept.trans (extends_addType hentered.lt d),
    ?_, ?_, fun q => ?_, fun k hk => ?_, fun k => ?_⟩
  · rw [size_addType]
    exact hentered.lt
  · rw [hpath, hentered.path_eq, hway]
  · rw [size_addType]
    simp only [hpath]
    rw [hentered.exists_path_iff, hway]
  · rw [size_addType] at hk
    have hnames := hentered.childNames k hk
    rw [hway] at hnames
    rw [hpath, ← hnames]
    exact congrArg (List.map (·.1)) (hlinks k).2.2
  · rw [types_addType hentered.lt, hentered.types]

/-! ## What is held

`Offers` is said of a package and of a way. A package that is not there offers nothing, and this is
true as well when nothing was registered under the way.
-/

/-- The package has what was registered under the way. -/
structure Offers (r : Registry) (messages : List (String × Declaration)) (id : Nat)
    (way : List String) : Prop where
  /-- the children stand in the order in which packages were first registered under the way -/
  childNames : r.childNames id =
    (messages.filterMap fun m => nextAfter way (segments m.1)).eraseDups
  /-- the types stand in the order in which messages of their names were first registered -/
  typeNames : r.typeNames id =
    ((messages.filter fun m => segments m.1 = way).map (·.2.message.name)).eraseDups
  /-- of each name the type is the last message that was registered -/
  type?_eq : ∀ name, r.type? id name =
    (messages.findRev? fun m => segments m.1 = way ∧ m.2.message.name = name).map (·.2)

/-- The registry holds the messages that were registered under these packages. -/
structure Holds (r : Registry) (messages : List (String × Declaration)) : Prop where
  /-- the packages are a tree -/
  tree : r.IsTree
  /-- the packages are the beginnings of the packages of the messages -/
  packages : ∀ way, (∃ id, id < r.nodes.size ∧ r.path id = way) ↔ IsPackage messages way
  /-- each package has what was registered under its segments -/
  offers : ∀ id : Nat, id < r.nodes.size → r.Offers messages id (r.path id)

variable {r r' : Registry} {messages : List (String × Declaration)}

/-- Nothing was registered under a way that leads to no package. -/
theorem offers_of_not_isPackage {id : Nat} (hid : r.nodes.size ≤ id) {way : List String}
    (hway : ¬ IsPackage messages way) : r.Offers messages id way := by
  -- no message lies on the way or behind it, and no node stands for it
  have hnot : ∀ m ∈ messages, ¬ way <+: segments m.1 := fun m hm hprefix =>
    hway (Or.inr ⟨m, hm, hprefix⟩)
  have hne : ∀ m ∈ messages, segments m.1 ≠ way := fun m hm heq =>
    hnot m hm (heq ▸ List.prefix_refl _)
  refine ⟨?_, ?_, fun name => ?_⟩
  · have hnil : (messages.filterMap fun m => nextAfter way (segments m.1)) = [] := by
      rw [List.filterMap_eq_nil_iff]
      intro m hm
      by_contra hnext
      obtain ⟨segment, hsegment⟩ := Option.ne_none_iff_exists'.mp hnext
      exact hnot m hm ((List.prefix_append _ _).trans (nextAfter_eq_some_iff.mp hsegment))
    rw [hnil, childNames, node_of_size_le hid]
    rfl
  · have hnil : (messages.filter fun m => segments m.1 = way) = [] := by
      rw [List.filter_eq_nil_iff]
      intro m hm
      simpa using hne m hm
    rw [hnil, typeNames, node_of_size_le hid]
    rfl
  · have hnone : (messages.findRev? fun m => segments m.1 = way ∧ m.2.message.name = name) =
        none := by
      apply findRev?_eq_none
      intro m hm
      simpa using fun heq => absurd heq (hne m hm)
    rw [hnone, type?, node_of_size_le hid]
    rfl

/-- A package offers the new message too when the message is put into it, and a new child when the
message is put below it. -/
theorem Registered.offers {package : String} {d : Declaration} {last : Nat}
    (h : r.Registered package d r' last) {id : Nat} (hid : id < r'.nodes.size)
    (hoffers : r.Offers messages id (r'.path id)) :
    r'.Offers (messages ++ [(package, d)]) id (r'.path id) := by
  have htypes := h.types id
  -- no two packages have one path, so that the way tells which package the message is put into
  have hlast : id = last ↔ segments package = r'.path id := by
    rw [← h.path_eq]
    exact ⟨fun heq => heq ▸ rfl, fun heq => h.tree.eq_of_path_eq hid h.lt heq.symm⟩
  refine ⟨?_, ?_, fun name => ?_⟩
  · rw [h.childNames id hid, List.filterMap_append, hoffers.childNames]
    rcases hnext : nextAfter (r'.path id) (segments package) with _ | segment
    · simp [hnext]
    · simp only [List.filterMap_cons, hnext, List.filterMap_nil, eraseDups_concat,
        Option.elim_some]
  · rw [typeNames, htypes, List.filter_append]
    by_cases heq : segments package = r'.path id
    · rw [if_pos (hlast.mpr heq), names_put]
      simp only [List.filter_cons, heq, decide_true, if_true, List.filter_nil, List.map_append,
        List.map_singleton, eraseDups_concat]
      exact congrArg (addName · _) hoffers.typeNames
    · rw [if_neg (mt hlast.mp heq)]
      simp only [List.filter_cons, heq, decide_false, Bool.false_eq_true, if_false,
        List.filter_nil, List.append_nil]
      exact hoffers.typeNames
  · rw [type?, htypes, findRev?_concat]
    have hold := hoffers.type?_eq name
    rw [type?] at hold
    by_cases heq : segments package = r'.path id
    · rw [if_pos (hlast.mpr heq), lookup_put]
      by_cases hname : name = d.message.name
      · simp [heq, hname]
      · simp [heq, hname, Ne.symm hname, hold]
    · rw [if_neg (mt hlast.mp heq)]
      simp [heq, hold]

/-- The registry at the beginning holds nothing: there is only the root, and nothing was
registered. -/
theorem holds_empty : empty.Holds [] where
  tree := isTree_empty
  packages way := by
    refine ⟨?_, ?_⟩
    · rintro ⟨id, hid, rfl⟩
      obtain rfl := Nat.lt_one_iff.mp hid
      exact Or.inl isTree_empty.path_root
    · rintro (rfl | ⟨m, hm, -⟩)
      · exact ⟨root, Nat.zero_lt_one, isTree_empty.path_root⟩
      · cases hm
  offers id hid := by
    obtain rfl := Nat.lt_one_iff.mp hid
    exact ⟨rfl, rfl, fun name => rfl⟩

/-- **Registering one message more** keeps to what is registered. A package that was there offers
what it did and perhaps the new message or a new child; a new one offered nothing before, since no
message was registered under its segments or behind them. -/
theorem Holds.register (h : r.Holds messages) (package : String) (d : Declaration) :
    (r.register package d).1.Holds (messages ++ [(package, d)]) := by
  have hregistered := registered_register h.tree package d
  generalize (r.register package d).1 = r' at *
  refine ⟨hregistered.tree, fun way => ?_, fun id hid => hregistered.offers hid ?_⟩
  · rw [hregistered.packages, h.packages, isPackage_append_iff]
  · rcases Nat.lt_or_ge id r.nodes.size with hold | hnew
    · rw [hregistered.kept.path_eq hold]
      exact h.offers id hold
    · refine offers_of_not_isPackage hnew fun hway => ?_
      -- a package of the same segments that was there before would be this one
      obtain ⟨k, hk, hpath⟩ := (h.packages _).mpr hway
      rw [← hregistered.kept.path_eq hk] at hpath
      have hk' := Nat.lt_of_lt_of_le hk hregistered.kept.size_le
      obtain rfl := hregistered.tree.eq_of_path_eq hk' hid hpath
      exact absurd hk (Nat.not_lt.mpr hnew)

/-- A registry that holds some messages holds those that are registered behind them too. -/
theorem Holds.registerAll {more : List (String × Declaration)} :
    ∀ {r : Registry} {messages : List (String × Declaration)}, r.Holds messages →
      (r.registerAll more).Holds (messages ++ more) := by
  induction more with
  | nil =>
    intro r messages h
    rw [List.append_nil]
    exact h
  | cons m rest ih =>
    intro r messages h
    rw [List.append_cons]
    exact ih (h.register m.1 m.2)

/-- **A sequence of registrations** is held by the registry that it makes. -/
theorem holds_registerAll (messages : List (String × Declaration)) :
    (empty.registerAll messages).Holds messages :=
  holds_empty.registerAll

/-! ## Finding packages

Names are found by their segments. Two names with the same segments, such as one with a leading dot
and one without, are the same name here.
-/

namespace Holds

variable (h : r.Holds messages)
include h

theorem child?_eq_none_iff {id : Nat} (hid : id < r.nodes.size) {segment : String} :
    r.child? id segment = none ↔ ¬ IsPackage messages (r.path id ++ [segment]) := by
  rw [← h.packages, Option.eq_none_iff_forall_ne_some, not_exists]
  refine forall_congr' fun child => not_congr ?_
  rw [h.tree.child?_iff, h.tree.mem_children_iff hid]

/-- A package name means the package of its segments. -/
theorem lookupPackage_eq_ok_iff {name : String} {id : Nat} :
    r.lookupPackage name = .ok id ↔
      id < r.nodes.size ∧ (r.node id).name = dottedName (segments name) := by
  rw [lookupPackage, lookupPackageFrom, h.tree.descend_root_iff]
  refine and_congr_right fun hid => ⟨fun hpath => ?_, fun hname => ?_⟩
  · rw [h.tree.name_eq hid, hpath]
  · rw [path, hname]
    exact segments_dottedName fun _ hs => isSegment_of_mem_segments hs

theorem exists_lookupPackage_iff {name : String} :
    (∃ id, r.lookupPackage name = .ok id) ↔ IsPackage messages (segments name) := by
  rw [← h.packages]
  exact exists_congr fun id => h.tree.descend_root_iff

/-- A package name fails at its first segment that leads to no package. -/
theorem lookupPackage_eq_error_iff {name : String} {e : LookupError} :
    r.lookupPackage name = .error e ↔
      ∃ front segment rest, segments name = front ++ segment :: rest ∧
        IsPackage messages front ∧ ¬ IsPackage messages (front ++ [segment]) ∧
        e = .noSuchPackage (dottedName front ++ "." ++ segment) := by
  rw [lookupPackage, lookupPackageFrom, descend_eq_error_iff]
  refine exists_congr fun front => exists_congr fun segment => exists_congr fun rest => ?_
  refine ⟨?_, ?_⟩
  · rintro ⟨id, hway, hdescend, hchild, rfl⟩
    obtain ⟨hid, rfl⟩ := h.tree.descend_root_iff.mp hdescend
    refine ⟨hway, (h.packages _).mp ⟨id, hid, rfl⟩, (h.child?_eq_none_iff hid).mp hchild, ?_⟩
    rw [childName, h.tree.name_eq hid]
  · rintro ⟨hway, hfront, hsegment, rfl⟩
    obtain ⟨id, hid, rfl⟩ := (h.packages _).mpr hfront
    refine ⟨id, hway, h.tree.descend_root_iff.mpr ⟨hid, rfl⟩,
      (h.child?_eq_none_iff hid).mpr hsegment, ?_⟩
    rw [childName, h.tree.name_eq hid]

end Holds

/-- **The packages** of a sequence of registrations are a tree in which every package but the root
hangs in one place and no two have one name, and they hold what was registered and nothing else. A
package name is found when it begins the segments of a package under which something was registered,
and fails at its first segment that does not. One registration more makes the packages on the way
that are missing, and changes the types of a single package. -/
theorem registerAll_refines (messages : List (String × Declaration)) :
    let r := empty.registerAll messages
    r.Holds messages ∧
      (∀ id : Nat, id < r.nodes.size → id ≠ root →
        ∃ (p : Nat) (segment : String), p < id ∧ (r.node id).parent = some p ∧
          IsSegment segment ∧ (r.node id).name = (r.node p).name ++ "." ++ segment ∧
          ∀ (q : Nat) (s : String), (s, id) ∈ (r.node q).children ↔ q = p ∧ s = segment) ∧
      (∀ id j : Nat, id < r.nodes.size → j < r.nodes.size →
        (r.node id).name = (r.node j).name → id = j) ∧
      (∀ (name : String) (id : Nat), r.lookupPackage name = .ok id ↔
        id < r.nodes.size ∧ (r.node id).name = dottedName (segments name)) ∧
      (∀ name, (∃ id, r.lookupPackage name = .ok id) ↔ IsPackage messages (segments name)) ∧
      (∀ name e, r.lookupPackage name = .error e ↔
        ∃ front segment rest, segments name = front ++ segment :: rest ∧
          IsPackage messages front ∧ ¬ IsPackage messages (front ++ [segment]) ∧
          e = .noSuchPackage (dottedName front ++ "." ++ segment)) ∧
      ∀ package d, r.Registered package d (r.register package d).1 (r.register package d).2 := by
  intro r
  have h : r.Holds messages := holds_registerAll messages
  refine ⟨h, fun id hid hroot => h.tree.exists_place hid hroot, fun id j hid hj hname => ?_,
    fun name id => h.lookupPackage_eq_ok_iff, fun name => h.exists_lookupPackage_iff,
    fun name e => h.lookupPackage_eq_error_iff, fun package d => registered_register h.tree _ _⟩
  exact h.tree.eq_of_path_eq hid hj (congrArg segments hname)

end Registry

end ProtoSchema
