import Mathlib.Data.List.Pairwise
import Mathlib.Data.List.Perm.Basic
import ProtoSchema.Proofs.Simulation

/-!
# The order of the files

When the files of a session change places, the packages are made in another order and get other
numbers, and every message is found at another place. This module shows that documents and failures
do not depend on it, as long as no two files declare a message under one full name: else the later
file would win. The enums are searched in the order of the files, and so this order has to stay.

A message and the same message at its new place are a pair (`Moved`), and with these pairs the
registries of the two orders cannot be told apart (`SameFiles.simulates`). Two things have to be
shown for it. Both registries have the same packages, though under other numbers, since a package is
there when some file names it or one below it. And in both the last message of a full name is the
same one, since it is the last in the one file that declares it
(`SameFiles.findRev?_forestMessages_iff`).

Here the failures are the same as well (`Session.generate_perm`). They name types, fields and
packages and no places, so that the simulation carries them over as they are.
-/

namespace ProtoSchema

/-! ## Rows -/

/-- The last one with a property, in a list of lists, is the last one of the last list that has
one. -/
theorem findRev?_flatMap {α β : Type} (xs : List α) (g : α → List β) (p : β → Bool) :
    (xs.flatMap g).findRev? p = xs.reverse.findSome? fun x => (g x).findRev? p := by
  simp only [List.findRev?_eq_find?_reverse, List.reverse_flatMap, List.find?_flatMap]
  rfl

/-- Where at most one element gives something, the search finds what any element gives. -/
theorem findSome?_eq_some_iff_of_unique {α β : Type} {f : α → Option β} {xs : List α}
    (h : ∀ x ∈ xs, ∀ y ∈ xs, ∀ a b, f x = some a → f y = some b → x = y) {b : β} :
    xs.findSome? f = some b ↔ ∃ x ∈ xs, f x = some b := by
  refine ⟨List.exists_of_findSome?_eq_some, ?_⟩
  rintro ⟨x, hx, hb⟩
  rcases hfound : xs.findSome? f with _ | a
  · rw [List.findSome?_eq_none_iff.mp hfound x hx] at hb
    cases hb
  · obtain ⟨y, hy, ha⟩ := List.exists_of_findSome?_eq_some hfound
    obtain rfl := h x hx y hy b a hb ha
    rw [← ha, hb]

/-! ## Files in two orders

The hypotheses of the theorem are on the files, and a row that is a permutation of another has the
same files. The structure below says of this what is used, so that it is symmetric.
-/

/-- The declaration at its place in the one row of files and in the other. -/
def Moved (forest forest' : List File) (d d' : Declaration) : Prop :=
  ∃ (file : File) (i j : Nat) (rest : Position), forest[i]? = some file ∧ forest'[j]? = some file ∧
    d.position = i :: rest ∧ d'.position = j :: rest ∧ d.message = d'.message

/-- No message of the one file has the full name of a message of the other. -/
def File.Apart (a b : File) : Prop :=
  segments a.package = segments b.package →
    (a.messages.map (·.name)).Disjoint (b.messages.map (·.name))

instance : Std.Symm File.Apart :=
  ⟨fun _ _ h hpackage _ hb ha => h hpackage.symm ha hb⟩

/-- The rows are of the same files, each of them once, and no two files declare a message under one
full name. -/
structure SameFiles (forest forest' : List File) : Prop where
  /-- the files are the same -/
  mem_iff : ∀ file, file ∈ forest ↔ file ∈ forest'
  /-- no file stands twice in the first row -/
  nodup : forest.Nodup
  /-- no file stands twice in the second row -/
  nodup' : forest'.Nodup
  /-- one file alone declares a message under a full name -/
  apart : ∀ a ∈ forest, ∀ b ∈ forest, a ≠ b → a.Apart b

/-- The messages of a file as they are registered, when the file is at that index. -/
def File.entries (file : File) (i : Nat) : List (String × Declaration) :=
  (file.declarations [i]).map fun d => (file.package, d)

theorem forestMessages_eq (forest : List File) :
    forestMessages forest = forest.zipIdx.flatMap fun x => x.1.entries x.2 := rfl

section

variable {forest forest' : List File}

theorem Moved.symm {d d' : Declaration} (h : Moved forest forest' d d') :
    Moved forest' forest d' d := by
  obtain ⟨file, i, j, rest, hi, hj, hd, hd', hmessage⟩ := h
  exact ⟨file, j, i, rest, hj, hi, hd', hd, hmessage.symm⟩

theorem Moved.message_eq {d d' : Declaration} (h : Moved forest forest' d d') :
    d.message = d'.message := by
  obtain ⟨-, -, -, -, -, -, -, -, hmessage⟩ := h
  exact hmessage

/-- What is declared at one place of a file is moved with the file. -/
theorem forall₂_moved {file : File} {i j : Nat} (hi : forest[i]? = some file)
    (hj : forest'[j]? = some file) (rest : Position) (messages : List Message) :
    List.Forall₂ (Moved forest forest') (declarationsAt (i :: rest) messages)
      (declarationsAt (j :: rest) messages) := by
  rw [declarationsAt, declarationsAt, List.forall₂_map_left_iff, List.forall₂_map_right_iff,
    List.forall₂_same]
  rintro ⟨m, k⟩ -
  exact ⟨file, i, j, rest ++ [k], hi, hj, rfl, rfl, rfl⟩

/-- The messages of a file are registered under its package, wherever the file stands. -/
theorem forall₂_entries {file : File} {i j : Nat} (hi : forest[i]? = some file)
    (hj : forest'[j]? = some file) :
    List.Forall₂ (fun m m' => m.1 = m'.1 ∧ Moved forest forest' m.2 m'.2) (file.entries i)
      (file.entries j) := by
  rw [File.entries, File.entries, List.forall₂_map_left_iff, List.forall₂_map_right_iff]
  exact (forall₂_moved hi hj [] file.messages).imp fun d d' hd => ⟨rfl, hd⟩

namespace SameFiles

variable (h : SameFiles forest forest')
include h

theorem symm : SameFiles forest' forest where
  mem_iff file := (h.mem_iff file).symm
  nodup := h.nodup'
  nodup' := h.nodup
  apart a ha b hb := h.apart a ((h.mem_iff a).mpr ha) b ((h.mem_iff b).mpr hb)

theorem exists_index {file : File} {i : Nat} (hi : forest[i]? = some file) :
    ∃ j : Nat, forest'[j]? = some file :=
  List.mem_iff_getElem?.mp ((h.mem_iff file).mp (List.mem_of_getElem? hi))

theorem index_unique {file : File} {i j : Nat} (hi : forest[i]? = some file)
    (hj : forest[j]? = some file) : i = j := by
  obtain ⟨hlt, -⟩ := List.getElem?_eq_some_iff.mp hi
  exact (List.getElem?_inj hlt h.nodup).mp (hi.trans hj.symm)

/-- Two messages are not moved to one place. -/
theorem eq_of_moved {d d' e : Declaration} (hd : Moved forest forest' d e)
    (hd' : Moved forest forest' d' e) : d = d' := by
  obtain ⟨file, i, j, rest, hi, hj, hposition, he, hmessage⟩ := hd
  obtain ⟨file', i', j', rest', hi', hj', hposition', he', hmessage'⟩ := hd'
  obtain ⟨rfl, rfl⟩ := List.cons.inj (he.symm.trans he')
  obtain rfl := Option.some.inj (hj.symm.trans hj')
  obtain rfl := h.index_unique hi hi'
  obtain ⟨position, message⟩ := d
  obtain ⟨position', message'⟩ := d'
  exact congr (congrArg _ (hposition.trans hposition'.symm)) (hmessage.trans hmessage'.symm)

/-- So each message has one partner, inside and out. -/
theorem isPairing : IsPairing (Moved forest forest') where
  name hd := by rw [hd.message_eq]
  nested := by
    rintro d d' ⟨file, i, j, rest, hi, hj, hposition, hposition', hmessage⟩
    rw [Declaration.nested, Declaration.nested, hposition, hposition', hmessage]
    exact forall₂_moved hi hj rest _
  unique := by
    refine ⟨fun d d' e hd hd' => h.eq_of_moved hd hd', fun d e e' he he' => ?_⟩
    exact h.symm.eq_of_moved he.symm he'.symm

/-! ## What is registered

`Registry.Holds` tells what a registry has by the list of what was registered. It is enough to look
at this list in both orders.
-/

/-- A package of the first row is one of the second. -/
theorem isPackage {way : List String} (hway : IsPackage (forestMessages forest) way) :
    IsPackage (forestMessages forest') way := by
  refine hway.imp_right ?_
  rintro ⟨m, hm, hprefix⟩
  rw [forestMessages_eq, List.mem_flatMap] at hm
  obtain ⟨⟨file, i⟩, hfile, hm⟩ := hm
  obtain ⟨j, hj⟩ := h.exists_index (List.mem_zipIdx_iff_getElem?.mp hfile)
  have hentries := forall₂_entries hj (List.mem_zipIdx_iff_getElem?.mp hfile)
  obtain ⟨m', hm', hpackage, -⟩ := exists_left_of_mem hentries hm
  refine ⟨m', ?_, hpackage ▸ hprefix⟩
  exact List.mem_flatMap.mpr ⟨(file, j), List.mem_zipIdx_iff_getElem?.mpr hj, hm'⟩

/-- The last message of a full name is the last one in the file that declares it. -/
theorem findRev?_forestMessages_iff {way : List String} {name : String}
    {m : String × Declaration} :
    ((forestMessages forest).findRev? fun m => segments m.1 = way ∧ m.2.message.name = name) =
        some m ↔
      ∃ (file : File) (i : Nat), forest[i]? = some file ∧
        ((file.entries i).findRev? fun m => segments m.1 = way ∧ m.2.message.name = name) =
          some m := by
  have hdeclares : ∀ (file : File) (i : Nat) (m : String × Declaration),
      ((file.entries i).findRev? fun m => segments m.1 = way ∧ m.2.message.name = name) = some m →
        segments file.package = way ∧ name ∈ file.messages.map (·.name) := by
    intro file i m hm
    obtain ⟨hmem, hfound⟩ := mem_of_findRev? hm
    obtain ⟨d, hd, rfl⟩ := List.mem_map.mp hmem
    simp only [decide_eq_true_eq] at hfound
    refine ⟨hfound.1, hfound.2 ▸ List.mem_map_of_mem ?_⟩
    rw [← map_message_declarationsAt [i] file.messages]
    exact List.mem_map_of_mem hd
  rw [forestMessages_eq, findRev?_flatMap, findSome?_eq_some_iff_of_unique]
  · simp only [List.mem_reverse, Prod.exists, List.mem_zipIdx_iff_getElem?]
  · rintro ⟨a, i⟩ hi ⟨b, j⟩ hj m m' hm hm'
    rw [List.mem_reverse, List.mem_zipIdx_iff_getElem?] at hi hj
    obtain ⟨hpackage, hname⟩ := hdeclares a i m hm
    obtain ⟨hpackage', hname'⟩ := hdeclares b j m' hm'
    -- two files that both declare the full name are one file
    obtain rfl : a = b := by
      by_contra hne
      exact h.apart a (List.mem_of_getElem? hi) b (List.mem_of_getElem? hj) hne
        (hpackage.trans hpackage'.symm) hname hname'
    exact congrArg (Prod.mk a) (h.index_unique hi hj)

/-- The last message of a full name is the same one, moved with its file. -/
theorem exists_found {way : List String} {name : String} {m : String × Declaration}
    (hm : ((forestMessages forest).findRev?
      fun m => segments m.1 = way ∧ m.2.message.name = name) = some m) :
    ∃ m', ((forestMessages forest').findRev?
      fun m => segments m.1 = way ∧ m.2.message.name = name) = some m' ∧
      Moved forest forest' m.2 m'.2 := by
  obtain ⟨file, i, hi, hm⟩ := h.findRev?_forestMessages_iff.mp hm
  obtain ⟨j, hj⟩ := h.exists_index hi
  have hfound := rel_findRev? (forall₂_entries hi hj)
    (p := fun m => segments m.1 = way ∧ m.2.message.name = name)
    (q := fun m => segments m.1 = way ∧ m.2.message.name = name)
    fun a b hab => by rw [hab.1, h.isPairing.name hab.2]
  rcases optionRel_cases hfound with ⟨hnone, -⟩ | ⟨n, m', hn, hm', -, hmoved⟩
  · rw [hm] at hnone
    cases hnone
  · obtain rfl := Option.some.inj (hm.symm.trans hn)
    exact ⟨m', h.symm.findRev?_forestMessages_iff.mpr ⟨file, j, hj, hm'⟩, hmoved⟩

/-- **The registries** of the two orders cannot be told apart. Their packages are those that the
files name, and the types are the last messages of their full names, and neither depends on the
order here. -/
theorem simulates {r r' : Registry} (hr : r.Holds (forestMessages forest))
    (hr' : r'.Holds (forestMessages forest')) : r.Simulates (Moved forest forest') r' where
  pairing := h.isPairing
  tree := hr.tree
  tree' := hr'.tree
  packages way := by
    rw [hr.packages, hr'.packages]
    exact ⟨h.isPackage, h.symm.isPackage⟩
  types id id' hid name := by
    rw [(hr.offers id hid.lt).type?_eq, (hr'.offers id' hid.lt').type?_eq, ← hid.path_eq]
    refine optionRel_of_exists (fun d hd => ?_) fun d' hd' => ?_
    · obtain ⟨m, hm, rfl⟩ := Option.map_eq_some_iff.mp hd
      obtain ⟨m', hm', hmoved⟩ := h.exists_found hm
      exact ⟨m'.2, Option.map_eq_some_iff.mpr ⟨m', hm', rfl⟩, hmoved⟩
    · obtain ⟨m', hm', rfl⟩ := Option.map_eq_some_iff.mp hd'
      obtain ⟨m, hm, hmoved⟩ := h.symm.exists_found hm'
      exact ⟨m.2, Option.map_eq_some_iff.mpr ⟨m, hm, rfl⟩, hmoved.symm⟩

end SameFiles

end

/-! ## Sessions

From here on the two registries are used through the simulation only.
-/

namespace Session

/-- Where no two files have one name, a target is the file of its name. -/
theorem file?_eq_some_iff {s : Session} (hnames : (s.forest.map (·.name)).Nodup) {target : String}
    {file : File} {i : Nat} :
    s.file? target = some (file, i) ↔ s.forest[i]? = some file ∧ file.name = target := by
  refine ⟨fun h => ?_, ?_⟩
  · obtain ⟨hmem, hname⟩ := mem_of_file? h
    exact ⟨List.mem_zipIdx_iff_getElem?.mp hmem, hname⟩
  · rintro ⟨hi, rfl⟩
    have hnodup : (s.forest.zipIdx.reverse.map (·.1.name)).Nodup := by
      rw [← List.zipIdx_map_fst 0 s.forest, List.map_map] at hnames
      rw [List.map_reverse, List.nodup_reverse]
      exact hnames
    have hmem : (file, i) ∈ s.forest.zipIdx := List.mem_zipIdx_iff_getElem?.mpr hi
    exact find?_of_mem hnodup (List.mem_reverse.mpr hmem)

/-- A target is the same file, moved. -/
theorem rel_file? {forest forest' : List File} (h : SameFiles forest forest')
    (hnames : (forest.map (·.name)).Nodup) (hnames' : (forest'.map (·.name)).Nodup) (p : Policy)
    (target : String) :
    Option.Rel (fun x y => x.1 = y.1 ∧ forest[x.2]? = some x.1 ∧ forest'[y.2]? = some y.1)
      ((⟨forest, p⟩ : Session).file? target) ((⟨forest', p⟩ : Session).file? target) := by
  refine optionRel_of_exists ?_ ?_
  · rintro ⟨file, i⟩ hfile
    obtain ⟨hi, hname⟩ := (file?_eq_some_iff hnames).mp hfile
    obtain ⟨j, hj⟩ := h.exists_index hi
    exact ⟨(file, j), (file?_eq_some_iff hnames').mpr ⟨hj, hname⟩, rfl, hi, hj⟩
  · rintro ⟨file, j⟩ hfile
    obtain ⟨hj, hname⟩ := (file?_eq_some_iff hnames').mp hfile
    obtain ⟨i, hi⟩ := h.symm.exists_index hj
    exact ⟨(file, i), (file?_eq_some_iff hnames).mpr ⟨hi, hname⟩, rfl, hi, hj⟩

/-- A target comes to the same documents in both orders. -/
theorem result_documentsOf_eq {forest forest' : List File} (h : SameFiles forest forest')
    (hnames : (forest.map (·.name)).Nodup) (hnames' : (forest'.map (·.name)).Nodup)
    (henums : forest.flatMap (·.enums) = forest'.flatMap (·.enums)) (p : Policy)
    (target : String) :
    ((⟨forest, p⟩ : Session).documentsOf (⟨forest, p⟩ : Session).registry target).result =
      ((⟨forest', p⟩ : Session).documentsOf (⟨forest', p⟩ : Session).registry target).result := by
  have hsimulates := h.simulates (Registry.holds_registerAll (forestMessages forest))
    (Registry.holds_registerAll (forestMessages forest'))
  have hvisible : (⟨forest, p⟩ : Session).enums = (⟨forest', p⟩ : Session).enums := henums
  rw [documentsOf, documentsOf, hvisible]
  rcases optionRel_cases (rel_file? h hnames hnames' p target) with
    ⟨hx, hy⟩ | ⟨⟨file, i⟩, ⟨file', j⟩, hx, hy, rfl, hi, hj⟩
  · rw [hx, hy]
  · simp only [hx, hy, Logged.result_mapError, File.result_documents]
    exact congrArg _ (hsimulates.result_typeDocuments p file Moved.message_eq
      (forall₂_moved hi hj [] file.messages) _)

/-- **The order of the files** has no part in what a session comes to: when files of different names
change places, no two of them declare a message under one full name, and the enums stay in order,
the documents are the same, or the failure is. -/
theorem generate_perm {forest forest' : List File} (hperm : forest.Perm forest')
    (hnames : (forest.map (·.name)).Nodup)
    (hmessages : forest.Pairwise File.Apart)
    (henums : forest.flatMap (·.enums) = forest'.flatMap (·.enums)) (p : Policy)
    (targets : List String) :
    ((⟨forest, p⟩ : Session).generate targets).result =
      ((⟨forest', p⟩ : Session).generate targets).result := by
  have hnames' : (forest'.map (·.name)).Nodup := (hperm.map _).nodup_iff.mp hnames
  have hsame : SameFiles forest forest' :=
    ⟨fun _ => hperm.mem_iff, hnames.of_map, hnames'.of_map, fun _ ha _ hb =>
      hmessages.forall ha hb⟩
  rw [result_generate, result_generate]
  simp only [result_documentsOf_eq hsame hnames hnames' henums p]

namespace Letters

/-- A file with a letter, which holds an address of another file. -/
def letters : File :=
  { name := "letters.proto"
    package := "post"
    messages :=
      [{ name := "Letter"
         fields := [{ name := "to", typeNumber := 11, typeName := "people.Address" }] }] }

/-- The file with the address. -/
def addresses : File :=
  { name := "addresses.proto"
    package := "post.people"
    messages := [{ name := "Address", fields := [{ name := "town", typeNumber := 9 }] }] }

end Letters

/-- The letter comes to the same document, whether the addresses stand behind or in front. -/
theorem generate_perm_letters : ∃ p, ({} : Options).resolve = .ok p ∧
    ((⟨[Letters.letters, Letters.addresses], p⟩ : Session).generate
      ["letters.proto"]).result.toOption.isSome ∧
    ((⟨[Letters.letters, Letters.addresses], p⟩ : Session).generate ["letters.proto"]).result =
      ((⟨[Letters.addresses, Letters.letters], p⟩ : Session).generate
        ["letters.proto"]).result := by
  obtain ⟨p, hp⟩ : ∃ p, ({} : Options).resolve = .ok p := ⟨_, rfl⟩
  refine ⟨p, hp, ?_, ?_⟩
  · obtain rfl := Except.ok.inj hp
    with_unfolding_all rfl
  · have hapart : [Letters.letters, Letters.addresses].Pairwise File.Apart := by
      refine .cons (fun b hb hpackage => ?_) (List.pairwise_singleton _ _)
      obtain rfl := List.mem_singleton.mp hb
      exact absurd hpackage (by decide +kernel)
    exact generate_perm (.swap Letters.addresses Letters.letters []) (by decide) hapart rfl p _

end Session

end ProtoSchema
