import Mathlib.Data.List.Perm.Basic
import ProtoSchema.Proofs.Simulation

/-!
# The order of the fields

The properties of a message stand in the order of their names, so that the order in which its fields
are declared should not show. This module proves it for all that a session makes: when the fields of
any messages of the files are declared in another order, at whatever depth, the session comes to the
same documents (`Session.generate_reordered`). No two fields of a message may have one JSON name,
since of two such fields the later wins.

Failures are not the same: a message fails as the first of its fields that fails, and another field
may come first in the new order. What is carried through the run is therefore that each part comes
to a result in the one order when it comes to that result in the other.

The proof has three layers. A table of different names does not depend on the order in which its
entries are put in (`sortedTable_perm`). The two registries hold the same messages under the same
names, with fields in two orders; they are compared by the general simulation, whose pairs are the
messages at one place of the files (`Declaration.Reordered`). With both, each message comes to the
same schema (`Registry.Simulates.messageSchema_eq_ok_congr`), by induction on the conversion, and
the rest follows part by part.
-/

namespace ProtoSchema

/-! ## Tables -/

/-- Entries under two names may be inserted in either order. -/
theorem insertSorted_comm {α : Type} {m n : String} (hne : m ≠ n) (a b : α)
    (t : List (String × α)) :
    insertSorted m a (insertSorted n b t) = insertSorted n b (insertSorted m a t) := by
  wlog hlt : m < n generalizing m n a b
  · have hgt : n < m := (Std.lt_trichotomy m n).elim (absurd · hlt) (·.resolve_left hne)
    exact (this hne.symm b a hgt).symm
  have hnot : ¬ n < m := String.lt_asymm hlt
  induction t with
  | nil => simp [insertSorted, hne, hne.symm, hlt, hnot]
  | cons head rest ih =>
    obtain ⟨k, e⟩ := head
    -- the place of each name among the rest is found by comparing it with `k`
    rcases Std.lt_trichotomy k m with hkm | rfl | hkm
    · have hkn := String.lt_trans hkm hlt
      simp [insertSorted, Std.ne_of_lt hkm, Std.ne_of_lt hkn, String.lt_asymm hkm,
        String.lt_asymm hkn, ih]
    · simp [insertSorted, hne, hnot]
    · have hmk := Std.ne_of_lt hkm
      rcases Std.lt_trichotomy k n with hkn | rfl | hkn
      · simp [insertSorted, hkm, hmk.symm, Std.ne_of_lt hkn, String.lt_asymm hkn, hne, hnot]
      · simp [insertSorted, hne, hne.symm, hlt, hnot]
      · simp [insertSorted, hkm, hmk.symm, hkn, (Std.ne_of_lt hkn).symm, hne, hne.symm, hlt, hnot]

/-- A table of entries with different names does not depend on their order. -/
theorem sortedTable_perm {α : Type} {entries entries' : List (String × α)}
    (h : entries.Perm entries') (hnames : (entries.map (·.1)).Nodup) :
    sortedTable entries = sortedTable entries' := by
  refine h.foldl_eq' ?_ []
  rintro ⟨m, a⟩ hm ⟨n, b⟩ hn t
  by_cases hmn : m = n
  · obtain ⟨rfl, rfl⟩ := Prod.mk.inj (List.inj_on_of_nodup_map hnames hm hn hmn)
    rfl
  · exact insertSorted_comm (Ne.symm hmn) b a t

/-- What is put into a table for each of a row can be put into it in another order. -/
theorem exists_sortedTable_eq {α β : Type} (key : α → String) {R : α → String × β → Prop}
    (hkey : ∀ a e, R a e → e.1 = key a) {xs ys : List α} (hperm : xs.Perm ys)
    (hkeys : (xs.map key).Nodup) {entries : List (String × β)} (h : List.Forall₂ R xs entries) :
    ∃ entries', List.Forall₂ R ys entries' ∧ sortedTable entries = sortedTable entries' := by
  obtain ⟨entries', h', hperm'⟩ := List.perm_comp_forall₂ hperm.symm h
  have hnames : List.Forall₂ Eq (xs.map key) (entries.map (·.1)) := by
    rw [List.forall₂_map_left_iff, List.forall₂_map_right_iff]
    exact h.imp fun a e hae => (hkey a e hae).symm
  rw [List.forall₂_eq_eq_eq] at hnames
  exact ⟨entries', h', sortedTable_perm hperm'.symm (hnames ▸ hkeys)⟩

/-- So what is said of the table is said of it in either order. -/
theorem exists_sortedTable_congr {α β : Type} (key : α → String) {R : α → String × β → Prop}
    (hkey : ∀ a e, R a e → e.1 = key a) {xs ys : List α} (hperm : xs.Perm ys)
    (hkeys : (xs.map key).Nodup) (P : List (String × β) → Prop) :
    (∃ entries, List.Forall₂ R xs entries ∧ P (sortedTable entries)) ↔
      ∃ entries, List.Forall₂ R ys entries ∧ P (sortedTable entries) := by
  have hkeys' : (ys.map key).Nodup := (hperm.map key).nodup_iff.mp hkeys
  constructor
  · rintro ⟨entries, hentries, h⟩
    obtain ⟨entries', hentries', htable⟩ := exists_sortedTable_eq key hkey hperm hkeys hentries
    exact ⟨entries', hentries', htable ▸ h⟩
  · rintro ⟨entries, hentries, h⟩
    obtain ⟨entries', hentries', htable⟩ :=
      exists_sortedTable_eq key hkey hperm.symm hkeys' hentries
    exact ⟨entries', hentries', htable ▸ h⟩

/-! ## Messages and files in two orders

The order of the messages stays, both in a file and inside a message. It would show, as the
documents come in this order and the place of a message is told by it.
-/

/-- The messages differ in the order of their fields, and so do the messages inside them. -/
inductive Message.Reordered : Message → Message → Prop where
  /-- the same name and enums, the fields in some order, and inside the same again -/
  | mk {name : String} {enums : List EnumType} {fields fields' : List Field}
    {nested nested' : List Message} (hfields : fields.Perm fields')
    (hnested : List.Forall₂ Message.Reordered nested nested') :
    Message.Reordered ⟨name, fields, nested, enums⟩ ⟨name, fields', nested', enums⟩

/-- The files differ in the order of the fields of their messages. -/
structure File.Reordered (file file' : File) : Prop where
  /-- the name is the same -/
  name_eq : file.name = file'.name
  /-- the package is the same -/
  package_eq : file.package = file'.package
  /-- the messages differ in the order of their fields -/
  messages : List.Forall₂ Message.Reordered file.messages file'.messages
  /-- the enums are the same -/
  enums_eq : file.enums = file'.enums

/-- In the message and in all messages inside it, no two fields have one JSON name. -/
inductive Message.DistinctNames : Message → Prop where
  /-- the fields have different names, and inside it is so too -/
  | mk {m : Message} (hfields : (m.fields.map (·.propertyName)).Nodup)
    (hnested : ∀ n ∈ m.nested, n.DistinctNames) : m.DistinctNames

theorem Message.Reordered.name_eq {m m' : Message} (h : m.Reordered m') : m.name = m'.name := by
  cases h
  rfl

theorem Message.Reordered.enums_eq {m m' : Message} (h : m.Reordered m') :
    m.enums = m'.enums := by
  cases h
  rfl

theorem Message.Reordered.fields_perm {m m' : Message} (h : m.Reordered m') :
    m.fields.Perm m'.fields := by
  cases h with
  | mk hfields _ => exact hfields

theorem Message.Reordered.nested {m m' : Message} (h : m.Reordered m') :
    List.Forall₂ Message.Reordered m.nested m'.nested := by
  cases h with
  | mk _ hnested => exact hnested

/-! ## Places

A declaration tells its place in the files. What stands there is looked up again, in both rows of
files, so that a declaration can be paired with only one.
-/

/-- The message inside the message at the place. -/
def Message.at? : Message → Position → Option Message
  | m, [] => some m
  | m, i :: rest => m.nested[i]?.bind fun n => n.at? rest

/-- The message of the files at the place. -/
def messageAt (forest : List File) : Position → Option Message
  | i :: j :: rest =>
    (forest[i]?.bind fun file => file.messages[j]?).bind fun m => m.at? rest
  | _ => none

/-- One more step leads to a message inside the one at the place. -/
theorem Message.at?_concat (m : Message) (place : Position) (i : Nat) :
    m.at? (place ++ [i]) = (m.at? place).bind fun n => n.nested[i]? := by
  induction place generalizing m with
  | nil => cases h : m.nested[i]? <;> simp [at?, h]
  | cons j rest ih => simp only [List.cons_append, at?, Option.bind_assoc, ih]

theorem messageAt_concat {forest : List File} {place : Position} {m : Message}
    (h : messageAt forest place = some m) (i : Nat) :
    messageAt forest (place ++ [i]) = m.nested[i]? := by
  match place, h with
  | j :: k :: rest, h =>
    rw [messageAt] at h
    rw [List.cons_append, List.cons_append, messageAt]
    simp only [Message.at?_concat, ← Option.bind_assoc, h, Option.bind_some]

/-- The declarations of one place in the files of the one order and in those of the other. -/
structure Declaration.Reordered (forest forest' : List File) (d d' : Declaration) : Prop where
  /-- they stand at the same place -/
  position_eq : d.position = d'.position
  /-- the first is the message of the first files at the place -/
  mem : messageAt forest d.position = some d.message
  /-- the second is the message of the second files at the place -/
  mem' : messageAt forest' d'.position = some d'.message
  /-- they differ in the order of their fields -/
  reordered : d.message.Reordered d'.message
  /-- no two fields of a message have one JSON name -/
  distinct : d.message.DistinctNames

section

variable {forest forest' : List File}

/-- Messages at successive places are declared in the same order. -/
theorem forall₂_declarationsAt {position : Position} {messages messages' : List Message}
    (h : List.Forall₂ Message.Reordered messages messages')
    (hdistinct : ∀ m ∈ messages, m.DistinctNames)
    (hmem : ∀ i, messageAt forest (position ++ [i]) = messages[i]?)
    (hmem' : ∀ i, messageAt forest' (position ++ [i]) = messages'[i]?) :
    List.Forall₂ (Declaration.Reordered forest forest') (declarationsAt position messages)
      (declarationsAt position messages') := by
  rw [List.forall₂_iff_get]
  refine ⟨by simp [declarationsAt, h.length_eq], fun i hi hi' => ?_⟩
  simp only [declarationsAt, List.length_map, List.length_zipIdx] at hi hi'
  have hreordered := (List.forall₂_iff_get.mp h).2 i hi hi'
  simp only [List.get_eq_getElem] at hreordered
  simp only [declarationsAt, List.get_eq_getElem, List.getElem_map, List.getElem_zipIdx,
    Nat.zero_add]
  exact ⟨rfl, (hmem i).trans (List.getElem?_eq_getElem hi),
    (hmem' i).trans (List.getElem?_eq_getElem hi'), hreordered,
    hdistinct _ (List.getElem_mem hi)⟩

/-- One place has one message in files of one order. -/
theorem eq_of_messageAt {d e : Declaration} (hposition : d.position = e.position)
    (hd : messageAt forest d.position = some d.message)
    (he : messageAt forest e.position = some e.message) : d = e := by
  obtain ⟨position, message⟩ := d
  obtain ⟨position', message'⟩ := e
  obtain rfl : position = position' := hposition
  exact congrArg (Declaration.mk position) (Option.some.inj (hd.symm.trans he))

/-- At one place stands one message, so that no message is paired with two. -/
theorem isPairing_reordered : IsPairing (Declaration.Reordered forest forest') where
  name h := h.reordered.name_eq
  nested {d d'} h := by
    have hmem' := messageAt_concat h.mem'
    rw [← h.position_eq] at hmem'
    rw [Declaration.nested, Declaration.nested, ← h.position_eq]
    cases h.distinct with
    | mk _ hnested =>
      exact forall₂_declarationsAt h.reordered.nested hnested (messageAt_concat h.mem) hmem'
  unique := by
    refine ⟨fun d e d' hd he => ?_, fun d d' e' hd he => ?_⟩
    · exact eq_of_messageAt (hd.position_eq.trans he.position_eq.symm) hd.mem he.mem
    · exact eq_of_messageAt (hd.position_eq.symm.trans he.position_eq) hd.mem' he.mem'

/-- A file and its place in the row, in the one order of the fields and in the other. -/
structure SamePlace (forest forest' : List File) (x y : File × Nat) : Prop where
  /-- the place is the same -/
  index_eq : x.2 = y.2
  /-- the first file stands there in the first row -/
  mem : forest[x.2]? = some x.1
  /-- the second file stands there in the second row -/
  mem' : forest'[y.2]? = some y.1
  /-- they differ in the order of the fields -/
  reordered : x.1.Reordered y.1

theorem messageAt_top {file : File} {i : Nat} (hi : forest[i]? = some file) (j : Nat) :
    messageAt forest ([i] ++ [j]) = file.messages[j]? := by
  rw [List.cons_append, List.nil_append, messageAt, hi, Option.bind_some]
  exact Option.bind_fun_some _

/-- Files are paired with those at their places. -/
theorem forall₂_samePlace (h : List.Forall₂ File.Reordered forest forest') :
    List.Forall₂ (SamePlace forest forest') forest.zipIdx forest'.zipIdx := by
  rw [List.forall₂_iff_get]
  refine ⟨by simp [h.length_eq], fun i hi hi' => ?_⟩
  rw [List.length_zipIdx] at hi hi'
  have hreordered := (List.forall₂_iff_get.mp h).2 i hi hi'
  simp only [List.get_eq_getElem] at hreordered
  simp only [List.get_eq_getElem, List.getElem_zipIdx, Nat.zero_add]
  exact ⟨rfl, List.getElem?_eq_getElem hi, List.getElem?_eq_getElem hi', hreordered⟩

variable (hdistinct : ∀ file ∈ forest, ∀ m ∈ file.messages, m.DistinctNames)
include hdistinct

/-- The messages of a file are declared in the same order. -/
theorem SamePlace.declarations {x y : File × Nat} (h : SamePlace forest forest' x y) :
    List.Forall₂ (Declaration.Reordered forest forest') (x.1.declarations [x.2])
      (y.1.declarations [y.2]) := by
  have htop' := messageAt_top h.mem'
  rw [← h.index_eq] at htop'
  rw [File.declarations, File.declarations, ← h.index_eq]
  exact forall₂_declarationsAt h.reordered.messages (hdistinct _ (List.mem_of_getElem? h.mem))
    (messageAt_top h.mem) htop'

/-- The messages of all files are registered in the same order, under the same packages. -/
theorem forall₂_forestMessages (h : List.Forall₂ File.Reordered forest forest') :
    List.Forall₂ (fun m m' => m.1 = m'.1 ∧ Declaration.Reordered forest forest' m.2 m'.2)
      (forestMessages forest) (forestMessages forest') := by
  refine List.rel_flatMap (forall₂_samePlace h) fun x y hxy => ?_
  rw [List.forall₂_map_left_iff, List.forall₂_map_right_iff]
  exact (hxy.declarations hdistinct).imp fun d d' hd => ⟨hxy.reordered.package_eq, hd⟩

end

/-! ## Conversions

What the fields become is a row of entries, one for each field. In the other order it is the same
row in another order, and the table does not tell.
-/

/-- Two runs over related rows that come to the same results step by step come to the same
results. -/
theorem mapM_eq_ok_congr {α β γ ε : Type} {R : α → β → Prop} {xs : List α} {ys : List β}
    (h : List.Forall₂ R xs ys) {f : α → Except ε γ} {g : β → Except ε γ}
    (hfg : ∀ a b, R a b → ∀ c, f a = .ok c ↔ g b = .ok c) (cs : List γ) :
    xs.mapM f = .ok cs ↔ ys.mapM g = .ok cs := by
  induction h generalizing cs with
  | nil => rfl
  | cons hab _ ih => simp only [List.mapM_cons, bind_eq_ok_iff, hfg _ _ hab, ih]

/-- A message is the table of what its fields become. -/
theorem Conversion.messageSchema_eq_ok_iff_entries {c : Conversion} {path : List Declaration}
    {scope : List EnumType} {d : Declaration} {s : Schema} :
    (c.messageSchema path scope d).result = .ok s ↔
      ∃ entries, List.Forall₂ (fun (f : Field) (e : String × Schema) =>
          ∃ t, (c.fieldSchema (d :: path) scope f).result = .ok t ∧ e = (f.propertyName, t))
          d.message.fields entries ∧
        s = c.policy.messageSchema (sortedTable entries) := by
  have hresult : (c.messageSchema path scope d).result =
      (fun entries => c.policy.messageSchema (sortedTable entries)) <$>
        d.message.fields.mapM fun f =>
          (fun t => (f.propertyName, t)) <$> (c.fieldSchema (d :: path) scope f).result := by
    rw [result_messageSchema, mapM_map_eq (fun (f : Field) (t : Schema) => (f.propertyName, t)),
      Functor.map_map]
    rfl
  rw [hresult, map_eq_ok_iff]
  simp only [mapM_eq_ok_iff, map_eq_ok_iff]

namespace Registry.Simulates

variable {forest forest' : List File} {r r' : Registry}
  (h : r.Simulates (Declaration.Reordered forest forest') r') (p : Policy)
include h

/-- **Messages** whose fields are reordered, inside messages whose fields are, come to the same.
Each field comes to the same in both conversions, by the induction where it embeds a message; then
two tables of the same entries are left, which stand in different orders. -/
theorem messageSchema_eq_ok_congr {id id' : PackageId} (hid : r.Alike r' id id')
    {path path' : List Declaration}
    (hpath : List.Forall₂ (Declaration.Reordered forest forest') path path')
    (scope : List EnumType) {d d' : Declaration} (hd : d.Reordered forest forest' d') (s : Schema) :
    ((⟨r, id, p⟩ : Conversion).messageSchema path scope d).result = .ok s ↔
      ((⟨r', id', p⟩ : Conversion).messageSchema path' scope d').result = .ok s := by
  refine (⟨r, id, p⟩ : Conversion).induction (motive := fun path d => ∀ path' d' scope s,
    List.Forall₂ (Declaration.Reordered forest forest') path path' → d.Reordered forest forest' d' →
      (((⟨r, id, p⟩ : Conversion).messageSchema path scope d).result = .ok s ↔
        ((⟨r', id', p⟩ : Conversion).messageSchema path' scope d').result = .ok s)) ?_
    path d path' d' scope s hpath hd
  intro path d ih path' d' scope s hpath hd
  -- a field comes to the same on both sides, wherever it stands among the others
  have hfields : ∀ f t, ((⟨r, id, p⟩ : Conversion).fieldSchema (d :: path) scope f).result = .ok t ↔
      ((⟨r', id', p⟩ : Conversion).fieldSchema (d' :: path') scope f).result = .ok t := by
    intro f t
    have hpath' : List.Forall₂ (Declaration.Reordered forest forest') (d :: path) (d' :: path') :=
      .cons hd hpath
    rcases h.fieldSchema_cases hid p hpath' scope f with
      heq | ⟨target, target', hf, hmem, hf', hmem', ht⟩
    · rw [heq]
    · have hscope : target.message.scopeWithin scope = target'.message.scopeWithin scope := by
        rw [Message.scopeWithin, Message.scopeWithin, ht.reordered.enums_eq]
      rw [Conversion.result_fieldSchema_of_embeds hf hmem,
        Conversion.result_fieldSchema_of_embeds hf' hmem', map_eq_ok_iff, map_eq_ok_iff, ← hscope]
      exact exists_congr fun a => and_congr_left' (ih f target hf hmem _ target' _ a hpath' ht)
  obtain ⟨hnames, -⟩ := hd.distinct
  -- only the order of the entries is left, and no two have one name
  simp only [Conversion.messageSchema_eq_ok_iff_entries, hfields]
  refine exists_sortedTable_congr Field.propertyName ?_ hd.reordered.fields_perm hnames
    (s = p.messageSchema ·)
  rintro f e ⟨t, -, rfl⟩
  rfl

/-- **The types of a file** whose fields are reordered come to the same documents. -/
theorem typeDocuments_eq_ok_congr {file file' : File} (hpackage : file.package = file'.package)
    {messages messages' : List Declaration}
    (hmessages : List.Forall₂ (Declaration.Reordered forest forest') messages messages')
    (visible : List EnumType) (documents : List Document) :
    (typeDocuments r p file messages visible).result = .ok documents ↔
      (typeDocuments r' p file' messages' visible).result = .ok documents := by
  rcases hmessages with _ | @⟨d, d', ds, ds', hd, hds⟩
  · rw [result_typeDocuments_nil, result_typeDocuments_nil]
  · rw [result_typeDocuments_of_ne_nil _ _ _ (List.cons_ne_nil d ds),
      result_typeDocuments_of_ne_nil _ _ _ (List.cons_ne_nil d' ds'), ← hpackage]
    rcases (h.lookupPackage file.package).cases with ⟨e, hx, hy⟩ | ⟨id, id', hx, hy, hid⟩
    · rw [hx, hy]
      rfl
    · rw [hx, hy]
      change (d :: ds).mapM (fun d => (messageDocument ⟨r, id, p⟩ file visible d).result) = _ ↔
        (d' :: ds').mapM (fun d => (messageDocument ⟨r', id', p⟩ file' visible d).result) = _
      refine mapM_eq_ok_congr (.cons hd hds) (fun d d' hd document => ?_) documents
      have hvisible : d.message.outerScope visible = d'.message.outerScope visible := by
        rw [Message.outerScope, Message.outerScope, hd.reordered.enums_eq]
      rw [result_messageDocument, result_messageDocument, map_eq_ok_iff, map_eq_ok_iff,
        hd.reordered.name_eq, Conversion.message, Conversion.message, ← hvisible]
      exact exists_congr fun t => and_congr_left'
        (h.messageSchema_eq_ok_congr p hid .nil _ hd t)

end Registry.Simulates

/-! ## Sessions -/

namespace Session

section

variable {forest forest' : List File} (h : List.Forall₂ File.Reordered forest forest')
include h

/-- The enums that are visible everywhere are the same. -/
theorem enums_eq_of_reordered (p : Policy) :
    (⟨forest, p⟩ : Session).enums = (⟨forest', p⟩ : Session).enums := by
  have henums : List.Forall₂ Eq (forest.map (·.enums)) (forest'.map (·.enums)) := by
    rw [List.forall₂_map_left_iff, List.forall₂_map_right_iff]
    exact h.imp fun file file' hfile => hfile.enums_eq
  rw [List.forall₂_eq_eq_eq] at henums
  rw [enums, enums, List.flatMap_def, List.flatMap_def, henums]

/-- A target is a file at one place. -/
theorem rel_file?_samePlace (p : Policy) (target : String) :
    Option.Rel (SamePlace forest forest') ((⟨forest, p⟩ : Session).file? target)
      ((⟨forest', p⟩ : Session).file? target) := by
  refine rel_find? (List.forall₂_reverse_iff.mpr (forall₂_samePlace h)) fun x y hxy => ?_
  rw [hxy.reordered.name_eq]

/-- A target comes to the same documents. -/
theorem documentsOf_eq_ok_congr
    (hdistinct : ∀ file ∈ forest, ∀ m ∈ file.messages, m.DistinctNames) (p : Policy)
    (target : String) (documents : List Document) :
    ((⟨forest, p⟩ : Session).documentsOf (⟨forest, p⟩ : Session).registry target).result =
        .ok documents ↔
      ((⟨forest', p⟩ : Session).documentsOf (⟨forest', p⟩ : Session).registry target).result =
        .ok documents := by
  have hsimulates := Registry.Holds.simulates isPairing_reordered
    (forall₂_forestMessages hdistinct h) (Registry.holds_registerAll (forestMessages forest))
    (Registry.holds_registerAll (forestMessages forest'))
  rw [documentsOf, documentsOf, ← enums_eq_of_reordered h]
  rcases optionRel_cases (rel_file?_samePlace h p target) with
    ⟨hx, hy⟩ | ⟨⟨file, i⟩, ⟨file', j⟩, hx, hy, hfile⟩
  · rw [hx, hy]
  · simp only [hx, hy, Logged.result_mapError, File.result_documents, mapError_eq_ok_iff]
    exact hsimulates.typeDocuments_eq_ok_congr p hfile.reordered.package_eq
      (hfile.declarations hdistinct) _ documents

end

/-- **The order of the fields** does not show. When the fields of messages are declared in another
order, at any depth of the files, a session comes to documents exactly when it came to documents
before, and they are the same ones. -/
theorem generate_reordered {forest forest' : List File}
    (hreordered : List.Forall₂ File.Reordered forest forest')
    (hdistinct : ∀ file ∈ forest, ∀ m ∈ file.messages, m.DistinctNames) (p : Policy)
    (targets : List String) (documents : List Document) :
    ((⟨forest, p⟩ : Session).generate targets).result = .ok documents ↔
      ((⟨forest', p⟩ : Session).generate targets).result = .ok documents := by
  simp only [result_generate, map_eq_ok_iff, mapM_eq_ok_iff,
    documentsOf_eq_ok_congr hreordered hdistinct]

namespace Parcels

/-- A number. -/
def weight : Field := { name := "weight", typeNumber := 5 }

/-- A field that holds a person, inside the parcel. -/
def sender : Field := { name := "sender", typeNumber := 11, typeName := "Parcel.Person" }

/-- A text. -/
def name : Field := { name := "name", typeNumber := 9 }

/-- Another number. -/
def age : Field := { name := "age", typeNumber := 5 }

/-- A file with a parcel and, inside it, a person, each with its fields in some order. -/
def file (parcel person : List Field) : File :=
  { name := "parcels.proto"
    package := "post"
    messages :=
      [{ name := "Parcel", fields := parcel, nested := [{ name := "Person", fields := person }] }] }

end Parcels

/-- The parcel comes to the same document when the fields change places in it and in the person. -/
theorem generate_reordered_parcels : ∃ p, ({} : Options).resolve = .ok p ∧
    ((⟨[Parcels.file [Parcels.weight, Parcels.sender] [Parcels.name, Parcels.age]], p⟩ :
      Session).generate ["parcels.proto"]).result.toOption.isSome ∧
    ∀ documents,
      ((⟨[Parcels.file [Parcels.weight, Parcels.sender] [Parcels.name, Parcels.age]], p⟩ :
          Session).generate ["parcels.proto"]).result = .ok documents ↔
        ((⟨[Parcels.file [Parcels.sender, Parcels.weight] [Parcels.age, Parcels.name]], p⟩ :
          Session).generate ["parcels.proto"]).result = .ok documents := by
  obtain ⟨p, hp⟩ : ∃ p, ({} : Options).resolve = .ok p := ⟨_, rfl⟩
  refine ⟨p, hp, ?_, fun documents => ?_⟩
  · obtain rfl := Except.ok.inj hp
    with_unfolding_all rfl
  · have hperson : List.Forall₂ Message.Reordered
        [{ name := "Person", fields := [Parcels.name, Parcels.age] }]
        [{ name := "Person", fields := [Parcels.age, Parcels.name] }] :=
      .cons (.mk (.swap _ _ _) .nil) .nil
    have hfile : File.Reordered
        (Parcels.file [Parcels.weight, Parcels.sender] [Parcels.name, Parcels.age])
        (Parcels.file [Parcels.sender, Parcels.weight] [Parcels.age, Parcels.name]) :=
      ⟨rfl, rfl, .cons (.mk (.swap _ _ _) hperson) .nil, rfl⟩
    refine generate_reordered (.cons hfile .nil) ?_ p _ documents
    intro file hfile m hm
    obtain rfl := List.mem_singleton.mp hfile
    obtain rfl := List.mem_singleton.mp hm
    refine .mk (by decide +kernel) fun n hn => ?_
    obtain rfl := List.mem_singleton.mp hn
    exact .mk (by decide +kernel) fun n hn => absurd hn List.not_mem_nil

end Session

end ProtoSchema
