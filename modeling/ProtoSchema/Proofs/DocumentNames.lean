import Mathlib.Data.List.Nodup
import Mathlib.Data.List.Pairwise
import ProtoSchema.Proofs.Runs

/-!
# Names of documents

A document is named for its type, so files that declare types of distinct names come to documents of
distinct names, with one exception: each requested file without messages comes to the documents of
all enums of the forest, so that a second such file repeats them. This is the only way in which a
name can occur twice, and it does no harm: documents of one name are one document
(`Session.generate_names`).

The first part is about lists of names. The names of all documents are those of the targets, one
target behind the other (`names_of_generate`), and such a list has no name twice when no part has
one twice and no two parts have one in common. The parts are known: each is the list of the messages
of a file or that of all enums (`Session.targetNames`).

The second part needs the documents themselves. Each has a source, an enum or a message
(`source_of_mem_generate`), the name tells the source, and the source tells the document, since a
message is converted from the package of its own file whichever target asked for it.
-/

namespace ProtoSchema

/-! ## Lists -/

theorem map_eq_map_of_forall₂ {α β γ : Type} {R : α → β → Prop} {f : α → γ} {g : β → γ}
    (hR : ∀ a b, R a b → g b = f a) {as : List α} {bs : List β} (h : List.Forall₂ R as bs) :
    bs.map g = as.map f := by
  induction h with
  | nil => rfl
  | cons hab _ ih => rw [List.map_cons, List.map_cons, hR _ _ hab, ih]

/-- In a list without repetition, pairs of equal elements need not be looked at. -/
theorem pairwise_iff_of_nodup {α : Type} {l : List α} {R S : α → α → Prop} (hl : l.Nodup)
    (h : ∀ a ∈ l, ∀ b ∈ l, a ≠ b → (R a b ↔ S a b)) : l.Pairwise R ↔ l.Pairwise S := by
  constructor
  · intro hR
    exact (hR.and hl).imp_of_mem fun {a b} ha hb hab => (h a ha b hb hab.2).mp hab.1
  · intro hS
    exact (hS.and hl).imp_of_mem fun {a b} ha hb hab => (h a ha b hb hab.2).mpr hab.1

theorem disjoint_self_iff {α : Type} {l : List α} : List.Disjoint l l ↔ l = [] := by
  simp only [List.disjoint_left, List.eq_nil_iff_forall_not_mem, imp_not_self]

/-- Something that does not depend on the pair holds of all pairs unless there are none. -/
theorem pairwise_const_iff {α : Type} {P : Prop} {l : List α} :
    l.Pairwise (fun _ _ => P) ↔ P ∨ l.length ≤ 1 := by
  match l with
  | [] => simp
  | [a] => simp
  | a :: b :: rest =>
    constructor
    · intro h
      exact Or.inl (List.rel_of_pairwise_cons h List.mem_cons_self)
    · rintro (hP | hlength)
      · exact List.pairwise_of_forall fun _ _ => hP
      · simp at hlength

/-! ## Names of types

The names of the types are taken from the files and not from the registry, where only messages are
registered.
-/

/-- The name of a document tells the name of its type: all names of documents end alike. -/
theorem documentName_injective : Function.Injective documentName := by
  intro a b h
  exact (String.append_left_inj _).mp h

/-- The top-level messages of the files are those of each file, file by file. -/
theorem map_message_forestMessages (forest : List File) :
    (forestMessages forest).map (·.2.message) = forest.flatMap (·.messages) := by
  rw [forestMessages, List.map_flatMap]
  have hfile : ∀ file : File, ∀ i, (((file.declarations [i]).map fun d => (file.package, d)).map
      (·.2.message)) = file.messages := by
    intro file i
    rw [List.map_map]
    exact map_message_declarationsAt [i] file.messages
  simp only [hfile]
  rw [← List.flatMap_map Prod.fst, List.zipIdx_map_fst]

namespace Session

/-- The names of the top-level types of the files, those of the messages first. -/
def typeNames (s : Session) : List String :=
  (s.forest.flatMap (·.messages)).map (·.name) ++ s.enums.map (·.name)

/-- Whether the file of that name has no messages, and is converted to the enums of all files. -/
def isEnumsOnly (s : Session) (target : String) : Bool :=
  (s.file? target).any fun found => found.1.messages.isEmpty

/-- The names of the types that the file of that name is converted to. -/
def targetNames (s : Session) (target : String) : List String :=
  if s.isEnumsOnly target then s.enums.map (·.name)
  else (s.file? target).elim [] fun found => found.1.messages.map (·.name)

section Targets

variable {s : Session} {target : String} {file : File} {i : Nat}

theorem isEnumsOnly_iff (h : s.file? target = some (file, i)) :
    s.isEnumsOnly target = true ↔ file.messages = [] := by
  rw [isEnumsOnly, h, Option.any_some, List.isEmpty_iff]

theorem targetNames_of_isEnumsOnly (h : s.isEnumsOnly target = true) :
    s.targetNames target = s.enums.map (·.name) := by
  rw [targetNames, if_pos h]

theorem targetNames_of_not_isEnumsOnly (hfile : s.file? target = some (file, i))
    (h : ¬ s.isEnumsOnly target = true) : s.targetNames target = file.messages.map (·.name) := by
  rw [targetNames, if_neg h, hfile]
  rfl

theorem IsMessageDocument.name_eq {package : String} {d : Declaration} {document : Document}
    (h : s.IsMessageDocument package d document) :
    document.name = documentName d.message.name := by
  obtain ⟨-, t, -, -, rfl⟩ := h
  rfl

/-- The documents of a target are named for the types that it is converted to. -/
theorem names_of_documentsOf {ds : List Document}
    (h : (s.documentsOf s.registry target).result = .ok ds) :
    ds.map (·.name) = (s.targetNames target).map documentName := by
  obtain ⟨file, i, hfile, ⟨hmessages, rfl⟩ | ⟨hmessages, hds⟩⟩ := documentsOf_eq_ok h
  · rw [targetNames_of_isEnumsOnly ((isEnumsOnly_iff hfile).mpr hmessages), List.map_map,
      List.map_map]
    rfl
  · have hnames : ds.map (·.name) =
        (file.declarations [i]).map fun d => documentName d.message.name :=
      map_eq_map_of_forall₂ (fun _ _ hd => hd.name_eq) hds
    rw [targetNames_of_not_isEnumsOnly hfile (mt (isEnumsOnly_iff hfile).mp hmessages), hnames,
      ← map_message_declarationsAt [i] file.messages, List.map_map, List.map_map]
    rfl

end Targets

section Runs

variable {s : Session} {targets : List String} {documents : List Document}

/-- The documents of a session are named for the types that its targets are converted to. -/
theorem names_of_generate (h : (s.generate targets).result = .ok documents) :
    documents.map (·.name) = (targets.flatMap s.targetNames).map documentName := by
  obtain ⟨dss, hdss, rfl⟩ := generate_eq_ok h
  have hnames : dss.map (·.map (·.name)) =
      targets.map fun target => (s.targetNames target).map documentName :=
    map_eq_map_of_forall₂ (fun _ _ hds => names_of_documentsOf hds) hdss
  rw [List.map_flatten, hnames, List.map_flatMap, List.flatMap_def]

/-- The targets of a session that comes to documents are files of it. -/
theorem file?_of_generate (h : (s.generate targets).result = .ok documents) {target : String}
    (hmem : target ∈ targets) : ∃ file i, s.file? target = some (file, i) := by
  obtain ⟨dss, hdss, -⟩ := generate_eq_ok h
  have hflip : List.Forall₂ (flip fun t ds => (s.documentsOf s.registry t).result = .ok ds)
      dss targets := hdss.flip
  obtain ⟨ds, -, hds⟩ := exists_left_of_mem hflip hmem
  obtain ⟨file, i, hfile, -⟩ := documentsOf_eq_ok hds
  exact ⟨file, i, hfile⟩

/-! ## Types of distinct names

From here on no two top-level types have the same name, be they messages or enums, in one file or in
two. Messages that are declared inside others have no documents and may be named as they like.
-/

variable (hnames : s.typeNames.Nodup)
include hnames

/-- The names of messages are distinct, those of enums are, and no message is named as an enum. -/
theorem typeNames_apart : ((forestMessages s.forest).map (·.2.message.name)).Nodup ∧
    (s.enums.map (·.name)).Nodup ∧
    List.Disjoint ((forestMessages s.forest).map (·.2.message.name)) (s.enums.map (·.name)) := by
  rw [typeNames, List.nodup_append', ← map_message_forestMessages, List.map_map] at hnames
  exact hnames

/-- A file has no two messages of one name, and shares none with another file. -/
theorem messages_apart : (∀ file ∈ s.forest.zipIdx, (file.1.messages.map (·.name)).Nodup) ∧
    s.forest.zipIdx.Pairwise fun file file' =>
      List.Disjoint (file.1.messages.map (·.name)) (file'.1.messages.map (·.name)) := by
  have hmessages := (List.nodup_append'.mp hnames).1
  rw [← List.zipIdx_map_fst 0 s.forest, List.flatMap_map, List.map_flatMap, List.nodup_flatMap]
    at hmessages
  exact hmessages

/-- No message of a file is named as an enum. -/
theorem disjoint_messages_enums {file : File} {i : Nat} (hfile : (file, i) ∈ s.forest.zipIdx) :
    List.Disjoint (file.messages.map (·.name)) (s.enums.map (·.name)) := by
  have hall := (List.nodup_append'.mp hnames).2.2
  have hsub : file.messages.map (·.name) ⊆ (s.forest.flatMap (·.messages)).map (·.name) := by
    apply List.map_subset
    intro m hm
    exact List.mem_flatMap.mpr ⟨file, List.fst_mem_of_mem_zipIdx hfile, hm⟩
  exact List.disjoint_of_subset_left hsub hall

/-- Files of different names declare messages of different names. -/
theorem disjoint_messages {file file' : File} {i i' : Nat} (hfile : (file, i) ∈ s.forest.zipIdx)
    (hfile' : (file', i') ∈ s.forest.zipIdx) (hne : file.name ≠ file'.name) :
    List.Disjoint (file.messages.map (·.name)) (file'.messages.map (·.name)) := by
  have hsymm : Std.Symm fun (file file' : File × Nat) =>
      List.Disjoint (file.1.messages.map (·.name)) (file'.1.messages.map (·.name)) :=
    ⟨fun _ _ h => List.disjoint_symm h⟩
  exact (messages_apart hnames).2.forall hfile hfile' fun h => hne (congrArg (·.1.name) h)

theorem nodup_targetNames {target : String} {file : File} {i : Nat}
    (hfile : s.file? target = some (file, i)) : (s.targetNames target).Nodup := by
  by_cases honly : s.isEnumsOnly target = true
  · rw [targetNames_of_isEnumsOnly honly]
    exact (List.nodup_append'.mp hnames).2.1
  · rw [targetNames_of_not_isEnumsOnly hfile honly]
    exact (messages_apart hnames).1 _ (mem_of_file? hfile).1

/-- Two targets have no types in common unless both are converted to the enums. -/
theorem disjoint_targetNames_iff {target target' : String} {file file' : File} {i i' : Nat}
    (h : s.file? target = some (file, i)) (h' : s.file? target' = some (file', i'))
    (hne : target ≠ target') :
    List.Disjoint (s.targetNames target) (s.targetNames target') ↔
      (s.isEnumsOnly target = true → s.isEnumsOnly target' = true → s.enums = []) := by
  obtain ⟨hfile, hname⟩ := mem_of_file? h
  obtain ⟨hfile', hname'⟩ := mem_of_file? h'
  by_cases honly : s.isEnumsOnly target = true <;> by_cases honly' : s.isEnumsOnly target' = true
  · rw [targetNames_of_isEnumsOnly honly, targetNames_of_isEnumsOnly honly']
    simp only [disjoint_self_iff, List.map_eq_nil_iff, honly, honly', forall_const]
  · rw [targetNames_of_isEnumsOnly honly, targetNames_of_not_isEnumsOnly h' honly']
    have hapart := List.disjoint_symm (disjoint_messages_enums hnames hfile')
    exact iff_of_true hapart fun _ h => absurd h honly'
  · rw [targetNames_of_not_isEnumsOnly h honly, targetNames_of_isEnumsOnly honly']
    exact iff_of_true (disjoint_messages_enums hnames hfile) fun h => absurd h honly
  · rw [targetNames_of_not_isEnumsOnly h honly, targetNames_of_not_isEnumsOnly h' honly']
    have hfiles : file.name ≠ file'.name := by rwa [hname, hname']
    exact iff_of_true (disjoint_messages hnames hfile hfile' hfiles) fun h => absurd h honly

/-- Names repeat exactly when the enums, and there are some, are converted for two targets. -/
theorem nodup_names_iff (htargets : targets.Nodup)
    (h : (s.generate targets).result = .ok documents) :
    (documents.map (·.name)).Nodup ↔ s.enums = [] ∨ (targets.filter s.isEnumsOnly).length ≤ 1 := by
  have hnodup : ∀ target ∈ targets, (s.targetNames target).Nodup := by
    intro target hmem
    obtain ⟨file, i, hfile⟩ := file?_of_generate h hmem
    exact nodup_targetNames hnames hfile
  rw [names_of_generate h, List.nodup_map_iff documentName_injective, List.nodup_flatMap,
    and_iff_right hnodup, ← pairwise_const_iff, List.pairwise_filter]
  apply pairwise_iff_of_nodup htargets
  intro target hmem target' hmem' hne
  obtain ⟨file, i, hfile⟩ := file?_of_generate h hmem
  obtain ⟨file', i', hfile'⟩ := file?_of_generate h hmem'
  exact disjoint_targetNames_iff hnames hfile hfile' hne

/-- Documents of one name are one document. -/
theorem eq_of_name_eq (h : (s.generate targets).result = .ok documents) {a b : Document}
    (ha : a ∈ documents) (hb : b ∈ documents) (hname : a.name = b.name) : a = b := by
  obtain ⟨hmessages, henums, hapart⟩ := typeNames_apart hnames
  rcases source_of_mem_generate h ha with ⟨e, he, rfl⟩ | ⟨m, hm, hdocument⟩ <;>
    rcases source_of_mem_generate h hb with ⟨e', he', rfl⟩ | ⟨m', hm', hdocument'⟩
  · -- two enums of one name
    obtain rfl : e = e' :=
      List.inj_on_of_nodup_map henums he he' (documentName_injective hname)
    rfl
  · -- an enum and a message have different names
    rw [hdocument'.name_eq] at hname
    have hsame : m'.2.message.name = e.name := (documentName_injective hname).symm
    exact absurd (hsame ▸ List.mem_map_of_mem he) (hapart (List.mem_map_of_mem hm'))
  · rw [hdocument.name_eq] at hname
    have hsame : m.2.message.name = e'.name := documentName_injective hname
    exact absurd (hsame ▸ List.mem_map_of_mem he') (hapart (List.mem_map_of_mem hm))
  · -- two messages of one name, which are converted from the package of the same file
    rw [hdocument.name_eq, hdocument'.name_eq] at hname
    obtain rfl : m = m' :=
      List.inj_on_of_nodup_map hmessages hm hm' (documentName_injective hname)
    obtain ⟨id, t, hid, ht, rfl⟩ := hdocument
    obtain ⟨id', t', hid', ht', rfl⟩ := hdocument'
    obtain rfl := Except.ok.inj (hid.symm.trans hid')
    obtain rfl := Except.ok.inj (ht.symm.trans ht')
    rfl

end Runs

/-- **Names of documents**: where the top-level types have distinct names, the documents of distinct
targets have distinct names exactly when there are no enums or at most one target is a file without
messages. Documents of one name are one document in any case. -/
theorem generate_names {s : Session} {targets : List String} {documents : List Document}
    (hnames : s.typeNames.Nodup) (htargets : targets.Nodup)
    (h : (s.generate targets).result = .ok documents) :
    ((documents.map (·.name)).Nodup ↔
        s.enums = [] ∨ (targets.filter s.isEnumsOnly).length ≤ 1) ∧
      ∀ a ∈ documents, ∀ b ∈ documents, a.name = b.name → a = b := by
  refine ⟨nodup_names_iff hnames htargets h, ?_⟩
  intro a ha b hb hname
  exact eq_of_name_eq hnames h ha hb hname

end Session

/-! ### A palette -/

namespace Palette

/-- A file with an enum. -/
def colours : File :=
  { name := "colours.proto", enums := [{ name := "Colour", values := [{ name := "RED" }] }] }

/-- Another file with an enum. -/
def sizes : File :=
  { name := "sizes.proto", enums := [{ name := "Size", values := [{ name := "SMALL" }] }] }

/-- A file with a message. -/
def lamps : File := { name := "lamps.proto", messages := [{ name := "Lamp" }] }

/-- A session with the three files. -/
def session : Session :=
  ⟨[colours, sizes, lamps], .everything⟩

end Palette

/-- A file with a message and a file without come to documents of distinct names. -/
theorem generate_names_palette :
    ∃ documents,
      (Palette.session.generate ["lamps.proto", "colours.proto"]).result = .ok documents ∧
      documents.map (·.name) = ["Lamp.jsonschema", "Colour.jsonschema", "Size.jsonschema"] ∧
      (documents.map (·.name)).Nodup := by
  let lamp : Document := ⟨documentName "Lamp", (Palette.session.policy.messageSchema []).asDocument⟩
  have hrun : (Palette.session.generate ["lamps.proto", "colours.proto"]).result =
      .ok (lamp :: Palette.session.enums.map Palette.session.enumDocument) := by
    with_unfolding_all rfl
  obtain ⟨hdistinct, -⟩ := Session.generate_names (by decide) (by decide) hrun
  exact ⟨_, hrun, rfl, hdistinct.mpr (Or.inr (by decide))⟩

/-- Each of two files without messages comes to the documents of all enums, and so the two come to
two of each name. -/
theorem palette_repeats_names :
    Palette.session.typeNames.Nodup ∧ ["colours.proto", "sizes.proto"].Nodup ∧
    ∃ documents,
      (Palette.session.generate ["colours.proto", "sizes.proto"]).result = .ok documents ∧
      documents.map (·.name) =
        ["Colour.jsonschema", "Size.jsonschema", "Colour.jsonschema", "Size.jsonschema"] ∧
      ¬ (documents.map (·.name)).Nodup := by
  refine ⟨by decide, by decide, _, rfl, rfl, ?_⟩
  decide

end ProtoSchema
