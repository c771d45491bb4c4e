import ProtoSchema.Proofs.PackageContents
import ProtoSchema.Proofs.References
import ProtoSchema.Proofs.Runs

/-!
# What targets come to

A target means the last file of its name (`Session.Finds`). It comes to documents
(`Session.Yields`): one for each message of the file, or one for each enum of the forest when the
file has no messages. Or it fails (`Session.Refuses`): no file has the name, or one of the messages
of the file does not convert.

There is no third way. The package of a file is among the packages that its own messages were
registered under, and registering more keeps it, so that a file with messages never misses its
package (`Session.exists_isPackageOf`). A session is its targets one after the other, up to the
first that fails (`Session.generate_outcome`).

The two relations have no condition in common with the definition of a session: they speak of the
row of files, of the name of a package and of the conversion of single messages. Each is shown to be
what the conversion of a target comes to (`Session.documentsOf_eq_ok_iff`,
`Session.documentsOf_eq_error_iff`), and the rest is on rows of computations.
-/

namespace ProtoSchema

/-- A field is never to blame for the package of its file. -/
theorem Conversion.OffendsAt.ne_unknownPackage {c : Conversion} {path : List Declaration}
    {d : Declaration} {a : List Nat} {e : ConversionError} (h : c.OffendsAt path d a e)
    (name : String) (source : LookupError) : e ≠ .unknownPackage name source := by
  induction h with
  | here hi h => cases h <;> exact ConversionError.noConfusion
  | inside hi hf h ih => exact ih

namespace Session

/-! ## The file of a target

Several files of one name are possible. The last one hides the others, though their messages are
registered as well.
-/

/-- The target means this file at this index: it is the last file of the name. -/
structure Finds (s : Session) (target : String) (file : File) (i : Nat) : Prop where
  /-- the file has the name -/
  name_eq : file.name = target
  /-- the file stands at the index, and no file behind it has the name -/
  split : ∃ front behind, s.forest = front ++ file :: behind ∧ i = front.length ∧
    ∀ other ∈ behind, other.name ≠ target

variable {s : Session} {target : String}

/-- The files are searched from the back. -/
theorem file?_eq_some_iff_finds {file : File} {i : Nat} :
    s.file? target = some (file, i) ↔ s.Finds target file i := by
  rw [file?, List.find?_eq_some_iff_append]
  simp only [decide_eq_true_eq, Bool.not_eq_true', decide_eq_false_iff_not]
  constructor
  · rintro ⟨hname, searched, rest, hfiles, hsearched⟩
    rw [List.reverse_eq_append_iff, List.reverse_cons, List.append_assoc] at hfiles
    obtain ⟨front, back, hforest, -, hback⟩ := List.zipIdx_eq_append_iff.mp hfiles
    obtain ⟨head, behind, rfl, hhead, hbehind⟩ := List.zipIdx_eq_cons_iff.mp hback.symm
    obtain ⟨rfl, rfl⟩ := Prod.mk.inj hhead
    refine ⟨hname, front, behind, hforest, Nat.zero_add _, fun other hother => ?_⟩
    -- what stands behind the file was searched before it
    rw [← List.zipIdx_map_fst (0 + front.length + 1) behind, ← hbehind] at hother
    obtain ⟨found, hfound, rfl⟩ := List.mem_map.mp hother
    exact hsearched found (List.mem_reverse.mp hfound)
  · rintro ⟨hname, front, behind, hforest, rfl, hlast⟩
    refine ⟨hname, (behind.zipIdx (front.length + 1)).reverse, front.zipIdx.reverse, ?_, ?_⟩
    · rw [hforest, List.zipIdx_append, List.zipIdx_cons, List.reverse_append, List.reverse_cons,
        List.append_assoc, Nat.zero_add]
      rfl
    · rintro ⟨other, j⟩ hother
      exact hlast other (List.fst_mem_of_mem_zipIdx (List.mem_reverse.mp hother))

theorem file?_eq_none_iff : s.file? target = none ↔ ∀ file ∈ s.forest, file.name ≠ target := by
  rw [file?, List.find?_eq_none]
  constructor
  · intro h file hfile
    obtain ⟨i, hi⟩ := List.getElem?_of_mem hfile
    have hmem : (file, i) ∈ s.forest.zipIdx := List.mem_zipIdx_iff_getElem?.mpr hi
    simpa using h _ (List.mem_reverse.mpr hmem)
  · rintro h ⟨file, i⟩ hmem
    simpa using h file (List.fst_mem_of_mem_zipIdx (List.mem_reverse.mp hmem))

/-! ## The package of a file

The package is told by its name, as numbers depend on the order in which packages were made.
-/

/-- The package has the name that the file gives for its own. -/
def IsPackageOf (s : Session) (file : File) (id : PackageId) : Prop :=
  id < s.registry.nodes.size ∧ (s.registry.node id).name = dottedName (segments file.package)

theorem holds_registry (s : Session) : s.registry.Holds (forestMessages s.forest) :=
  Registry.holds_registerAll _

/-- The package of a file is found under the name that the file gives. -/
theorem lookupPackage_eq_ok_iff {file : File} {id : PackageId} :
    s.registry.lookupPackage file.package = .ok id ↔ s.IsPackageOf file id :=
  s.holds_registry.lookupPackage_eq_ok_iff

/-- **A file with messages** has its package, for its own messages were registered under it. It
needs only one of them, and what was registered before or after does not matter. -/
theorem exists_isPackageOf {file : File} (hfile : file ∈ s.forest) (hsome : file.messages ≠ []) :
    ∃ id, s.registry.lookupPackage file.package = .ok id ∧ s.IsPackageOf file id := by
  obtain ⟨i, hi⟩ := List.getElem?_of_mem hfile
  obtain ⟨d, hd⟩ := List.exists_mem_of_ne_nil _ (mt File.declarations_eq_nil_iff.mp hsome)
  have hmem := mem_forestMessages (List.mem_zipIdx_iff_getElem?.mpr hi) hd
  obtain ⟨id, hid⟩ := s.holds_registry.exists_lookupPackage_iff.mpr
    (Or.inr ⟨_, hmem, List.prefix_refl _⟩)
  exact ⟨id, hid, lookupPackage_eq_ok_iff.mp hid⟩

/-! ## Documents and failures

Both relations have a case for each way that leads there.
-/

/-- What stays fixed while the messages of the package are converted. -/
def conversion (s : Session) (id : PackageId) : Conversion := ⟨s.registry, id, s.policy⟩

/-- The target comes to these documents. -/
inductive Yields (s : Session) (target : String) : List Document → Prop where
  /-- a file without messages comes to all enums of the files, in their order -/
  | enums {file : File} {i : Nat} (hfile : s.Finds target file i) (hnone : file.messages = []) :
    Yields s target (s.enums.map s.enumDocument)
  /-- a file with messages comes to its messages, in declaration order -/
  | messages {file : File} {i : Nat} {id : PackageId} {documents : List Document}
    (hfile : s.Finds target file i) (hsome : file.messages ≠ []) (hid : s.IsPackageOf file id)
    (hdocuments : List.Forall₂ (fun d document =>
      ∃ t, ((s.conversion id).message d s.enums).result = .ok t ∧
        document = ⟨documentName d.message.name, t.asDocument⟩)
      (file.declarations [i]) documents) :
    Yields s target documents

/-- The target fails so. -/
inductive Refuses (s : Session) (target : String) : SessionError → Prop where
  /-- no file has the name -/
  | unknownFile (hnone : ∀ file ∈ s.forest, file.name ≠ target) :
    Refuses s target (.unknownFile target)
  /-- a message of the file fails, the first one that does -/
  | file {file : File} {i k : Nat} {id : PackageId} {d : Declaration} {e : ConversionError}
    (hfile : s.Finds target file i) (hid : s.IsPackageOf file id)
    (hd : (file.declarations [i])[k]? = some d)
    (he : ((s.conversion id).message d s.enums).result = .error e)
    (hbefore : ∀ (j : Nat) (d' : Declaration), j < k → (file.declarations [i])[j]? = some d' →
      ∃ t, ((s.conversion id).message d' s.enums).result = .ok t) :
    Refuses s target (.file target e)

/-! ## One target -/

theorem result_documentsOf_of_none (h : ∀ file ∈ s.forest, file.name ≠ target) :
    (s.documentsOf s.registry target).result = .error (.unknownFile target) := by
  rw [documentsOf, file?_eq_none_iff.mpr h]
  rfl

section Found

variable {file : File} {i : Nat} (hfile : s.Finds target file i)
include hfile

theorem Finds.mem : file ∈ s.forest := by
  obtain ⟨front, behind, hforest, -, -⟩ := hfile.split
  rw [hforest]
  exact List.mem_append_right _ List.mem_cons_self

/-- A target is its file, and its failures name the target. -/
theorem Finds.result_documentsOf :
    (s.documentsOf s.registry target).result =
      (file.documents [i] s.registry s.policy s.enums).result.mapError (.file target) := by
  rw [documentsOf, file?_eq_some_iff_finds.mpr hfile]
  rfl

end Found

/-- A file without messages comes to all enums, and cannot fail. -/
theorem result_documents_of_nil {file : File} (hnone : file.messages = []) (i : Nat) :
    (file.documents [i] s.registry s.policy s.enums).result =
      .ok (s.enums.map s.enumDocument) := by
  rw [File.result_documents, File.declarations_eq_nil_iff.mpr hnone, result_typeDocuments_nil]
  rfl

/-- A file with messages comes to these, one after the other. -/
theorem result_documents_of_ne_nil {file : File} (hsome : file.messages ≠ []) {id : PackageId}
    (hid : s.IsPackageOf file id) (i : Nat) :
    (file.documents [i] s.registry s.policy s.enums).result =
      (file.declarations [i]).mapM fun d =>
        (fun t => ⟨documentName d.message.name, t.asDocument⟩) <$>
          ((s.conversion id).message d s.enums).result := by
  rw [File.result_documents,
    result_typeDocuments_of_ne_nil _ _ _ (mt File.declarations_eq_nil_iff.mp hsome),
    lookupPackage_eq_ok_iff.mpr hid]
  simp only [result_messageDocument]
  rfl

/-- A target comes to documents as the rules say. -/
theorem documentsOf_eq_ok_iff {documents : List Document} :
    (s.documentsOf s.registry target).result = .ok documents ↔ s.Yields target documents := by
  constructor
  · intro h
    obtain ⟨file, i, hfile, ⟨hnone, rfl⟩ | ⟨hsome, hdocuments⟩⟩ := documentsOf_eq_ok h <;>
      rw [file?_eq_some_iff_finds] at hfile
    · exact .enums hfile hnone
    · obtain ⟨id, hlookup, hid⟩ := exists_isPackageOf hfile.mem hsome
      refine .messages hfile hsome hid (hdocuments.imp ?_)
      rintro d document ⟨id', t, hid', ht, rfl⟩
      obtain rfl := Except.ok.inj (hlookup.symm.trans hid')
      exact ⟨t, ht, rfl⟩
  · intro h
    cases h with
    | enums hfile hnone =>
      rw [hfile.result_documentsOf, result_documents_of_nil hnone]
      rfl
    | messages hfile hsome hid hdocuments =>
      rw [hfile.result_documentsOf, mapError_eq_ok_iff, result_documents_of_ne_nil hsome hid,
        mapM_eq_ok_iff]
      exact hdocuments.imp fun d document hd => map_eq_ok_iff.mpr hd

/-- A target succeeds when its file is there and converts. -/
theorem exists_documentsOf_eq_ok_iff :
    (∃ documents, (s.documentsOf s.registry target).result = .ok documents) ↔
      ∃ file i, s.Finds target file i ∧
        ∃ documents, (file.documents [i] s.registry s.policy s.enums).result = .ok documents := by
  constructor
  · rintro ⟨documents, h⟩
    obtain ⟨file, i, hfile, -⟩ := documentsOf_eq_ok h
    rw [file?_eq_some_iff_finds] at hfile
    rw [hfile.result_documentsOf, mapError_eq_ok_iff] at h
    exact ⟨file, i, hfile, documents, h⟩
  · rintro ⟨file, i, hfile, documents, h⟩
    exact ⟨documents, hfile.result_documentsOf ▸ mapError_eq_ok_iff.mpr h⟩

/-- A file fails as the first of its messages that fails. -/
theorem result_documents_eq_error_iff {file : File} {id : PackageId}
    (hsome : file.messages ≠ []) (hid : s.IsPackageOf file id) {i : Nat} {e : ConversionError} :
    (file.documents [i] s.registry s.policy s.enums).result = .error e ↔
      ∃ (k : Nat) (d : Declaration), (file.declarations [i])[k]? = some d ∧
        ((s.conversion id).message d s.enums).result = .error e ∧
        ∀ (j : Nat) (d' : Declaration), j < k → (file.declarations [i])[j]? = some d' →
          ∃ t, ((s.conversion id).message d' s.enums).result = .ok t := by
  rw [result_documents_of_ne_nil hsome hid, mapM_eq_error_iff]
  refine exists_congr fun k => exists_congr fun d => and_congr_right fun _ => ?_
  refine and_congr map_eq_error_iff (forall_congr' fun j => forall_congr' fun d' => ?_)
  refine forall_congr' fun _ => forall_congr' fun _ => ?_
  simp only [map_eq_ok_iff]
  exact ⟨fun ⟨_, t, ht, _⟩ => ⟨t, ht⟩, fun ⟨t, ht⟩ => ⟨_, t, ht, rfl⟩⟩

/-- A target fails as the rules say. -/
theorem documentsOf_eq_error_iff {e : SessionError} :
    (s.documentsOf s.registry target).result = .error e ↔ s.Refuses target e := by
  constructor
  · intro h
    rcases hfile : s.file? target with _ | ⟨file, i⟩
    · have hnone := file?_eq_none_iff.mp hfile
      rw [result_documentsOf_of_none hnone] at h
      obtain rfl := Except.error.inj h
      exact .unknownFile hnone
    · rw [file?_eq_some_iff_finds] at hfile
      rw [hfile.result_documentsOf, mapError_eq_error_iff] at h
      obtain ⟨e, he, rfl⟩ := h
      -- a file of enums cannot fail
      by_cases hmessages : file.messages = []
      · rw [result_documents_of_nil hmessages] at he
        cases he
      · obtain ⟨id, -, hid⟩ := exists_isPackageOf hfile.mem hmessages
        obtain ⟨k, d, hd, he, hbefore⟩ := (result_documents_eq_error_iff hmessages hid).mp he
        exact .file hfile hid hd he hbefore
  · intro h
    cases h with
    | unknownFile hnone => exact result_documentsOf_of_none hnone
    | @file file i k id d e hfile hid hd he hbefore =>
      have hsome : file.messages ≠ [] := by
        intro hnone
        rw [File.declarations, hnone] at hd
        cases hd
      rw [hfile.result_documentsOf, mapError_eq_error_iff]
      exact ⟨e, (result_documents_eq_error_iff hsome hid).mpr ⟨k, d, hd, he, hbefore⟩, rfl⟩

/-- A message is never to blame for the package of its file. -/
theorem Refuses.ne_unknownPackage {e : SessionError} (h : s.Refuses target e) (target' : String)
    (name : String) (source : LookupError) : e ≠ .file target' (.unknownPackage name source) := by
  cases h with
  | unknownFile => exact SessionError.noConfusion
  | file _ _ _ he _ =>
    rw [Conversion.message, Conversion.messageSchema_fails_iff] at he
    obtain ⟨a, ha, -⟩ := he
    intro heq
    exact ha.ne_unknownPackage name source (SessionError.file.inj heq).2

/-! ## The run -/

/-- **The outcome of a session.** It comes to the documents of its targets one after the other, each
as often as it is asked for, exactly when every target is a file of the forest and that file
converts; and it fails as the first target that fails. A file with messages always finds its
package, so that no session fails for want of one. -/
theorem generate_outcome (s : Session) (targets : List String) :
    (∀ documents, (s.generate targets).result = .ok documents ↔
      ∃ dss, List.Forall₂ s.Yields targets dss ∧ documents = dss.flatten) ∧
    (∀ e, (s.generate targets).result = .error e ↔
      ∃ (i : Nat) (target : String), targets[i]? = some target ∧ s.Refuses target e ∧
        ∀ (j : Nat) (t : String), j < i → targets[j]? = some t → ∃ ds, s.Yields t ds) ∧
    ((∃ documents, (s.generate targets).result = .ok documents) ↔
      ∀ target ∈ targets, ∃ file i, s.Finds target file i ∧
        ∃ ds, (file.documents [i] s.registry s.policy s.enums).result = .ok ds) ∧
    (∀ file ∈ s.forest, file.messages ≠ [] →
      ∃ id, s.registry.lookupPackage file.package = .ok id ∧ s.IsPackageOf file id) ∧
    ∀ target name source,
      (s.generate targets).result ≠ .error (.file target (.unknownPackage name source)) := by
  have hok : ∀ documents, (s.generate targets).result = .ok documents ↔
      ∃ dss, List.Forall₂ s.Yields targets dss ∧ documents = dss.flatten := by
    intro documents
    rw [result_generate, map_eq_ok_iff]
    simp only [mapM_eq_ok_iff, documentsOf_eq_ok_iff]
  have herror : ∀ e, (s.generate targets).result = .error e ↔
      ∃ (i : Nat) (target : String), targets[i]? = some target ∧ s.Refuses target e ∧
        ∀ (j : Nat) (t : String), j < i → targets[j]? = some t → ∃ ds, s.Yields t ds := by
    intro e
    rw [result_generate, map_eq_error_iff, mapM_eq_error_iff]
    simp only [documentsOf_eq_error_iff, documentsOf_eq_ok_iff]
  refine ⟨hok, herror, ?_, fun file hfile hsome => exists_isPackageOf hfile hsome, ?_⟩
  · have hall : (∃ documents, (s.generate targets).result = .ok documents) ↔
        ∃ dss, targets.mapM (fun t => (s.documentsOf s.registry t).result) = .ok dss := by
      simp only [result_generate, map_eq_ok_iff]
      exact ⟨fun ⟨_, dss, hdss, _⟩ => ⟨dss, hdss⟩, fun ⟨dss, hdss⟩ => ⟨_, dss, hdss, rfl⟩⟩
    rw [hall, exists_mapM_eq_ok_iff]
    exact forall_congr' fun target => forall_congr' fun _ => exists_documentsOf_eq_ok_iff
  · intro target name source h
    obtain ⟨-, t, -, hrefuses, -⟩ := (herror _).mp h
    exact hrefuses.ne_unknownPackage target name source rfl

end Session

end ProtoSchema
