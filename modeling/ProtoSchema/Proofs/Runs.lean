import ProtoSchema.Proofs.Outcome
import ProtoSchema.Session

/-!
# What a run comes to

The documents of a file and of a session without what is logged on the way: a file comes to its
enums' documents, or to those of its messages one after the other, and a session to the documents of
the files that it is asked for.

Read backwards, every document of a session is that of an enum of its files, or that of a top-level
message of its files (`Session.source_of_mem_generate`). Many results on documents begin with this
lemma and go on with what is known of messages and enums; they do not look at targets or files
again.
-/

namespace ProtoSchema

theorem File.declarations_eq_nil_iff {file : File} {position : Position} :
    file.declarations position = [] ↔ file.messages = [] := by
  simp [File.declarations, declarationsAt]

/-- The document of a message is its schema with the marker of the root, under the name of the
message. -/
theorem result_messageDocument (c : Conversion) (file : File) (visible : List EnumType)
    (d : Declaration) :
    (messageDocument c file visible d).result =
      (fun s => ⟨documentName d.message.name, s.asDocument⟩) <$> (c.message d visible).result := by
  rw [messageDocument, Logged.result_bind, Logged.result_tell, ← Logged.result_map]
  rfl

/-- A file comes to the documents of the visible enums when it has no messages. -/
theorem result_typeDocuments_nil (r : Registry) (p : Policy) (file : File)
    (visible : List EnumType) :
    (typeDocuments r p file [] visible).result =
      .ok (visible.map fun e => ⟨documentName e.name, (p.enumSchema e).asDocument⟩) := by
  rw [typeDocuments, if_pos rfl, Logged.result_mapM]
  exact List.mapM_pure

/-- A file with messages comes to their documents, once its package is found. -/
theorem result_typeDocuments_of_ne_nil (r : Registry) (p : Policy) (file : File)
    {messages : List Declaration} (hne : messages ≠ []) (visible : List EnumType) :
    (typeDocuments r p file messages visible).result =
      (r.lookupPackage file.package).mapError (.unknownPackage file.package) >>= fun package =>
        messages.mapM fun d => (messageDocument ⟨r, package, p⟩ file visible d).result := by
  rw [typeDocuments, if_neg hne, Logged.result_bind, Logged.result_ofExcept]
  simp only [Logged.result_mapM]

/-- The notes before the types and the line for a failure have no part in the result. -/
theorem File.result_documents (file : File) (position : Position) (r : Registry) (p : Policy)
    (visible : List EnumType) :
    (file.documents position r p visible).result =
      (typeDocuments r p file (file.declarations position) visible).result := by
  rw [documents]
  -- whether notes are made before it or not, they do not fail
  by_cases hmessages : file.messages.length > 1 <;> by_cases hvisible : visible.length > 1 <;>
    simp only [hmessages, hvisible, if_true, if_false] <;> exact Logged.result_onFailure _ _

theorem Session.result_generate (s : Session) (targets : List String) :
    (s.generate targets).result =
      List.flatten <$> targets.mapM fun t => (s.documentsOf s.registry t).result := by
  rw [generate, Logged.result_map, Logged.result_mapM]

/-! ## Where documents come from

The relation for messages says from which package the names were read, as the schema depends on it.
-/

/-- The document of a message, made in the package. -/
def Session.IsMessageDocument (s : Session) (package : String) (d : Declaration)
    (document : Document) : Prop :=
  ∃ id t, s.registry.lookupPackage package = .ok id ∧
    ((⟨s.registry, id, s.policy⟩ : Conversion).message d s.enums).result = .ok t ∧
    document = ⟨documentName d.message.name, t.asDocument⟩

/-- The document of an enum. -/
def Session.enumDocument (s : Session) (e : EnumType) : Document :=
  ⟨documentName e.name, (s.policy.enumSchema e).asDocument⟩

/-- A requested file is one of the forest of that name. -/
theorem Session.mem_of_file? {s : Session} {target : String} {file : File} {i : Nat}
    (h : s.file? target = some (file, i)) :
    (file, i) ∈ s.forest.zipIdx ∧ file.name = target := by
  rw [file?] at h
  exact ⟨List.mem_reverse.mp (List.mem_of_find?_eq_some h), by simpa using List.find?_some h⟩

/-- A requested file comes to the documents of all enums when it has no messages, and else to those
of its messages, in order. -/
theorem Session.documentsOf_eq_ok {s : Session} {target : String} {ds : List Document}
    (h : (s.documentsOf s.registry target).result = .ok ds) :
    ∃ file i, s.file? target = some (file, i) ∧
      ((file.messages = [] ∧ ds = s.enums.map s.enumDocument) ∨
        (file.messages ≠ [] ∧
          List.Forall₂ (s.IsMessageDocument file.package) (file.declarations [i]) ds)) := by
  rw [documentsOf] at h
  split at h
  · next file i hfile =>
    refine ⟨file, i, hfile, ?_⟩
    rw [Logged.result_mapError, mapError_eq_ok_iff, File.result_documents] at h
    by_cases hmessages : file.messages = []
    · rw [File.declarations_eq_nil_iff.mpr hmessages, result_typeDocuments_nil] at h
      exact Or.inl ⟨hmessages, (Except.ok.inj h).symm⟩
    · have hsome : file.declarations [i] ≠ [] := mt File.declarations_eq_nil_iff.mp hmessages
      rw [result_typeDocuments_of_ne_nil _ _ _ hsome, bind_eq_ok_iff] at h
      obtain ⟨id, hid, hds⟩ := h
      rw [mapError_eq_ok_iff] at hid
      refine Or.inr ⟨hmessages, (mapM_eq_ok_iff.mp hds).imp ?_⟩
      intro d document hd
      rw [result_messageDocument, map_eq_ok_iff] at hd
      obtain ⟨t, ht, hdocument⟩ := hd
      exact ⟨id, t, hid, ht, hdocument⟩
  · cases h

/-- A session comes to the documents of its targets, one after the other. -/
theorem Session.generate_eq_ok {s : Session} {targets : List String} {documents : List Document}
    (h : (s.generate targets).result = .ok documents) :
    ∃ dss, List.Forall₂ (fun t ds => (s.documentsOf s.registry t).result = .ok ds) targets dss ∧
      documents = dss.flatten := by
  rw [result_generate, map_eq_ok_iff] at h
  obtain ⟨dss, hdss, hdocuments⟩ := h
  exact ⟨dss, mapM_eq_ok_iff.mp hdss, hdocuments⟩

theorem mem_forestMessages {forest : List File} {file : File} {i : Nat} {d : Declaration}
    (hfile : (file, i) ∈ forest.zipIdx) (hd : d ∈ file.declarations [i]) :
    (file.package, d) ∈ forestMessages forest :=
  List.mem_flatMap.mpr ⟨(file, i), hfile, List.mem_map_of_mem hd⟩

/-- **The source of a document**: it is the document of an enum of the files, or that of a top-level
message of the files in the package of its file. -/
theorem Session.source_of_mem_generate {s : Session} {targets : List String}
    {documents : List Document} (h : (s.generate targets).result = .ok documents)
    {document : Document} (hmem : document ∈ documents) :
    (∃ e ∈ s.enums, document = s.enumDocument e) ∨
      ∃ m ∈ forestMessages s.forest, s.IsMessageDocument m.1 m.2 document := by
  obtain ⟨dss, hdss, rfl⟩ := generate_eq_ok h
  obtain ⟨ds, hds, hmem⟩ := List.mem_flatten.mp hmem
  obtain ⟨target, -, htarget⟩ := exists_left_of_mem hdss hds
  obtain ⟨file, i, hfile, ⟨-, rfl⟩ | ⟨-, hmessages⟩⟩ := documentsOf_eq_ok htarget
  · obtain ⟨e, he, rfl⟩ := List.mem_map.mp hmem
    exact Or.inl ⟨e, he, rfl⟩
  · obtain ⟨d, hd, hdocument⟩ := exists_left_of_mem hmessages hmem
    exact Or.inr ⟨_, mem_forestMessages (mem_of_file? hfile).1 hd, hdocument⟩

end ProtoSchema
