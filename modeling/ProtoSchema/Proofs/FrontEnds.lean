import ProtoSchema.Proofs.FailedRuns
import ProtoSchema.Proofs.Log
import ProtoSchema.Proofs.Writing

/-!
# Converting and answering

The command `convert` and the plugin do the same for the same files. The files of all descriptor
sets in a row, less those whose name came before, are the forest (`FirstOfEachName`); a request for
that forest is answered with the documents that `convert` delivers, or with the text that it fails
with (`runConvert_agrees`).

The two have a session in common, and what lies around it differs: the one reads sets and writes
files, the other reads a request and writes a response. The module goes through it in this order:

* the forest, as the function that drops files of names that were seen, and what it keeps
  (`firstOfEachName`);
* the sets, whose files depend on the row of them all and not on how they are spread over the sets
  (`HoldsSets.loadForest_eq`);
* the documents, which are settled by the same calls on both sides (`respond_eq`);
* the run, which prints the files of the response or writes them to a directory, and what it leaves
  when it fails (`ConvertSettings.Agrees`).
-/

namespace ProtoSchema

/-! ## Of each name the first

The function goes through the files with the names seen so far. Its lemmas have these open, as the
induction changes them.
-/

/-- Of the files those are kept, in order, that are the first of their names. -/
structure FirstOfEachName (files kept : List File) : Prop where
  /-- they are kept in order -/
  sublist : kept.Sublist files
  /-- each name is kept once, in the order in which the names come up first -/
  names_eq : kept.map (·.name) = (files.map (·.name)).eraseDups
  /-- what is kept is the first file of its name -/
  find?_eq : ∀ file ∈ kept, files.find? (·.name = file.name) = some file

variable {seen seen' : List String} {files more : List File}

/-- Only what was seen matters, not in which order. -/
theorem firstByName_congr (h : ∀ name, name ∈ seen ↔ name ∈ seen') (files : List File) :
    firstByName seen files = firstByName seen' files := by
  induction files generalizing seen seen' with
  | nil => rfl
  | cons file rest ih =>
    have hrest : ∀ name, name ∈ file.name :: seen ↔ name ∈ file.name :: seen' := fun name => by
      rw [List.mem_cons, List.mem_cons, h]
    simp only [firstByName, h file.name, ih h, ih hrest]

/-- Of two rows the second is gone through with the names of the first seen. -/
theorem firstByName_append (seen : List String) (files more : List File) :
    firstByName seen (files ++ more) =
      firstByName seen files ++ firstByName (files.map (·.name) ++ seen) more := by
  induction files generalizing seen with
  | nil => rfl
  | cons file rest ih =>
    by_cases hseen : file.name ∈ seen
    · have hsame : firstByName (rest.map (·.name) ++ seen) more =
          firstByName ((file :: rest).map (·.name) ++ seen) more := by
        refine firstByName_congr (fun name => ?_) more
        rw [List.map_cons, List.cons_append, List.mem_cons, or_iff_right_of_imp]
        rintro rfl
        exact List.mem_append_right _ hseen
      simp only [List.cons_append, firstByName, hseen, if_true, ih, hsame]
    · have hsame : firstByName (rest.map (·.name) ++ file.name :: seen) more =
          firstByName ((file :: rest).map (·.name) ++ seen) more := by
        refine firstByName_congr (fun name => ?_) more
        simp only [List.map_cons, List.cons_append, List.mem_cons, List.mem_append]
        exact or_left_comm
      simp only [List.cons_append, firstByName, hseen, if_false, ih, hsame]

/-- Nothing is kept of files whose names were all seen. -/
theorem firstByName_eq_nil (h : ∀ file ∈ files, file.name ∈ seen) :
    firstByName seen files = [] := by
  induction files with
  | nil => rfl
  | cons file rest ih =>
    rw [firstByName, if_pos (h file List.mem_cons_self)]
    exact ih fun other hother => h other (List.mem_cons_of_mem _ hother)

/-- What comes again is not kept again. -/
theorem firstByName_repeated (h : ∀ file ∈ more, file ∈ files) (rest : List File) :
    firstByName [] (files ++ (more ++ rest)) = firstByName [] (files ++ rest) := by
  have hnames : ∀ file ∈ more, file.name ∈ files.map (·.name) ++ [] := by
    intro file hfile
    rw [List.append_nil]
    exact List.mem_map_of_mem (h file hfile)
  have hseen : firstByName (more.map (·.name) ++ (files.map (·.name) ++ [])) rest =
      firstByName (files.map (·.name) ++ []) rest := by
    refine firstByName_congr (fun name => ?_) rest
    rw [List.mem_append, or_iff_right_of_imp]
    intro hname
    obtain ⟨file, hfile, rfl⟩ := List.mem_map.mp hname
    exact hnames file hfile
  rw [firstByName_append, firstByName_append, firstByName_eq_nil hnames, List.nil_append, hseen,
    firstByName_append]

theorem sublist_firstByName (seen : List String) (files : List File) :
    (firstByName seen files).Sublist files := by
  induction files generalizing seen with
  | nil => exact .slnil
  | cons file rest ih =>
    rw [firstByName]
    split
    · exact (ih seen).cons file
    · exact (ih _).cons_cons file

/-- Each name that was not seen before is kept once. -/
theorem names_firstByName (seen : List String) (files : List File) :
    (firstByName seen files).map (·.name) =
      ((files.map (·.name)).filter (· ∉ seen)).eraseDups := by
  induction files generalizing seen with
  | nil => rfl
  | cons file rest ih =>
    rw [firstByName, List.map_cons, List.filter_cons]
    by_cases hseen : file.name ∈ seen
    · simp only [hseen, if_true, not_true, decide_false, Bool.false_eq_true, if_false]
      exact ih seen
    · simp only [hseen, if_false, not_false_eq_true, decide_true, if_true, List.map_cons,
        List.eraseDups_cons, List.filter_filter, ih]
      congr 2
      refine List.filter_congr fun name _ => ?_
      by_cases hname : name = file.name <;> simp [hname]

/-- What is kept is the first of its name, and its name was not seen before. -/
theorem find?_firstByName (seen : List String) (files : List File) :
    ∀ file ∈ firstByName seen files,
      file.name ∉ seen ∧ files.find? (·.name = file.name) = some file := by
  induction files generalizing seen with
  | nil => exact fun _ hmem => absurd hmem List.not_mem_nil
  | cons head rest ih =>
    intro file hfile
    rw [firstByName] at hfile
    split at hfile
    · next hseen =>
      obtain ⟨hnew, hfind⟩ := ih seen file hfile
      have hne : head.name ≠ file.name := fun heq => hnew (heq ▸ hseen)
      exact ⟨hnew, by simp [hne, hfind]⟩
    · next hseen =>
      rcases List.mem_cons.mp hfile with rfl | hfile
      · exact ⟨hseen, by simp⟩
      · obtain ⟨hnew, hfind⟩ := ih _ file hfile
        rw [List.mem_cons, not_or] at hnew
        exact ⟨hnew.2, by simp [Ne.symm hnew.1, hfind]⟩

/-- From nothing seen, the first file of each name is kept. -/
theorem firstOfEachName (files : List File) : FirstOfEachName files (firstByName [] files) := by
  refine ⟨sublist_firstByName [] files, ?_, fun file hfile =>
    (find?_firstByName [] files file hfile).2⟩
  rw [names_firstByName]
  simp

/-! ## Descriptor sets

What is read depends on the files that are there. That they are sets is a hypothesis, and what
happens where they are not is told in the module on conversions that fail.
-/

variable {fs fs' : FileSystem} {paths paths' : List String} {sets sets' : List (List File)}

/-- At the paths are descriptor sets, and these are their files. -/
def HoldsSets (fs : FileSystem) (paths : List String) (sets : List (List File)) : Prop :=
  List.Forall₂ (fun path set => ∃ bytes, fs.read? path = some bytes ∧
    decodeFileSet? bytes = some set) paths sets

theorem loadSet_eq_ok {path : String} {set : List File}
    (h : ∃ bytes, fs.read? path = some bytes ∧ decodeFileSet? bytes = some set) :
    loadSet fs path = .ok set := by
  obtain ⟨bytes, hbytes, hset⟩ := h
  rw [loadSet, hbytes]
  simp only [hset]

/-- **The forest** is what the sets hold together, of each name the first. -/
theorem HoldsSets.loadForest_eq (h : HoldsSets fs paths sets) :
    loadForest fs paths = .ok (firstByName [] sets.flatten) := by
  have hsets : paths.mapM (loadSet fs) = .ok sets :=
    mapM_eq_ok_iff.mpr (h.imp fun path set hset => loadSet_eq_ok hset)
  rw [ProtoSchema.loadForest_eq, hsets]
  rfl

/-- A set that comes again adds nothing. -/
theorem firstByName_flatten_repeated {front back : List (List File)} {set : List File}
    (h : set ∈ front) :
    firstByName [] (front ++ set :: back).flatten = firstByName [] (front ++ back).flatten := by
  rw [List.flatten_append, List.flatten_append, List.flatten_cons]
  exact firstByName_repeated (fun file hfile => List.mem_flatten.mpr ⟨set, h, hfile⟩) _

/-! ## The documents

The targets are those of the settings. They may depend on the forest, since all its files are
converted where none is named.
-/

section Run

variable {settings : ConvertSettings} {o : Options} {forest : List File}
  (hpaths : allInputPaths fs settings.inputs = .ok paths)
  (hforest : loadForest fs paths = .ok forest)
include hpaths hforest

/-- A request for the forest is answered with the documents that `convert` settles, or with the text
that it fails with. -/
theorem respond_eq (parameter : String) :
    (Request.mk (settings.targets forest) parameter forest).respond o =
      match settings.documents o fs with
      | .ok documents => { files := documents.map Document.toResponseFile }
      | .error e => .failure e.message := by
  have hdocuments : settings.documents o fs = o.resolve.mapError .options >>= fun p =>
      ((Session.mk forest p).generate (settings.targets forest)).result.mapError .session := by
    rw [ConvertSettings.documents, hpaths]
    cases o.resolve with
    | error c => rfl
    | ok p =>
      change (loadForest fs paths >>= _) = _
      rw [hforest]
      rfl
  rw [hdocuments, Request.respond]
  cases hp : o.resolve with
  | error c =>
    rw [Request.answer, hp]
    rfl
  | ok p =>
    cases hrun : ((Session.mk forest p).generate (settings.targets forest)).result with
    | ok documents =>
      rw [Request.answer_of_ok hp hrun]
      simp only [Except.mapError, bind, Except.bind, hrun]
    | error e =>
      rw [Request.answer_of_error hp hrun]
      simp only [Except.mapError, bind, Except.bind, hrun]
      rfl

end Run

/-! ## The run

A directory may have files of the names already, two documents may have one name, and a change may
fail half-way. The structure says what can be said in each of these cases.
-/

/-- The last file of a name is that of the last document of the name. -/
theorem findRev?_toResponseFile (documents : List Document) (name : String) :
    (documents.map Document.toResponseFile).findRev? (·.name = name) =
      (documents.findRev? (·.name = name)).map Document.toResponseFile := by
  rw [List.findRev?_eq_find?_reverse, List.findRev?_eq_find?_reverse, ← List.map_reverse,
    List.find?_map]
  rfl

/-- The run does with its documents what the response says. -/
structure ConvertSettings.Agrees (settings : ConvertSettings) (o : Options) (fs : FileSystem)
    (response : Response) : Prop where
  /-- without a directory the files of the response are printed, each with a line end behind it, and
  the run fails when the response has an error, with the same text -/
  printed : settings.out = none →
    runConvert settings o fs =
      ⟨(String.join (response.files.map fun file => file.content ++ "\n")).toUTF8.data.toList, fs,
        response.error⟩
  /-- in any case the run fails with the error of the response, and leaves nothing behind -/
  failed : ∀ text, response.error = some text → runConvert settings o fs = ⟨[], fs, some text⟩
  /-- when the response has no error, the run fails only where something cannot be written -/
  unwritten : response.error = none → ∀ text, (runConvert settings o fs).failure = some text →
    ∃ directory, settings.out = some directory ∧
      (text = (ConvertFailure.directory directory).message ∨ ∃ file ∈ response.files,
        text = (ConvertFailure.document (joinPath directory file.name)).message)
  /-- when everything is written, each name is there with the content of the last file of it -/
  written : ∀ directory, settings.out = some directory → response.error = none →
    (runConvert settings o fs).failure = none → (∀ file ∈ response.files, IsPlainName file.name) →
      (runConvert settings o fs).output = [] ∧ ∀ file ∈ response.files, ∃ last,
        response.files.findRev? (·.name = file.name) = some last ∧
        (runConvert settings o fs).files.read? (joinPath directory file.name) =
          some last.content.toUTF8.data.toList

namespace ConvertSettings

variable {settings : ConvertSettings} {o : Options}

/-- What cannot be settled is the error of a response. -/
theorem agrees_failure {e : ConvertFailure} (h : settings.documents o fs = .error e) :
    settings.Agrees o fs (.failure e.message) := by
  have hrun := runConvert_of_error h
  refine ⟨fun _ => hrun, fun text htext => ?_, fun hnone => (nomatch hnone),
    fun _ _ hnone => (nomatch hnone)⟩
  rw [hrun, ← Option.some.inj htext]

/-- Documents that are settled are printed and written, and the run fails as the first change of the
files that fails. -/
theorem runConvert_of_ok {documents : List Document}
    (h : settings.documents o fs = .ok documents) :
    runConvert settings o fs =
      ⟨(deliver settings.out documents).printed.toUTF8.data.toList,
        (applyChanges fs (deliver settings.out documents).changes).1,
        (applyChanges fs (deliver settings.out documents).changes).2.map fun change =>
          change.failure.message⟩ := by
  rw [runConvert, delivery, h]
  rfl

/-- What is settled is delivered as the files of a response. -/
theorem agrees_files {documents : List Document} (h : settings.documents o fs = .ok documents) :
    settings.Agrees o fs { files := documents.map Document.toResponseFile } := by
  have hrun := runConvert_of_ok h
  refine ⟨fun hout => ?_, fun text htext => (nomatch htext), fun _ text htext => ?_,
    fun directory hout _ hmade hplain => ?_⟩
  · -- printed: each file with a line end
    rw [hrun, hout]
    simp only [deliver, applyChanges, List.map_map]
    rfl
  · rw [hrun, Option.map_eq_some_iff] at htext
    -- a change that fails is that of the directory or of a file in it
    obtain ⟨change, hchange, rfl⟩ := htext
    obtain ⟨directory, hout, rfl | ⟨d, hd, rfl⟩⟩ := cases_of_deliver (Prod.ext rfl hchange)
    · exact ⟨directory, hout, Or.inl rfl⟩
    · exact ⟨directory, hout, Or.inr ⟨d.toResponseFile, List.mem_map_of_mem hd, rfl⟩⟩
  · rw [hrun, hout] at hmade ⊢
    refine ⟨rfl, fun file hfile => ?_⟩
    -- all changes were made, so that each name has the content of its last document
    have hplain' : ∀ d ∈ documents, IsPlainName d.name := fun d hd =>
      hplain d.toResponseFile (List.mem_map_of_mem hd)
    obtain ⟨d, hd, rfl⟩ := List.mem_map.mp hfile
    obtain ⟨last, hlast, hread⟩ :=
      read?_deliver hplain' (Prod.ext rfl (Option.map_eq_none_iff.mp hmade)) hd
    refine ⟨last.toResponseFile, ?_, hread⟩
    exact (findRev?_toResponseFile documents d.name).trans (congrArg _ hlast)

end ConvertSettings

/-- **Converting agrees with answering.** When there are descriptor sets at all paths that the
inputs stand for, the files of `convert` are those of all sets in a row, of each name the first.
They depend on this row alone, and a set that comes again changes nothing. For every request for
these files and the same targets, under the same options, the run of `convert` delivers the files of
the response, or fails with its error. -/
theorem runConvert_agrees {settings : ConvertSettings} (o : Options)
    (hpaths : allInputPaths fs settings.inputs = .ok paths) (hsets : HoldsSets fs paths sets) :
    ∃ forest, loadForest fs paths = .ok forest ∧ FirstOfEachName sets.flatten forest ∧
      (∀ fs' paths' sets', HoldsSets fs' paths' sets' → sets'.flatten = sets.flatten →
        loadForest fs' paths' = .ok forest) ∧
      (∀ fs' paths' front set back, sets = front ++ set :: back → set ∈ front →
        HoldsSets fs' paths' (front ++ back) → loadForest fs' paths' = .ok forest) ∧
      ∀ parameter, settings.Agrees o fs
        ((Request.mk (settings.targets forest) parameter forest).respond o) := by
  have hforest := hsets.loadForest_eq
  refine ⟨_, hforest, firstOfEachName _, ?_, ?_, fun parameter => ?_⟩
  · intro fs' paths' sets' hsets' hflatten
    rw [hsets'.loadForest_eq, hflatten]
  · rintro fs' paths' front set back rfl hset hsets'
    rw [hsets'.loadForest_eq, firstByName_flatten_repeated hset]
  · rw [respond_eq hpaths hforest]
    cases hdocuments : settings.documents o fs with
    | ok documents => exact ConvertSettings.agrees_files hdocuments
    | error e => exact ConvertSettings.agrees_failure hdocuments

/-! ### A shelf -/

namespace Shelf

/-- A file with an enum. -/
def file : File := { name := "a", enums := [{ name := "E" }] }

/-- A shelf with a descriptor set, which holds that file. -/
def disk : FileSystem :=
  ⟨.directory [("a.set", .file [10, 8, 10, 1, 97, 42, 3, 10, 1, 69])], []⟩

/-- The set is read twice, and the documents go to a directory that is not there yet. -/
def settings : ConvertSettings := ⟨["*.set", "a.set"], [], some "documents"⟩

/-- The set on the shelf is converted as a request for its file is answered. -/
theorem runConvert_agrees_shelf :
    allInputPaths disk settings.inputs = .ok ["a.set", "a.set"] ∧
    HoldsSets disk ["a.set", "a.set"] [[file], [file]] ∧
    ∃ forest, loadForest disk ["a.set", "a.set"] = .ok forest ∧
      settings.Agrees {} disk ((Request.mk (settings.targets forest) "" forest).respond {}) := by
  have hpaths : allInputPaths disk settings.inputs = .ok ["a.set", "a.set"] := by
    with_unfolding_all rfl
  have hset : ∃ bytes, disk.read? "a.set" = some bytes ∧ decodeFileSet? bytes = some [file] :=
    ⟨[10, 8, 10, 1, 97, 42, 3, 10, 1, 69], by with_unfolding_all rfl, by with_unfolding_all rfl⟩
  have hsets : HoldsSets disk ["a.set", "a.set"] [[file], [file]] := .cons hset (.cons hset .nil)
  obtain ⟨forest, hforest, -, -, -, hagrees⟩ := runConvert_agrees {} hpaths hsets
  exact ⟨hpaths, hsets, forest, hforest, hagrees ""⟩

example : ((runConvert settings {} disk).files.find? "documents").map (·.entries.map Prod.fst) =
    some ["E.jsonschema"] := by
  with_unfolding_all rfl

end Shelf

end ProtoSchema
