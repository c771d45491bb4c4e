import ProtoSchema.CommandLine.Convert

/-!
# Writing files into a directory

A path behind a directory is followed through the directory first and then by the name
(`FileSystem.locate_joinPath_eq_some_iff`). What is written there takes the place of a file or of
nothing, so that every directory stays a directory and the same paths lead to it
(`FileSystem.Keeps`). Of files written one after the other each is read again, of one name the last
(`read?_applyChanges`).

The directory may be given by any path, with slashes at its end, with steps upwards, or empty. Only
the names behind it have to be plain (`IsPlainName`), since a name with a slash or two dots would
lead to another place.

Two paths can lead to one file, so that it is not enough to compare them. What is compared are the
spots they lead to (`FileSystem.LeadsInto`): behind one directory, two plain names lead to different
spots.
-/

namespace ProtoSchema

/-! ## Paths behind a directory

Where a path is joined, a slash is put between directory and name unless the directory ends in one.
-/

/-- A name that stands for an entry of a directory. -/
structure IsPlainName (name : String) : Prop where
  /-- it is not empty -/
  ne_empty : name ≠ ""
  /-- it does not stand for the directory itself -/
  ne_dot : name ≠ "."
  /-- it does not lead upwards -/
  ne_dots : name ≠ ".."
  /-- it is one part of a path -/
  no_slash : '/' ∉ name.toList

variable {directory name : String}

theorem IsPlainName.stepPath_eq (h : IsPlainName name) (spot : Spot) :
    stepPath spot name = spot ++ [name] := by
  rw [stepPath, if_neg (not_or.mpr ⟨h.ne_empty, h.ne_dot⟩), if_neg h.ne_dots]

theorem startsWith_slash_iff {path : String} :
    path.startsWith "/" = true ↔ ∃ rest, path.toList = '/' :: rest := by
  rw [String.startsWith_string_iff]
  constructor
  · rintro ⟨rest, hrest⟩
    exact ⟨rest, hrest.symm⟩
  · rintro ⟨rest, hrest⟩
    exact ⟨rest, hrest.symm⟩

/-- A slash between two texts cuts the path there. -/
theorem pathParts_append (directory name : String) :
    pathParts (directory ++ "/" ++ name) = pathParts directory ++ pathParts name := by
  have hlist : (directory ++ "/" ++ name).toList = directory.toList ++ '/' :: name.toList := by
    simp
  rw [pathParts, hlist, pieces_append, List.map_append]
  rfl

theorem IsPlainName.pathParts_eq (h : IsPlainName name) : pathParts name = [name] := by
  rw [pathParts, pieces_eq_singleton h.no_slash, List.map_singleton, String.ofList_toList]

theorem IsPlainName.not_startsWith (h : IsPlainName name) : name.startsWith "/" = false := by
  refine Bool.eq_false_iff.mpr fun hslash => ?_
  obtain ⟨rest, hrest⟩ := startsWith_slash_iff.mp hslash
  exact h.no_slash (hrest ▸ List.mem_cons_self)

/-- The parts of a path behind the directory, without the name at its end. -/
def partsInto (directory : String) : List String :=
  if directory = "" then []
  -- the last slash is not doubled
  else if directory.endsWith "/" then (pathParts directory).dropLast
  else pathParts directory

theorem exists_of_endsWith_slash (h : directory.endsWith "/" = true) :
    ∃ before, directory = before ++ "/" := by
  rw [← String.endsWith_toSlice, String.Slice.endsWith_string_iff, String.copy_toSlice] at h
  obtain ⟨before, hbefore⟩ := h
  refine ⟨String.ofList before, String.toList_injective ?_⟩
  rw [String.toList_append, String.toList_ofList, hbefore]

/-- A path behind a directory has the parts of the directory and then the name. -/
theorem IsPlainName.pathParts_joinPath (h : IsPlainName name) (directory : String) :
    pathParts (joinPath directory name) = partsInto directory ++ [name] := by
  rw [joinPath, partsInto, h.not_startsWith, Bool.false_or]
  by_cases hempty : directory = ""
  · simp [hempty, h.pathParts_eq]
  · rw [if_neg (by simpa using hempty), if_neg hempty]
    by_cases hslash : directory.endsWith "/" = true
    · rw [if_pos hslash, if_pos hslash]
      obtain ⟨before, rfl⟩ := exists_of_endsWith_slash hslash
      have hparts : pathParts (before ++ "/") = pathParts before ++ [""] := by
        rw [← String.append_empty (s := before ++ "/"), pathParts_append]
        rfl
      rw [pathParts_append, hparts, List.dropLast_concat, h.pathParts_eq]
    · rw [if_neg hslash, if_neg hslash, pathParts_append, h.pathParts_eq]

/-- A path behind a directory is absolute when the directory is. -/
theorem IsPlainName.startsWith_joinPath (h : IsPlainName name) (directory : String) :
    (joinPath directory name).startsWith "/" = directory.startsWith "/" := by
  rw [joinPath, h.not_startsWith, Bool.false_or]
  by_cases hempty : directory = ""
  · rw [if_pos (by simpa using hempty), h.not_startsWith, hempty]
    with_unfolding_all rfl
  · have hbehind : ∀ text : String,
        (directory ++ text).startsWith "/" = directory.startsWith "/" := by
      intro text
      rw [Bool.eq_iff_iff, startsWith_slash_iff, startsWith_slash_iff, String.toList_append]
      rcases hchars : directory.toList with _ | ⟨c, cs⟩
      · exact absurd (String.toList_eq_nil_iff.mp hchars) hempty
      · simp
    rw [if_neg (by simpa using hempty)]
    split
    · exact hbehind name
    · rw [String.append_assoc, hbehind]

/-- A path behind a directory is not empty, even where the directory is. -/
theorem IsPlainName.joinPath_ne_empty (h : IsPlainName name) (directory : String) :
    joinPath directory name ≠ "" := by
  intro hempty
  have hparts := h.pathParts_joinPath directory
  rw [hempty] at hparts
  have hone : ([] : List String) ++ [""] = partsInto directory ++ [name] := hparts
  obtain ⟨-, hname⟩ := List.append_inj' hone rfl
  exact h.ne_empty (List.cons.inj hname).1.symm

namespace FileSystem

variable {fs fs' : FileSystem}

/-- Where the way along a path begins. -/
def startOf (fs : FileSystem) (path : String) : Spot :=
  if path.startsWith "/" then [] else fs.here

/-- The way into the directory leads to the spot, and there is a directory. -/
structure LeadsInto (fs : FileSystem) (directory : String) (spot : Spot) : Prop where
  /-- the way leads there -/
  walk_eq : fs.walk (fs.startOf directory) (partsInto directory) = some spot
  /-- a directory is there -/
  isDirectory : ∃ entries, fs.root.at? spot = some (.directory entries)

theorem LeadsInto.unique {spot spot' : Spot} (h : fs.LeadsInto directory spot)
    (h' : fs.LeadsInto directory spot') : spot = spot' :=
  Option.some.inj (h.walk_eq.symm.trans h'.walk_eq)

/-- The last part of a path is followed from the directory that the others lead to. -/
theorem walk_concat_eq_some_iff {start spot : Spot} {parts : List String} {part : String} :
    fs.walk start (parts ++ [part]) = some spot ↔
      ∃ d, fs.walk start parts = some d ∧ (∃ entries, fs.root.at? d = some (.directory entries)) ∧
        nameFits part = true ∧ spot = stepPath d part := by
  induction parts generalizing start with
  | nil =>
    simp only [List.nil_append, walk, Option.some.injEq, exists_eq_left']
    split
    · next entries hdirectory =>
      rw [hdirectory]
      by_cases hfits : nameFits part = true
      · simp [hfits, eq_comm]
      · simp [hfits]
    · next hnone =>
      refine iff_of_false nofun ?_
      rintro ⟨⟨entries, hdirectory⟩, -⟩
      exact hnone entries hdirectory
  | cons head rest ih =>
    rw [List.cons_append, walk, walk]
    split
    · split
      · exact ih
      · simp
    · simp

/-- The way to an entry of a directory. -/
theorem locate_joinPath_eq_some_iff (h : IsPlainName name) {spot : Spot} :
    fs.locate (joinPath directory name) = some spot ↔
      (joinPath directory name).utf8ByteSize < maxPathSize ∧ nameFits name = true ∧
        ∃ d, fs.LeadsInto directory d ∧ spot = d ++ [name] := by
  have hlocate : fs.locate (joinPath directory name) =
      if maxPathSize ≤ (joinPath directory name).utf8ByteSize then none
      else fs.walk (fs.startOf directory) (partsInto directory ++ [name]) := by
    rw [locate, h.startsWith_joinPath, h.pathParts_joinPath, startOf]
    simp only [h.joinPath_ne_empty, false_or]
    congr 1
    split <;> rfl
  rw [hlocate]
  by_cases hsize : maxPathSize ≤ (joinPath directory name).utf8ByteSize
  · rw [if_pos hsize]
    exact iff_of_false nofun fun hspot => absurd hspot.1 (Nat.not_lt.mpr hsize)
  · rw [if_neg hsize, walk_concat_eq_some_iff]
    constructor
    · rintro ⟨d, hwalk, hdirectory, hfits, rfl⟩
      exact ⟨Nat.lt_of_not_le hsize, hfits, d, ⟨hwalk, hdirectory⟩, h.stepPath_eq d⟩
    · rintro ⟨-, hfits, d, ⟨hwalk, hdirectory⟩, rfl⟩
      exact ⟨d, hwalk, hdirectory, hfits, (h.stepPath_eq d).symm⟩

/-! ## What stays

Files come and go as they are written over. What the next write needs is that the way into the
directory is still there.
-/

/-- Whatever was a directory still is one, and the program is run at the same place. -/
structure Keeps (fs fs' : FileSystem) : Prop where
  /-- the program is run at the same place -/
  here_eq : fs'.here = fs.here
  /-- directories are still there -/
  isDirectory : ∀ spot entries, fs.root.at? spot = some (.directory entries) →
    ∃ entries', fs'.root.at? spot = some (.directory entries')

/-- What leads through directories leads there still. -/
theorem Keeps.walk (h : fs.Keeps fs') {start spot : Spot} {parts : List String}
    (hwalk : fs.walk start parts = some spot) : fs'.walk start parts = some spot := by
  induction parts generalizing start with
  | nil => exact hwalk
  | cons part rest ih =>
    rw [FileSystem.walk] at hwalk ⊢
    split at hwalk
    · next entries hdirectory =>
      obtain ⟨entries', hdirectory'⟩ := h.isDirectory start entries hdirectory
      rw [hdirectory']
      by_cases hfits : nameFits part = true
      · simp only [hfits, if_true] at hwalk ⊢
        exact ih hwalk
      · simp [hfits] at hwalk
    · cases hwalk

theorem Keeps.leadsInto (h : fs.Keeps fs') {spot : Spot} (hspot : fs.LeadsInto directory spot) :
    fs'.LeadsInto directory spot := by
  obtain ⟨hwalk, entries, hdirectory⟩ := hspot
  refine ⟨?_, h.isDirectory spot entries hdirectory⟩
  rw [startOf, h.here_eq]
  exact h.walk hwalk

/-- A file that takes the place of a file or of nothing leaves the directories. -/
theorem exists_directory_place {content : Bytes} {spot : Spot} {t : FileTree}
    (hspot : ∀ entries, t.at? spot ≠ some (.directory entries)) {s : Spot}
    {entries : List (String × FileTree)} (hs : t.at? s = some (.directory entries)) :
    ∃ entries', (FileTree.place (.file content) spot t).at? s = some (.directory entries') := by
  induction spot generalizing t s with
  | nil =>
    -- nothing but the file stands there, and in it nothing
    cases t with
    | directory es => exact absurd rfl (hspot es)
    | file bytes =>
      cases s with
      | nil => cases hs
      | cons head rest => cases hs
  | cons name rest ih =>
    cases s with
    | nil => exact ⟨_, rfl⟩
    | cons head rest' =>
      simp only [FileTree.at?] at hs hspot
      rcases hchild : t.entries.lookup head with _ | child
      · rw [hchild] at hs
        cases hs
      · rw [hchild] at hs
        simp only [FileTree.place, FileTree.at?, FileTree.entries_directory, lookup_insertSorted]
        by_cases hhead : head = name
        · subst hhead
          rw [hchild] at hspot
          simp only [if_true, hchild, Option.getD_some]
          exact ih hspot hs
        · simp only [hhead, if_false, hchild]
          exact ⟨entries, hs⟩

/-! ## Writing one file

A write that succeeds changes the tree at one spot.
-/

/-- A file is written where its path leads, unless there is a directory. -/
theorem write?_eq_some_iff {path : String} {content : Bytes} :
    fs.write? path content = some fs' ↔ ∃ spot, fs.locate path = some spot ∧
      (∀ entries, fs.root.at? spot ≠ some (.directory entries)) ∧
      fs' = { fs with root := .place (.file content) spot fs.root } := by
  rw [write?]
  rcases fs.locate path with _ | spot
  · simp
  · simp only [Option.some.injEq, exists_eq_left']
    split
    · next entries hdirectory => simp [hdirectory]
    · next hnone =>
      rw [Option.some.injEq]
      exact ⟨fun h => ⟨hnone, h.symm⟩, fun h => h.2.symm⟩

theorem keeps_write {path : String} {content : Bytes} (h : fs.write? path content = some fs') :
    fs.Keeps fs' := by
  obtain ⟨spot, -, hspot, rfl⟩ := write?_eq_some_iff.mp h
  exact ⟨rfl, fun s entries hs => exists_directory_place hspot hs⟩

/-- **A file that is written** is read again, and in its directory no other one changes. Both paths
are followed into the directory, which leads to one spot before and after, and there the names tell
the entries apart. -/
theorem read?_write (hname : IsPlainName name) {content : Bytes}
    (h : fs.write? (joinPath directory name) content = some fs') {other : String}
    (hother : IsPlainName other) :
    fs'.read? (joinPath directory other) =
      if other = name then some content else fs.read? (joinPath directory other) := by
  have hkeeps := keeps_write h
  obtain ⟨spot, hlocate, -, hfs'⟩ := write?_eq_some_iff.mp h
  have hroot : fs'.root = .place (.file content) spot fs.root := by rw [hfs']
  obtain ⟨hsize, hfits, d, hd, rfl⟩ := (locate_joinPath_eq_some_iff hname).mp hlocate
  have hd' := hkeeps.leadsInto hd
  by_cases heq : other = name
  · subst heq
    have hlocate' := (locate_joinPath_eq_some_iff hname).mpr ⟨hsize, hfits, d, hd', rfl⟩
    rw [if_pos rfl, read?, find?, hlocate', hroot, Option.bind_some, FileTree.at?_place_self]
  · obtain ⟨entries, hentries⟩ := hd.isDirectory
    -- the way into the directory is the same before and after
    have hway : ∀ s, fs'.locate (joinPath directory other) = some s ↔
        fs.locate (joinPath directory other) = some s := by
      intro s
      rw [locate_joinPath_eq_some_iff hother, locate_joinPath_eq_some_iff hother]
      refine and_congr_right fun _ => and_congr_right fun _ => ?_
      constructor
      · rintro ⟨e, he, rfl⟩
        exact ⟨d, hd, by rw [he.unique hd']⟩
      · rintro ⟨e, he, rfl⟩
        exact ⟨e, hkeeps.leadsInto he, rfl⟩
    have hsame : fs'.find? (joinPath directory other) = fs.find? (joinPath directory other) := by
      rw [find?, find?, Option.ext hway]
      rcases hother' : fs.locate (joinPath directory other) with _ | s
      · rfl
      · obtain ⟨-, -, e, he, rfl⟩ := (locate_joinPath_eq_some_iff hother).mp hother'
        obtain rfl := he.unique hd
        rw [Option.bind_some, Option.bind_some, hroot]
        -- another entry of the directory is not touched
        exact FileTree.at?_place_of_ne _ _ heq _ hentries
    rw [if_neg heq, read?, hsame, read?]

end FileSystem

/-! ## Writing files one after the other

The induction is on the documents; the first is written, and the others find the directory as it
was.
-/

/-- **Files that are all written** are read again: of each name the last one, and what was there
where none has the name. The first file is written over when a later one has its name, so that it is
looked for among the later ones first. -/
theorem read?_applyChanges {documents : List Document} {fs fs' : FileSystem}
    (hplain : ∀ d ∈ documents, IsPlainName d.name)
    (h : applyChanges fs (documents.map fun d =>
      .writeFile (joinPath directory d.name) d.content) = (fs', none))
    (hname : IsPlainName name) :
    fs'.read? (joinPath directory name) =
      ((documents.findRev? (·.name = name)).map (·.content.toUTF8.data.toList)).or
        (fs.read? (joinPath directory name)) := by
  induction documents generalizing fs with
  | nil =>
    obtain ⟨rfl, -⟩ := Prod.mk.inj h
    rfl
  | cons d rest ih =>
    rw [List.map_cons, applyChanges] at h
    split at h
    · next fs₁ hwrite =>
      have hrest := ih (fun e he => hplain e (List.mem_cons_of_mem _ he)) h
      have hread := FileSystem.read?_write (hplain d List.mem_cons_self) hwrite hname
      rw [hrest, List.findRev?]
      cases hlater : rest.findRev? (·.name = name) with
      | some e => rfl
      | none =>
        rw [hread]
        by_cases hd : d.name = name
        · simp [hd]
        · simp [hd, Ne.symm hd]
    · cases h

theorem exists_findRev?_of_mem {documents : List Document} {d : Document} (hd : d ∈ documents) :
    ∃ last, documents.findRev? (·.name = d.name) = some last := by
  refine Option.ne_none_iff_exists'.mp fun hnone => ?_
  rw [List.findRev?_eq_find?_reverse, List.find?_eq_none] at hnone
  exact hnone d (List.mem_reverse.mpr hd) (decide_eq_true rfl)

/-- Documents that are all delivered to a directory are there, of each name the last. -/
theorem read?_deliver {documents : List Document} {fs fs' : FileSystem}
    (hplain : ∀ d ∈ documents, IsPlainName d.name)
    (h : applyChanges fs (deliver (some directory) documents).changes = (fs', none))
    {d : Document} (hd : d ∈ documents) :
    ∃ last, documents.findRev? (·.name = d.name) = some last ∧
      fs'.read? (joinPath directory d.name) = some last.content.toUTF8.data.toList := by
  obtain ⟨last, hlast⟩ := exists_findRev?_of_mem hd
  refine ⟨last, hlast, ?_⟩
  rw [deliver, applyChanges] at h
  split at h
  · rw [read?_applyChanges hplain h (hplain d hd), hlast]
    rfl
  · cases h

/-! ## What cannot be written -/

/-- The first change that cannot be made is one of the changes. -/
theorem mem_of_applyChanges {changes : List Change} {change : Change} {fs fs' : FileSystem}
    (h : applyChanges fs changes = (fs', some change)) : change ∈ changes := by
  induction changes generalizing fs with
  | nil => cases h
  | cons head rest ih =>
    rw [applyChanges] at h
    split at h
    · exact List.mem_cons_of_mem _ (ih h)
    · obtain rfl := Option.some.inj (Prod.mk.inj h).2
      exact List.mem_cons_self

/-- What cannot be delivered is the directory or a document in it. -/
theorem cases_of_deliver {out : Option String} {documents : List Document} {change : Change}
    {fs fs' : FileSystem}
    (h : applyChanges fs (deliver out documents).changes = (fs', some change)) :
    ∃ directory, out = some directory ∧ (change = .makeDirectory directory ∨
      ∃ d ∈ documents, change = .writeFile (joinPath directory d.name) d.content) := by
  have hmem := mem_of_applyChanges h
  cases out with
  | none => cases hmem
  | some directory =>
    refine ⟨directory, rfl, ?_⟩
    rcases List.mem_cons.mp hmem with hmake | hwrite
    · exact Or.inl hmake
    · obtain ⟨d, hd, heq⟩ := List.mem_map.mp hwrite
      exact Or.inr ⟨d, hd, heq.symm⟩

end ProtoSchema
