/-!
# Text cut at a separator

Names are dotted, parameters are separated by commas, paths by slashes: all of them are cut in the
same way. `pieces` keeps empty pieces, so that nothing is lost: joining the pieces with the
separator gives the text back (`joinWith_pieces`), no piece holds the separator
(`not_mem_of_mem_pieces`), and cutting commutes with appending at a separator (`pieces_append`).

`components` and `segments` are the two views of a dotted name: `components` keeps the empty ones
(type names are read so), `segments` drops them (package names are read so).
-/

namespace ProtoSchema

/-! ## Pieces -/

/-- Put a character in front of the first piece. -/
def consFirst (c : Char) : List (List Char) → List (List Char)
  | [] => [[c]]
  | p :: ps => (c :: p) :: ps

/-- Cut the text at every occurrence of the separator; there is one piece more than separators. -/
def pieces (sep : Char) : List Char → List (List Char)
  | [] => [[]]
  | c :: cs => if c = sep then [] :: pieces sep cs else consFirst c (pieces sep cs)

/-- The texts in a row with the separator between neighbours. -/
def joinWith (sep : Char) : List (List Char) → List Char
  | [] => []
  | [p] => p
  | p :: q :: ps => p ++ sep :: joinWith sep (q :: ps)

@[simp] theorem pieces_nil (sep : Char) : pieces sep [] = [[]] := rfl

theorem pieces_cons_sep (sep : Char) (cs : List Char) :
    pieces sep (sep :: cs) = [] :: pieces sep cs := by
  simp [pieces]

theorem pieces_cons_of_ne {sep c : Char} (h : c ≠ sep) (cs : List Char) :
    pieces sep (c :: cs) = consFirst c (pieces sep cs) := by
  simp [pieces, h]

theorem consFirst_ne_nil (c : Char) (ps : List (List Char)) : consFirst c ps ≠ [] := by
  cases ps <;> simp [consFirst]

/-- There is always a first piece. -/
theorem pieces_ne_nil (sep : Char) (cs : List Char) : pieces sep cs ≠ [] := by
  cases cs with
  | nil => simp
  | cons c cs =>
    unfold pieces
    split
    · simp
    · exact consFirst_ne_nil _ _

theorem consFirst_append (c : Char) {ps : List (List Char)} (h : ps ≠ []) (qs : List (List Char)) :
    consFirst c ps ++ qs = consFirst c (ps ++ qs) := by
  cases ps with
  | nil => exact absurd rfl h
  | cons p ps => rfl

/-- A separator between two texts cuts them apart. -/
theorem pieces_append (sep : Char) (xs ys : List Char) :
    pieces sep (xs ++ sep :: ys) = pieces sep xs ++ pieces sep ys := by
  induction xs with
  | nil => simp [pieces]
  | cons c xs ih =>
    by_cases h : c = sep
    · simp [pieces, h, ih]
    · simp only [List.cons_append, pieces, h, if_false, ih]
      exact (consFirst_append c (pieces_ne_nil sep xs) _).symm

theorem joinWith_consFirst (sep c : Char) {ps : List (List Char)} (h : ps ≠ []) :
    joinWith sep (consFirst c ps) = c :: joinWith sep ps := by
  match ps, h with
  | [p], _ => rfl
  | p :: q :: ps, _ => rfl

theorem joinWith_nil_cons (sep : Char) {ps : List (List Char)} (h : ps ≠ []) :
    joinWith sep ([] :: ps) = sep :: joinWith sep ps := by
  match ps, h with
  | p :: ps, _ => rfl

/-- Cutting loses nothing. -/
theorem joinWith_pieces (sep : Char) (cs : List Char) : joinWith sep (pieces sep cs) = cs := by
  induction cs with
  | nil => rfl
  | cons c cs ih =>
    by_cases h : c = sep
    · rw [h, pieces_cons_sep, joinWith_nil_cons sep (pieces_ne_nil sep cs), ih]
    · rw [pieces_cons_of_ne h, joinWith_consFirst sep c (pieces_ne_nil sep cs), ih]

/-- The separator is in no piece. -/
theorem not_mem_of_mem_pieces {sep : Char} {cs p : List Char} (h : p ∈ pieces sep cs) :
    sep ∉ p := by
  induction cs generalizing p with
  | nil =>
    simp only [pieces_nil, List.mem_singleton] at h
    simp [h]
  | cons c cs ih =>
    by_cases hc : c = sep
    · rw [hc, pieces_cons_sep] at h
      rcases List.mem_cons.mp h with h | h
      · simp [h]
      · exact ih h
    · rw [pieces_cons_of_ne hc] at h
      cases hps : pieces sep cs with
      | nil => exact absurd hps (pieces_ne_nil sep cs)
      | cons q qs =>
        rw [hps] at h ih
        rcases List.mem_cons.mp h with h | h
        · have := ih List.mem_cons_self
          simp [h, this, Ne.symm hc]
        · exact ih (List.mem_cons_of_mem _ h)

/-- A text without the separator is its only piece. -/
theorem pieces_eq_singleton {sep : Char} {cs : List Char} (h : sep ∉ cs) :
    pieces sep cs = [cs] := by
  induction cs with
  | nil => rfl
  | cons c cs ih =>
    simp only [List.mem_cons, not_or] at h
    rw [pieces_cons_of_ne (Ne.symm h.1), ih h.2]
    rfl

/-! ## Dotted names -/

/-- The parts of a dotted name, empty ones included: `".a.B"` has the parts `""`, `"a"`, `"B"`. -/
def components (name : String) : List String :=
  (pieces '.' name.toList).map String.ofList

/-- The segments of a package name: its non-empty parts. A leading or doubled dot adds none. -/
def segments (package : String) : List String :=
  (components package).filter (· ≠ "")

theorem components_ne_nil (name : String) : components name ≠ [] := by
  simp [components, pieces_ne_nil]

theorem ne_empty_of_mem_segments {package s : String} (h : s ∈ segments package) : s ≠ "" := by
  simpa using (List.mem_filter.mp h).2

/-- A dot between two names separates their parts. -/
theorem components_append (a b : String) :
    components (a ++ "." ++ b) = components a ++ components b := by
  have hlist : (a ++ "." ++ b).toList = a.toList ++ '.' :: b.toList := by simp
  rw [components, hlist, pieces_append, List.map_append]
  rfl

theorem segments_append (a b : String) : segments (a ++ "." ++ b) = segments a ++ segments b := by
  rw [segments, components_append, List.filter_append]
  rfl

/-- An empty part in front is what stands in front of a leading dot. -/
theorem exists_of_components_eq {name : String} {parts : List String} (hparts : parts ≠ [])
    (h : components name = "" :: parts) : ∃ tail, name = "." ++ tail ∧ components tail = parts := by
  rw [components] at h
  rcases hchars : name.toList with _ | ⟨c, cs⟩
  · rw [hchars, pieces_nil] at h
    exact absurd (List.cons.inj h).2.symm hparts
  · by_cases hc : c = '.'
    · subst hc
      refine ⟨String.ofList cs, ?_, ?_⟩
      · apply String.toList_injective
        simp [hchars]
      · rw [hchars, pieces_cons_sep] at h
        rw [components, String.toList_ofList]
        exact (List.cons.inj h).2
    · -- the first part holds the character
      rw [hchars, pieces_cons_of_ne hc] at h
      rcases hpieces : pieces '.' cs with _ | ⟨p, ps⟩
      · exact absurd hpieces (pieces_ne_nil '.' cs)
      · rw [hpieces] at h
        have hempty := congrArg String.toList (List.cons.inj h).1
        rw [String.toList_ofList] at hempty
        cases hempty

/-- A name without dots is its only part. -/
theorem components_eq_singleton {s : String} (h : '.' ∉ s.toList) : components s = [s] := by
  rw [components, pieces_eq_singleton h, List.map_singleton, String.ofList_toList]

/-- A leading dot leaves an empty part in front. -/
theorem components_dot_append (tail : String) :
    components ("." ++ tail) = "" :: components tail := by
  have hempty : components "" = [""] := components_eq_singleton List.not_mem_nil
  have happend := components_append "" tail
  rw [String.empty_append, hempty] at happend
  exact happend

theorem not_mem_of_mem_components {name part : String} (h : part ∈ components name) :
    '.' ∉ part.toList := by
  obtain ⟨p, hp, rfl⟩ := List.mem_map.mp h
  rw [String.toList_ofList]
  exact not_mem_of_mem_pieces hp

/-- What a package can be called inside the one around it: anything but nothing, without dots. -/
def IsSegment (s : String) : Prop := s ≠ "" ∧ '.' ∉ s.toList

instance (s : String) : Decidable (IsSegment s) := inferInstanceAs (Decidable (_ ∧ _))

theorem isSegment_of_mem_segments {package s : String} (h : s ∈ segments package) :
    IsSegment s :=
  ⟨ne_empty_of_mem_segments h, not_mem_of_mem_components (List.mem_filter.mp h).1⟩

theorem IsSegment.segments_eq {s : String} (h : IsSegment s) : segments s = [s] := by
  rw [segments, components_eq_singleton h.2]
  simp [h.1]

/-! ## Names made of parts -/

/-- The name with a dot in front of each part: the parts `a` and `B` make `.a.B`. -/
def dottedName : List String → String
  | [] => ""
  | part :: rest => "." ++ part ++ dottedName rest

theorem dottedName_append (path : List String) (part : String) :
    dottedName (path ++ [part]) = dottedName path ++ "." ++ part := by
  induction path with
  | nil => simp [dottedName]
  | cons head rest ih => simp only [List.cons_append, dottedName, ih, String.append_assoc]

/-- A dotted name is cut into its parts, behind the empty part in front of its first dot. -/
theorem components_dottedName {path : List String} (h : ∀ part ∈ path, '.' ∉ part.toList) :
    components (dottedName path) = "" :: path := by
  have key : ∀ (path : List String) (front : String), '.' ∉ front.toList →
      (∀ part ∈ path, '.' ∉ part.toList) →
        components (front ++ dottedName path) = front :: path := by
    intro path
    induction path with
    | nil =>
      intro front hfront _
      rw [dottedName, String.append_empty]
      exact components_eq_singleton hfront
    | cons part rest ih =>
      intro front hfront hpath
      have hsplit : front ++ dottedName (part :: rest) =
          front ++ "." ++ (part ++ dottedName rest) := by
        simp only [dottedName, String.append_assoc]
      have hrest := ih part (hpath part List.mem_cons_self)
        fun p hp => hpath p (List.mem_cons_of_mem _ hp)
      rw [hsplit, components_append, components_eq_singleton hfront, hrest]
      rfl
  simpa using key path "" (by simp) h

/-- A name that is made of segments has them as its segments. -/
theorem segments_dottedName {path : List String} (h : ∀ part ∈ path, IsSegment part) :
    segments (dottedName path) = path := by
  rw [segments, components_dottedName fun part hpart => (h part hpart).2, List.filter_cons]
  simpa using fun part hpart => (h part hpart).1

end ProtoSchema
