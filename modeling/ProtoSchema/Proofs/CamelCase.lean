import ProtoSchema.PropertyName
import ProtoSchema.Text.Pieces

/-!
# Lower camel case

The conversion to lower camel case reads a name once, and only remembers whether an underscore
stands right before the next character. What it comes to is said without that: cut the name at its
underscores, leave the first piece as it is, and begin every later one in upper case
(`lowerCamelCase_pieces`). An empty piece adds nothing, so that it does not matter how many
underscores stand side by side, nor whether the name ends in one.

No upper case of another character has an underscore in it (`not_mem_upperCase`). So no underscore
is left, and what is in lower camel case stays as it is.
-/

namespace ProtoSchema

/-! ## Upper case has no underscore -/

/-- No two numbers stand for the same character, the null character apart. -/
theorem eq_of_ofNat_eq {n : Nat} {c : Char} (hc : c.toNat ≠ 0) (h : Char.ofNat n = c) :
    n = c.toNat := by
  by_cases hvalid : n.isValidChar
  · rw [Char.ofNat, dif_pos hvalid] at h
    subst h
    rfl
  · rw [Char.ofNat, dif_neg hvalid] at h
    subst h
    exact absurd rfl hc

/-- **The upper case** of a character that is no underscore has none in it. The table of upper cases
is looked at as a whole: no expansion holds an underscore, and no run moves a character onto one. -/
theorem not_mem_upperCase {c : Char} (hc : c ≠ '_') : '_' ∉ upperCase c := by
  have hexpansions : ∀ e ∈ caseExpansions, '_' ∉ e.2.map Char.ofNat := by decide +kernel
  -- no run is moved across the code point of the underscore
  have hruns : ∀ run ∈ caseRuns,
      ¬ (run.first + run.shift ≤ 0x5F ∧ 0x5F ≤ run.last + run.shift) := by decide +kernel
  unfold upperCase
  split
  · next expansion hlookup =>
    obtain ⟨front, back, htable, -⟩ := List.lookup_eq_some_iff.mp hlookup
    exact hexpansions (c.toNat, expansion) (by simp [htable])
  · split
    · next run hfind =>
      have hhas := List.find?_some hfind
      simp only [CaseRun.has, Bool.and_eq_true, decide_eq_true_eq] at hhas
      intro hmem
      have hshifted := eq_of_ofNat_eq (by decide) (List.mem_singleton.mp hmem).symm
      have hunderscore : ('_' : Char).toNat = 0x5F := rfl
      refine hruns run (List.mem_of_find?_eq_some hfind) ⟨?_, ?_⟩ <;> omega
    · simpa using Ne.symm hc

/-! ## Pieces -/

/-- The text with its first character in upper case. -/
def capitalized : List Char → List Char
  | [] => []
  | c :: cs => upperCase c ++ cs

/-- The first piece as it is, and every later one with its first character in upper case. -/
def camelPieces : List (List Char) → List Char
  | [] => []
  | first :: later => first ++ later.flatMap capitalized

/-- The two states of the loop: behind an underscore, the rest is a list of pieces to capitalize;
elsewhere the first of them goes on with the piece that is being read. -/
theorem camelCase_eq (cs : List Char) :
    camelCase true cs = (pieces '_' cs).flatMap capitalized ∧
      camelCase false cs = camelPieces (pieces '_' cs) := by
  induction cs with
  | nil => exact ⟨rfl, rfl⟩
  | cons c cs ih =>
    by_cases hc : c = '_'
    · -- an underscore ends an empty piece
      subst hc
      rw [pieces_cons_sep]
      exact ⟨ih.1, ih.1⟩
    · rw [pieces_cons_of_ne hc, camelCase, camelCase, if_neg hc, if_neg hc, ih.2]
      rcases hpieces : pieces '_' cs with _ | ⟨first, later⟩
      · exact absurd hpieces (pieces_ne_nil '_' cs)
      · simp [consFirst, camelPieces, capitalized]

/-- An empty piece adds nothing. -/
theorem flatMap_capitalized (ps : List (List Char)) :
    ps.flatMap capitalized = ((ps.filter (· ≠ [])).map capitalized).flatten := by
  induction ps with
  | nil => rfl
  | cons p ps ih => cases p <;> simp [capitalized, ih]

/-! ## No underscore is left -/

theorem not_mem_camelCase (raised : Bool) (cs : List Char) : '_' ∉ camelCase raised cs := by
  induction cs generalizing raised with
  | nil => exact List.not_mem_nil
  | cons c cs ih =>
    by_cases hc : c = '_'
    · rw [camelCase, if_pos hc]
      exact ih true
    · rw [camelCase, if_neg hc]
      cases raised with
      | true => simpa using ⟨not_mem_upperCase hc, ih false⟩
      | false => simpa using ⟨Ne.symm hc, ih false⟩

/-- A text without underscores is in lower camel case. -/
theorem camelCase_of_not_mem {cs : List Char} (h : '_' ∉ cs) : camelCase false cs = cs := by
  rw [(camelCase_eq cs).2, pieces_eq_singleton h, camelPieces, List.flatMap_nil, List.append_nil]

/-- **A name in lower camel case** is its first piece between underscores as it is, followed by
every later piece with its first character in upper case. It has no underscore, and is its own
lower camel case. -/
theorem lowerCamelCase_pieces (name : String) :
    (∃ first later, pieces '_' name.toList = first :: later ∧
      (lowerCamelCase name).toList =
        first ++ ((later.filter (· ≠ [])).map capitalized).flatten) ∧
    '_' ∉ (lowerCamelCase name).toList ∧
    lowerCamelCase (lowerCamelCase name) = lowerCamelCase name := by
  have hlist : (lowerCamelCase name).toList = camelCase false name.toList := String.toList_ofList
  have hnone : '_' ∉ (lowerCamelCase name).toList := by
    rw [hlist]
    exact not_mem_camelCase false name.toList
  refine ⟨?_, hnone, ?_⟩
  · rcases hpieces : pieces '_' name.toList with _ | ⟨first, later⟩
    · exact absurd hpieces (pieces_ne_nil '_' _)
    · refine ⟨first, later, rfl, ?_⟩
      rw [hlist, (camelCase_eq _).2, hpieces, camelPieces, flatMap_capitalized]
  · apply String.toList_injective
    rw [lowerCamelCase, String.toList_ofList, camelCase_of_not_mem hnone]

-- a character whose upper case is two characters, and underscores that add nothing
example : lowerCamelCase "line__ßtart_2_" = "lineSStart2" := by decide +kernel

end ProtoSchema
