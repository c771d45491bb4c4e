import ProtoSchema.Text.Pieces

/-!
# Patterns for file names

In a pattern `?` stands for any character, `*` for any row of characters, `[abc]` and `[a-z]` for
one character of a class and `[!abc]` for one outside it. A class has at least one member, so that
a closing bracket right behind the opening one is a member. A part `**` stands for any number of
directories, and has to be a part by itself.

The places in the texts of errors count characters from the start of the pattern.

Whether tokens match a name is a matter of what the first token takes: `matchesName_nil`,
`matchesName_sequence`, `matchesName_single_nil` and `matchesName_single_cons` say what follows.
-/

namespace ProtoSchema

/-! ## Tokens -/

/-- Characters of a class. -/
inductive ClassMember where
  /-- one character -/
  | single (c : Char)
  /-- all characters from the first to the last -/
  | range (first last : Char)
  deriving DecidableEq, Repr

/-- What a pattern is made of. -/
inductive GlobToken where
  /-- the character itself -/
  | char (c : Char)
  /-- any character -/
  | anyChar
  /-- any row of characters -/
  | anySequence
  /-- any number of directories -/
  | anyDirectories
  /-- a character of the class -/
  | oneOf (members : List ClassMember)
  /-- a character outside the class -/
  | noneOf (members : List ClassMember)
  deriving DecidableEq, Repr

/-- Why a text is no pattern. -/
structure PatternError where
  /-- the place of the error -/
  position : Nat
  /-- what is wrong there -/
  reason : String
  deriving DecidableEq, Repr

/-- The text of an error in a pattern. -/
def PatternError.message (e : PatternError) : String :=
  "Pattern syntax error near position " ++ toString e.position ++ ": " ++ e.reason

/-! ## Reading a pattern -/

/-- The members of a class: a dash between two characters makes a range. -/
def classMembers : List Char → List ClassMember
  | a :: '-' :: b :: rest => .range a b :: classMembers rest
  | a :: rest => .single a :: classMembers rest
  | [] => []

/-- The text up to the first closing bracket, and the text behind it. -/
def splitAtClose : List Char → Option (List Char × List Char)
  | [] => none
  | c :: cs =>
    if c = ']' then some ([], cs)
    else (splitAtClose cs).map fun (members, after) => (c :: members, after)

theorem length_lt_of_splitAtClose {cs members after : List Char}
    (h : splitAtClose cs = some (members, after)) : after.length < cs.length := by
  induction cs generalizing members with
  | nil => simp [splitAtClose] at h
  | cons c cs ih =>
    unfold splitAtClose at h
    split at h
    · simp only [Option.some.injEq, Prod.mk.injEq] at h
      simp [← h.2]
    · obtain ⟨⟨m, a⟩, hm, he⟩ := Option.map_eq_some_iff.mp h
      simp only [Prod.mk.injEq] at he
      have := ih (he.2 ▸ hm)
      simp only [List.length_cons]
      omega

/-- The tokens of a pattern; `i` is the place where the text stands in the pattern, and `partStart`
says whether a part starts there. -/
def globTokens (i : Nat) (partStart : Bool) (cs : List Char) :
    Except PatternError (List GlobToken) :=
  match cs with
  | [] => .ok []
  | '?' :: rest => (globTokens (i + 1) false rest).map (.anyChar :: ·)
  | '*' :: '*' :: '*' :: _ =>
    .error ⟨i + 2, "wildcards are either regular `*` or recursive `**`"⟩
  | '*' :: '*' :: rest =>
    -- the error stands at what is too much: behind the wildcard, or else in front of it
    if partStart then
      match rest with
      | [] => .ok [.anyDirectories]
      | '/' :: rest => (globTokens (i + 3) true rest).map (.anyDirectories :: ·)
      | _ => .error ⟨i + 2, "recursive wildcards must form a single path component"⟩
    else .error ⟨i - 1, "recursive wildcards must form a single path component"⟩
  | '*' :: rest => (globTokens (i + 1) false rest).map (.anySequence :: ·)
  | '[' :: '!' :: c :: rest =>
    -- `c` is a member even if it is a closing bracket
    match h : splitAtClose rest with
    | some (members, after) =>
      have := length_lt_of_splitAtClose h
      (globTokens (i + members.length + 4) false after).map
        (.noneOf (classMembers (c :: members)) :: ·)
    | none => .error ⟨i, "invalid range pattern"⟩
  | '[' :: c :: rest =>
    if c = '!' then .error ⟨i, "invalid range pattern"⟩
    else
      match h : splitAtClose rest with
      | some (members, after) =>
        have := length_lt_of_splitAtClose h
        (globTokens (i + members.length + 3) false after).map
          (.oneOf (classMembers (c :: members)) :: ·)
      | none => .error ⟨i, "invalid range pattern"⟩
  | '[' :: _ => .error ⟨i, "invalid range pattern"⟩
  | c :: rest => (globTokens (i + 1) (c = '/') rest).map (.char c :: ·)
termination_by cs.length

/-- A part of a pattern between slashes. -/
inductive GlobPart where
  /-- a name -/
  | name (s : String)
  /-- any number of directories -/
  | anyDirectories
  /-- every name that matches -/
  | wild (tokens : List GlobToken)
  deriving DecidableEq, Repr

/-- The character that a token stands for, when it stands for itself. -/
def GlobToken.literal? : GlobToken → Option Char
  | char c => some c
  | _ => none

/-- The part with these tokens. -/
def GlobPart.ofTokens (tokens : List GlobToken) : GlobPart :=
  match tokens.mapM GlobToken.literal? with
  | some cs => .name (String.ofList cs)
  | none => if tokens = [.anyDirectories] then .anyDirectories else .wild tokens

/-! ## Matching names -/

/-- Whether a character belongs to a class. -/
def inClass (members : List ClassMember) (c : Char) : Bool :=
  members.any fun
    | .single a => c = a
    | .range first last => first ≤ c && c ≤ last

/-- Whether a token stands for any row of characters, and not for one. -/
def GlobToken.isSequence : GlobToken → Bool
  | anySequence | anyDirectories => true
  | _ => false

/-- Whether a token that stands for one character can stand for this one. -/
def GlobToken.accepts : GlobToken → Char → Bool
  | char a, c => a = c
  | anyChar, _ => true
  | oneOf members, c => inClass members c
  | noneOf members, c => !inClass members c
  | anySequence, _ | anyDirectories, _ => false

/-- The text, and the text without its first character, and so on to the empty text. -/
def suffixes : List Char → List (List Char)
  | [] => [[]]
  | c :: cs => (c :: cs) :: suffixes cs

/-- For each place of a row, whether a mark is set there or later. -/
def setFrom : List Bool → List Bool
  | [] => []
  | mark :: marks =>
    let later := setFrom marks
    (mark || later.headD false) :: later

/-- For each suffix of the text, the text itself first, whether the tokens match it. The row comes
from the row of the tokens behind the first, so that every suffix is looked at once for every
token, however the rows of characters overlap. -/
def matchRow (cs : List Char) : List GlobToken → List Bool
  | [] => (suffixes cs).map List.isEmpty
  | t :: ts =>
    let row := matchRow cs ts
    if t.isSequence then setFrom row
    -- the empty suffix has no character to take
    else cs.zipWith (fun c later => t.accepts c && later) row.tail ++ [false]

/-- Whether the tokens match a whole name. -/
def matchesName (ts : List GlobToken) (cs : List Char) : Bool :=
  (matchRow cs ts).headD false

/-- Whether a part matches a name. -/
def GlobPart.fits : GlobPart → String → Bool
  | .name s, n => s = n
  | .anyDirectories, _ => true
  | .wild tokens, n => matchesName tokens n.toList

/-! ### What a match is -/

theorem setFrom_eq_nil {marks : List Bool} : setFrom marks = [] ↔ marks = [] := by
  cases marks <;> simp [setFrom]

theorem matchRow_ne_nil (cs : List Char) (ts : List GlobToken) : matchRow cs ts ≠ [] := by
  induction ts with
  | nil => cases cs <;> simp [matchRow, suffixes]
  | cons t ts ih =>
    simp only [matchRow]
    split
    · simpa [setFrom_eq_nil] using ih
    · simp

/-- The row of a text is the row of the text behind its first character, with one mark in front. -/
theorem matchRow_cons (c : Char) (cs : List Char) (ts : List GlobToken) :
    ∃ mark, matchRow (c :: cs) ts = mark :: matchRow cs ts := by
  induction ts with
  | nil => exact ⟨_, rfl⟩
  | cons t ts ih =>
    obtain ⟨mark, hrow⟩ := ih
    obtain ⟨next, marks, hnext⟩ := List.exists_cons_of_ne_nil (matchRow_ne_nil cs ts)
    simp only [matchRow, hrow]
    split
    · exact ⟨_, rfl⟩
    · exact ⟨t.accepts c && next, by simp [hnext]⟩

/-- The row holds the answers for the suffixes. -/
theorem matchRow_eq (cs : List Char) (ts : List GlobToken) :
    matchRow cs ts = (suffixes cs).map (matchesName ts) := by
  induction cs with
  | nil =>
    have hlen : ∀ ts, (matchRow [] ts).length = 1 := by
      intro ts
      induction ts with
      | nil => simp [matchRow, suffixes]
      | cons t ts ih =>
        obtain ⟨mark, hrow⟩ := List.length_eq_one_iff.mp ih
        simp only [matchRow, hrow]
        split <;> simp [setFrom]
    obtain ⟨mark, hrow⟩ := List.length_eq_one_iff.mp (hlen ts)
    simp [suffixes, matchesName, hrow]
  | cons c cs ih =>
    obtain ⟨mark, hrow⟩ := matchRow_cons c cs ts
    simp [suffixes, matchesName, hrow, ih]

theorem headD_setFrom (marks : List Bool) : (setFrom marks).headD false = marks.any id := by
  induction marks with
  | nil => rfl
  | cons mark marks ih => simp only [setFrom, List.headD_cons, ih, List.any_cons, id]

/-- No tokens match the empty name. -/
theorem matchesName_nil (cs : List Char) : matchesName [] cs = cs.isEmpty := by
  cases cs <;> rfl

/-- A row of characters may be skipped: what is left is any suffix of the name. -/
theorem matchesName_sequence {t : GlobToken} (h : t.isSequence = true) (ts : List GlobToken)
    (cs : List Char) : matchesName (t :: ts) cs = (suffixes cs).any (matchesName ts) := by
  rw [matchesName, matchRow, if_pos h, headD_setFrom, matchRow_eq, List.any_map]
  rfl

theorem matchesName_single_nil {t : GlobToken} (h : t.isSequence = false)
    (ts : List GlobToken) : matchesName (t :: ts) [] = false := by
  simp [matchesName, matchRow, h]

/-- A token that stands for one character takes the first of the name. -/
theorem matchesName_single_cons {t : GlobToken} (h : t.isSequence = false)
    (ts : List GlobToken) (c : Char) (cs : List Char) :
    matchesName (t :: ts) (c :: cs) = (t.accepts c && matchesName ts cs) := by
  obtain ⟨mark, hrow⟩ := matchRow_cons c cs ts
  obtain ⟨next, marks, hnext⟩ := List.exists_cons_of_ne_nil (matchRow_ne_nil cs ts)
  simp [matchesName, matchRow, h, hrow, hnext]

end ProtoSchema
