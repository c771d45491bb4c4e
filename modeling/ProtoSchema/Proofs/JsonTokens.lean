import Mathlib.Data.List.TakeWhile
import ProtoSchema.Json

/-!
# Tokens of a JSON text

A text in JSON, as RFC 8259 has it, is made of brackets, commas, colons, three words, numbers and
strings, with blanks between them. `nextJsonToken` takes the first of these from a text. Numbers are
read with fraction and exponent and have to come to an integer, since the values here hold no other
numbers. In strings every escape is read, and the two halves of a surrogate pair are one character.

What is written for a string or an integer is read back as one token (`nextJsonToken_quoted`,
`nextJsonToken_decimal`). For strings this goes character by character: each is written by itself or
by one of two escapes, and each of the three is read back with its number. An integer ends where its
characters do, and so what follows it matters; in what is written here an item or a member is
followed by a comma or a line end (`EndsToken`).
-/

namespace ProtoSchema

/-! ## Numbers

A number is cut at the letter of its exponent and at its point, and its digits are put together to
one number, to be scaled by the exponent less the places behind the point.
-/

/-- Whether the characters are decimal digits, and at least one. -/
def areDigits (digits : List Char) : Bool := !digits.isEmpty && digits.all Char.isDigit

/-- Whether the characters may stand before the point: only a zero alone begins with a zero. -/
def areWholeDigits (digits : List Char) : Bool :=
  areDigits digits && (digits.head? != some '0' || digits.length == 1)

/-- The number that a row of decimal digits writes. -/
def numberOfDigits (digits : List Char) : Nat :=
  digits.foldl (fun n c => 10 * n + (c.toNat - 48)) 0

/-- The digits of a fraction, from the point on; there may be none. -/
def fractionDigits? : List Char → Option (List Char)
  | [] => some []
  | _ :: digits => if areDigits digits then some digits else none

/-- An exponent without the letter in front of it. -/
def signedDigits? : List Char → Option Int
  | '-' :: digits => if areDigits digits then some (-numberOfDigits digits) else none
  | '+' :: digits => if areDigits digits then some (numberOfDigits digits) else none
  | digits => if areDigits digits then some (numberOfDigits digits) else none

/-- The exponent, from its letter on; there may be none. -/
def exponent? : List Char → Option Int
  | [] => some 0
  | _ :: digits => signedDigits? digits

/-- The number times that power of ten, if it is an integer. -/
def scaleByTen (n : Nat) : Int → Option Nat
  | .ofNat k => some (n * Nat.pow 10 k)
  | .negSucc k => if n % Nat.pow 10 (k + 1) = 0 then some (n / Nat.pow 10 (k + 1)) else none

/-- A number without its sign: digits, perhaps a fraction, perhaps an exponent. -/
def magnitude? (text : List Char) : Option Nat :=
  let mantissa := text.takeWhile fun c => c != 'e' && c != 'E'
  let whole := mantissa.takeWhile (· != '.')
  if areWholeDigits whole then do
    let fraction ← fractionDigits? (mantissa.dropWhile (· != '.'))
    let exponent ← exponent? (text.dropWhile fun c => c != 'e' && c != 'E')
    scaleByTen (numberOfDigits (whole ++ fraction)) (exponent - fraction.length)
  else none

/-- A number. -/
def number? : List Char → Option Int
  | '-' :: text => (magnitude? text).map fun n => -(n : Int)
  | text => (magnitude? text).map fun n => (n : Int)

/-! ## Strings

The text is read to numbers first and to characters afterwards. A half of a surrogate pair is no
character, and which half may stand where is a matter of what comes next.
-/

/-- The character that a single character stands for behind a backslash. -/
def shortEscape? : Char → Option Char
  | '"' => some '"'
  | '\\' => some '\\'
  | '/' => some '/'
  | 'b' => some '\x08'
  | 'f' => some '\x0c'
  | 'n' => some '\n'
  | 'r' => some '\r'
  | 't' => some '\t'
  | _ => none

/-- The value of a hexadecimal digit, in upper or lower case. -/
def hexValue? (c : Char) : Option Nat :=
  if c.isDigit then some (c.toNat - 48)
  else if 'a' ≤ c ∧ c ≤ 'f' then some (c.toNat - 87)
  else if 'A' ≤ c ∧ c ≤ 'F' then some (c.toNat - 55)
  else none

/-- A number in four hexadecimal digits. -/
def hexUnit? (a b c d : Char) : Option Nat := do
  some (4096 * (← hexValue? a) + 256 * (← hexValue? b) + 16 * (← hexValue? c) + (← hexValue? d))

/-- The numbers of the characters of a string up to its closing quote, and what follows. A character
may be escaped by its number, and one outside the basic plane by those of its surrogates. -/
def readString : List Char → Option (List Nat × List Char)
  | [] => none
  | '"' :: rest => some ([], rest)
  | '\\' :: 'u' :: a :: b :: c :: d :: rest => do
    let unit ← hexUnit? a b c d
    let (units, after) ← readString rest
    some (unit :: units, after)
  | '\\' :: e :: rest => do
    let c ← shortEscape? e
    let (units, after) ← readString rest
    some (c.toNat :: units, after)
  | c :: rest =>
    if c = '\\' ∨ c.toNat < 32 then none
    else do
      let (units, after) ← readString rest
      some (c.toNat :: units, after)

/-- Whether the number is one half of a surrogate pair. -/
def isSurrogate (n : Nat) : Bool := 0xd800 ≤ n && n < 0xe000

/-- The characters of these numbers, the halves of surrogate pairs put together. -/
def joinSurrogates : List Nat → Option (List Char)
  | [] => some []
  | n :: rest =>
    if isSurrogate n then
      match rest with
      | m :: rest =>
        if n < 0xdc00 ∧ 0xdc00 ≤ m ∧ m < 0xe000 then
          let c := Char.ofNat (0x10000 + 0x400 * (n - 0xd800) + (m - 0xdc00))
          (joinSurrogates rest).map (c :: ·)
        else none
      | [] => none
    else (joinSurrogates rest).map (Char.ofNat n :: ·)

/-! ## Tokens

The first character tells what kind of token it is.
-/

/-- A token of a JSON text. -/
inductive JsonToken where
  /-- the bracket in front of the members of an object -/
  | openObject
  /-- the bracket behind the members of an object -/
  | closeObject
  /-- the bracket in front of the items of an array -/
  | openArray
  /-- the bracket behind the items of an array -/
  | closeArray
  /-- the separator of items and of members -/
  | comma
  /-- the separator of a key and its value -/
  | colon
  /-- null -/
  | null
  /-- true or false -/
  | boolean (b : Bool)
  /-- a number that is an integer -/
  | number (n : Int)
  /-- a string -/
  | string (s : String)
  deriving DecidableEq, Repr

/-- A token of one character. -/
def punctuation? : Char → Option JsonToken
  | '{' => some .openObject
  | '}' => some .closeObject
  | '[' => some .openArray
  | ']' => some .closeArray
  | ',' => some .comma
  | ':' => some .colon
  | _ => none

/-- A token that is a word. -/
def word? : List Char → Option JsonToken
  | ['n', 'u', 'l', 'l'] => some .null
  | ['t', 'r', 'u', 'e'] => some (.boolean true)
  | ['f', 'a', 'l', 's', 'e'] => some (.boolean false)
  | _ => none

/-- Whether the character can stand inside a number. -/
def isNumeric (c : Char) : Bool := c.isDigit || ['+', '-', '.', 'e', 'E'].contains c

/-- The token at the beginning of the text, and what follows it. A word and a number go as far as
their characters do. -/
def nextJsonToken : List Char → Option (JsonToken × List Char)
  | [] => none
  | c :: rest =>
    match punctuation? c with
    | some t => some (t, rest)
    | none =>
      if c = '"' then do
        let (units, after) ← readString rest
        let cs ← joinSurrogates units
        some (.string (String.ofList cs), after)
      else if c.isAlpha then
        (word? (c :: rest.takeWhile Char.isAlpha)).map (·, rest.dropWhile Char.isAlpha)
      else
        (number? (c :: rest.takeWhile isNumeric)).map fun n => (.number n, rest.dropWhile isNumeric)

/-! ## Progress

Each token is followed by a shorter text, which is what ends the reader.
-/

/-- A string takes at least its closing quote. -/
theorem length_lt_of_readString {text after : List Char} {units : List Nat}
    (h : readString text = some (units, after)) : after.length < text.length := by
  fun_induction readString text generalizing units with
  | case1 => cases h
  | case2 rest =>
    obtain ⟨-, rfl⟩ := Prod.mk.inj (Option.some.inj h)
    exact Nat.lt_succ_self _
  | case3 a b c d rest ih =>
    simp only [Option.bind_eq_bind, Option.bind_eq_some_iff, Prod.exists] at h
    obtain ⟨_, -, units', after', h', h⟩ := h
    obtain ⟨-, rfl⟩ := Prod.mk.inj (Option.some.inj h)
    have := ih h'
    simp only [List.length_cons]
    omega
  | case4 e rest _ ih =>
    simp only [Option.bind_eq_bind, Option.bind_eq_some_iff, Prod.exists] at h
    obtain ⟨_, -, units', after', h', h⟩ := h
    obtain ⟨-, rfl⟩ := Prod.mk.inj (Option.some.inj h)
    have := ih h'
    simp only [List.length_cons]
    omega
  | case5 => cases h
  | case6 c rest _ _ _ _ ih =>
    simp only [Option.bind_eq_bind, Option.bind_eq_some_iff, Prod.exists] at h
    obtain ⟨units', after', h', h⟩ := h
    obtain ⟨-, rfl⟩ := Prod.mk.inj (Option.some.inj h)
    exact Nat.lt_succ_of_lt (ih h')

/-- A token takes at least one character. -/
theorem length_lt_of_nextJsonToken {text after : List Char} {t : JsonToken}
    (h : nextJsonToken text = some (t, after)) : after.length < text.length := by
  rcases text with _ | ⟨c, rest⟩
  · cases h
  rw [List.length_cons, Nat.lt_succ_iff]
  rw [nextJsonToken] at h
  split at h
  · obtain ⟨-, rfl⟩ := Prod.mk.inj (Option.some.inj h)
    exact Nat.le_refl _
  · split at h
    · simp only [Option.bind_eq_bind, Option.bind_eq_some_iff, Prod.exists] at h
      obtain ⟨units, after', h', _, -, h⟩ := h
      obtain ⟨-, rfl⟩ := Prod.mk.inj (Option.some.inj h)
      exact Nat.le_of_lt (length_lt_of_readString h')
    · split at h <;> obtain ⟨_, -, h⟩ := Option.map_eq_some_iff.mp h <;>
        obtain ⟨-, rfl⟩ := Prod.mk.inj h <;> exact (List.dropWhile_suffix _).length_le

/-! ## Strings that were written -/

/-- No character is half a surrogate pair. -/
theorem joinSurrogates_map_toNat (cs : List Char) :
    joinSurrogates (cs.map Char.toNat) = some cs := by
  induction cs with
  | nil => rfl
  | cons c cs ih =>
    have hc : isSurrogate c.toNat = false := by
      have hvalid : c.toNat < 0xd800 ∨ 0xdfff < c.toNat ∧ c.toNat < 0x110000 := c.valid
      simp only [isSurrogate, Bool.and_eq_false_iff, decide_eq_false_iff_not]
      omega
    rw [List.map_cons, joinSurrogates.eq_def]
    simp [hc, ih, Char.ofNat_toNat]

theorem hexValue?_digitChar : ∀ n < 16, hexValue? (digitChar n) = some n := by decide

/-- A short escape is one character. -/
theorem readString_shortEscape {e c : Char} (h : shortEscape? e = some c) (rest : List Char) :
    readString ('\\' :: e :: rest) =
      (readString rest).map fun (units, after) => (c.toNat :: units, after) := by
  have hne : e ≠ 'u' := by
    rintro rfl
    cases h
  rw [readString]
  · rw [h]
    cases readString rest <;> rfl
  · exact fun _ _ _ _ _ he => absurd he hne

/-- An escape of four digits, of which two are written as zeros, is the character of that number. -/
theorem readString_hexEscape {n : Nat} (h : n < 256) (rest : List Char) :
    readString ('\\' :: 'u' :: '0' :: '0' :: digitChar (n / 16) :: digitChar (n % 16) :: rest) =
      (readString rest).map fun (units, after) => (n :: units, after) := by
  have hzero : hexValue? '0' = some 0 := rfl
  have hunit : hexUnit? '0' '0' (digitChar (n / 16)) (digitChar (n % 16)) = some n := by
    rw [hexUnit?, hzero, hexValue?_digitChar _ (by omega), hexValue?_digitChar _ (by omega)]
    simp only [Option.bind_eq_bind, Option.bind_some, Option.some.injEq]
    omega
  rw [readString, hunit]
  cases readString rest <;> rfl

/-- A character that needs no escape is read as it is. -/
theorem readString_plain {c : Char} (hquote : c ≠ '"') (hbackslash : c ≠ '\\')
    (hcontrol : ¬ c.toNat < 32) (rest : List Char) :
    readString (c :: rest) =
      (readString rest).map fun (units, after) => (c.toNat :: units, after) := by
  rw [readString]
  · rw [if_neg (not_or.mpr ⟨hbackslash, hcontrol⟩)]
    cases readString rest <;> rfl
  · exact fun h => hquote h
  · exact fun _ _ _ _ _ h => absurd h hbackslash
  · exact fun _ _ h => absurd h hbackslash

/-- An escaped character is read back. -/
theorem readString_escapeChar (c : Char) (rest : List Char) :
    readString (escapeChar c ++ rest) =
      (readString rest).map fun (units, after) => (c.toNat :: units, after) := by
  rw [escapeChar]
  iterate 7
    split
    · next h =>
      subst h
      exact readString_shortEscape rfl rest
  split
  · next h => exact readString_hexEscape (by omega) rest
  · next hcontrol => exact readString_plain ‹_› ‹_› hcontrol rest

/-- The characters of a string are read up to the quote that closes it, since a quote inside is
escaped. -/
theorem readString_escaped (cs rest : List Char) :
    readString (cs.flatMap escapeChar ++ '"' :: rest) = some (cs.map Char.toNat, rest) := by
  induction cs with
  | nil => rfl
  | cons c cs ih => rw [List.flatMap_cons, List.append_assoc, readString_escapeChar, ih]; rfl

/-- **A string** is read back, whatever follows it, as the closing quote is the first that is not
escaped. -/
theorem nextJsonToken_quoted (s : String) (rest : List Char) :
    nextJsonToken (quoted s rest) = some (.string s, rest) := by
  rw [quoted, nextJsonToken]
  have hpunctuation : punctuation? '"' = none := rfl
  simp only [hpunctuation, if_true, readString_escaped, Option.bind_eq_bind, Option.bind_some,
    joinSurrogates_map_toNat, String.ofList_toList]

/-! ## Integers that were written -/

/-- The text ends, or goes on with what stands behind an item or a member. -/
def EndsToken (text : List Char) : Prop := ∀ c ∈ text.head?, c = ',' ∨ c = '\n'

/-- What has only characters of a kind, to which comma and line end do not belong, ends where a
token may end. -/
theorem takeWhile_append_of_endsToken {p : Char → Bool} (hcomma : p ',' = false)
    (hline : p '\n' = false) {cs rest : List Char} (hcs : ∀ c ∈ cs, p c = true)
    (hrest : EndsToken rest) :
    (cs ++ rest).takeWhile p = cs ∧ (cs ++ rest).dropWhile p = rest := by
  rw [List.takeWhile_append_of_pos hcs, List.dropWhile_append_of_pos hcs]
  rcases rest with _ | ⟨c, rest⟩
  · exact ⟨List.append_nil cs, rfl⟩
  · have hc : p c = false := by
      rcases hrest c rfl with rfl | rfl
      · exact hcomma
      · exact hline
    rw [List.takeWhile_cons_of_neg (by simp [hc]), List.dropWhile_cons_of_neg (by simp [hc])]
    exact ⟨List.append_nil cs, rfl⟩

theorem exists_digit_of_mem {n : Nat} {c : Char} (h : c ∈ decimalDigits n) :
    ∃ k < 10, c = digitChar k := by
  fun_induction decimalDigits n with
  | case1 n hn => exact ⟨n, hn, List.mem_singleton.mp h⟩
  | case2 n hn ih =>
    rcases List.mem_append.mp h with h | h
    · exact ih h
    · exact ⟨n % 10, Nat.mod_lt n (by decide), List.mem_singleton.mp h⟩

theorem decimalDigits_ne_nil (n : Nat) : decimalDigits n ≠ [] := by
  rw [decimalDigits]
  split <;> simp

/-- No number but zero begins with a zero. -/
theorem head?_decimalDigits_ne {n : Nat} (h : 0 < n) : (decimalDigits n).head? ≠ some '0' := by
  fun_induction decimalDigits n with
  | case1 n hn =>
    have hdigit : ∀ k < 10, 0 < k → digitChar k ≠ '0' := by decide
    exact fun heq => hdigit n hn h (Option.some.inj heq)
  | case2 n hn ih =>
    rw [List.head?_append, List.head?_eq_some_head (decimalDigits_ne_nil _), Option.some_or]
    rw [← List.head?_eq_some_head]
    exact ih (by omega)

/-- The digits of a number write that number. -/
theorem numberOfDigits_decimalDigits (n : Nat) : numberOfDigits (decimalDigits n) = n := by
  have hdigit : ∀ k < 10, (digitChar k).toNat - 48 = k := by decide
  fun_induction decimalDigits n with
  | case1 n hn =>
    rw [numberOfDigits, List.foldl_cons, List.foldl_nil, hdigit n hn]
    omega
  | case2 n hn ih =>
    rw [numberOfDigits] at ih
    rw [numberOfDigits, List.foldl_append, ih, List.foldl_cons, List.foldl_nil,
      hdigit _ (Nat.mod_lt n (by decide))]
    omega

/-- They may stand in a number, as they do not begin with a zero that is not needed. -/
theorem areWholeDigits_decimalDigits (n : Nat) : areWholeDigits (decimalDigits n) = true := by
  have hdigit : ∀ k < 10, (digitChar k).isDigit = true := by decide
  have hdigits : (decimalDigits n).all Char.isDigit = true := by
    rw [List.all_eq_true]
    intro c hc
    obtain ⟨k, hk, rfl⟩ := exists_digit_of_mem hc
    exact hdigit k hk
  have hone : (decimalDigits n).head? ≠ some '0' ∨ (decimalDigits n).length = 1 := by
    rcases Nat.eq_zero_or_pos n with rfl | hn
    · exact Or.inr (by simp [decimalDigits])
    · exact Or.inl (head?_decimalDigits_ne hn)
  simpa [areWholeDigits, areDigits, decimalDigits_ne_nil, hdigits] using hone

theorem magnitude?_decimalDigits (n : Nat) : magnitude? (decimalDigits n) = some n := by
  have hdigit : ∀ k < 10, digitChar k ≠ 'e' ∧ digitChar k ≠ 'E' ∧ digitChar k ≠ '.' := by decide
  have hplain : ∀ c ∈ decimalDigits n, c ≠ 'e' ∧ c ≠ 'E' ∧ c ≠ '.' := by
    intro c hc
    obtain ⟨k, hk, rfl⟩ := exists_digit_of_mem hc
    exact hdigit k hk
  -- there is no exponent and no fraction
  have hexponent : ∀ c ∈ decimalDigits n, (c != 'e' && c != 'E') = true := by
    intro c hc
    simp [hplain c hc]
  have hfraction : ∀ c ∈ decimalDigits n, (c != '.') = true := by
    intro c hc
    simp [hplain c hc]
  rw [magnitude?, List.takeWhile_eq_self_iff.mpr hexponent, List.dropWhile_eq_nil_iff.mpr hexponent,
    List.takeWhile_eq_self_iff.mpr hfraction, List.dropWhile_eq_nil_iff.mpr hfraction,
    areWholeDigits_decimalDigits]
  simp [fractionDigits?, exponent?, numberOfDigits_decimalDigits, scaleByTen]

/-- The first character of an integer begins no other token. -/
theorem nextJsonToken_numeric {c : Char} (hc : c = '-' ∨ ∃ k < 10, c = digitChar k)
    {cs rest : List Char} (hcs : ∀ d ∈ cs, isNumeric d = true) (hrest : EndsToken rest) :
    nextJsonToken (c :: (cs ++ rest)) = (number? (c :: cs)).map fun n => (.number n, rest) := by
  have hdigit : ∀ k < 10, punctuation? (digitChar k) = none ∧ digitChar k ≠ '"' ∧
      (digitChar k).isAlpha = false := by decide
  have hfirst : punctuation? c = none ∧ c ≠ '"' ∧ c.isAlpha = false := by
    rcases hc with rfl | ⟨k, hk, rfl⟩
    · decide
    · exact hdigit k hk
  obtain ⟨htake, hdrop⟩ := takeWhile_append_of_endsToken rfl rfl hcs hrest
  rw [nextJsonToken, hfirst.1]
  simp only [hfirst.2.1, if_false, hfirst.2.2, Bool.false_eq_true, htake, hdrop]

theorem isNumeric_of_mem_decimalDigits {n : Nat} {c : Char} (h : c ∈ decimalDigits n) :
    isNumeric c = true := by
  have hdigit : ∀ k < 10, isNumeric (digitChar k) = true := by decide
  obtain ⟨k, hk, rfl⟩ := exists_digit_of_mem h
  exact hdigit k hk

theorem number?_decimal (n : Int) : number? (decimal n) = some n := by
  have hdigit : ∀ k < 10, digitChar k ≠ '-' := by decide
  cases n with
  | ofNat n =>
    have hdigits := magnitude?_decimalDigits n
    rcases hcs : decimalDigits n with _ | ⟨c, cs⟩
    · exact absurd hcs (decimalDigits_ne_nil n)
    · obtain ⟨k, hk, rfl⟩ := exists_digit_of_mem (hcs ▸ List.mem_cons_self : c ∈ decimalDigits n)
      rw [hcs] at hdigits
      rw [decimal, hcs, number?, hdigits]
      · rfl
      · exact fun _ h => absurd (List.cons.inj h).1 (hdigit k hk)
  | negSucc n =>
    rw [decimal, number?, magnitude?_decimalDigits]
    rfl

/-- An integer begins with a sign or a digit and goes on with what can stand inside a number. -/
theorem exists_decimal_eq_cons (n : Int) : ∃ c cs, decimal n = c :: cs ∧
    (c = '-' ∨ ∃ k < 10, c = digitChar k) ∧ ∀ d ∈ cs, isNumeric d = true := by
  cases n with
  | ofNat n =>
    have hmem : ∀ d ∈ decimalDigits n, isNumeric d = true := fun d => isNumeric_of_mem_decimalDigits
    rcases hcs : decimalDigits n with _ | ⟨c, cs⟩
    · exact absurd hcs (decimalDigits_ne_nil n)
    · rw [hcs] at hmem
      exact ⟨c, cs, hcs, Or.inr (exists_digit_of_mem (hcs ▸ List.mem_cons_self)),
        fun d hd => hmem d (List.mem_cons_of_mem c hd)⟩
  | negSucc n =>
    exact ⟨'-', decimalDigits (n + 1), rfl, Or.inl rfl, fun d => isNumeric_of_mem_decimalDigits⟩

/-- **An integer** is read back, where the text ends or goes on behind an item or a member. A number
has no end of its own, so that a digit behind it would be read as one of its digits. -/
theorem nextJsonToken_decimal (n : Int) {rest : List Char} (hrest : EndsToken rest) :
    nextJsonToken (decimal n ++ rest) = some (.number n, rest) := by
  have hnumber := number?_decimal n
  obtain ⟨c, cs, heq, hc, hcs⟩ := exists_decimal_eq_cons n
  rw [heq] at hnumber ⊢
  rw [List.cons_append, nextJsonToken_numeric hc hcs hrest, hnumber]
  rfl

/-- A word is read back, where the text ends or goes on behind an item or a member. -/
theorem nextJsonToken_word {w : List Char} {t : JsonToken} (ht : word? w = some t)
    {rest : List Char} (hrest : EndsToken rest) : nextJsonToken (w ++ rest) = some (t, rest) := by
  obtain ⟨c, cs, rfl, hletters⟩ : ∃ c cs, w = c :: cs ∧ punctuation? c = none ∧ c ≠ '"' ∧
      c.isAlpha = true ∧ cs.all Char.isAlpha = true := by
    rw [word?.eq_def] at ht
    split at ht
    · exact ⟨'n', ['u', 'l', 'l'], rfl, by decide⟩
    · exact ⟨'t', ['r', 'u', 'e'], rfl, by decide⟩
    · exact ⟨'f', ['a', 'l', 's', 'e'], rfl, by decide⟩
    · cases ht
  obtain ⟨hpunctuation, hquote, hc, hcs⟩ := hletters
  obtain ⟨htake, hdrop⟩ :=
    takeWhile_append_of_endsToken rfl rfl (List.all_eq_true.mp hcs) hrest
  rw [List.cons_append, nextJsonToken, hpunctuation]
  simp only [hquote, if_false, hc, if_true, htake, hdrop, ht, Option.map_some]

end ProtoSchema
