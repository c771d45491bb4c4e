import ProtoSchema.Proofs.JsonTokens

/-!
# Reading JSON

A reader of the texts of RFC 8259, which takes a text token by token. Its state says which token may
come next, and holds the arrays and objects that are open with what was read of them
(`ReadState.step`). A text is read when it ends after one value; items and members come in the order
of the text.

What is written for a value is read back as that value, so that no two values have one text
(`Json.parse_text`). The reader is not made for what is written here: it takes any text that the
grammar allows, with blanks wherever they may stand, every escape, and numbers with fraction and
exponent.

The proof follows the value that was written, together with the rows of items and members
(`ReadState.read_write`). The induction has everything around the value open: the depth to which it
is indented, the arrays and objects around it, and the text behind it, of which only the first
character counts.
-/

namespace ProtoSchema

/-! ## The reader

The state has a stack, so that the reader goes through the text once and needs no recursion on the
depth of the value. The empty array and the empty object have states of their own, as no comma may
stand in front of a closing bracket.
-/

/-- An array or an object that waits for a value. -/
inductive OpenValue where
  /-- an array with the items before the value -/
  | array (items : List Json)
  /-- an object with the members before the value, and the key of the value -/
  | object (members : List (String × Json)) (key : String)

/-- What may come next; `opened` are the arrays and objects around it, the innermost first. -/
inductive ReadState where
  /-- a value -/
  | value (opened : List OpenValue)
  /-- the first item of an array, or its end -/
  | firstItem (opened : List OpenValue)
  /-- a comma behind the items of an array, or its end -/
  | afterItem (items : List Json) (opened : List OpenValue)
  /-- the first key of an object, or its end -/
  | firstKey (opened : List OpenValue)
  /-- a key -/
  | nextKey (members : List (String × Json)) (opened : List OpenValue)
  /-- the colon behind a key -/
  | colon (members : List (String × Json)) (key : String) (opened : List OpenValue)
  /-- a comma behind the members of an object, or its end -/
  | afterMember (members : List (String × Json)) (opened : List OpenValue)
  /-- nothing, the value is complete -/
  | done (v : Json)

namespace ReadState

/-- The state after a value inside these arrays and objects. -/
def deliver (v : Json) : List OpenValue → ReadState
  | [] => .done v
  | .array items :: opened => .afterItem (items ++ [v]) opened
  | .object members key :: opened => .afterMember (members ++ [(key, v)]) opened

/-- The state after the first token of a value. -/
def enter (opened : List OpenValue) : JsonToken → Option ReadState
  | .null => some (deliver .null opened)
  | .boolean b => some (deliver (.boolean b) opened)
  | .number n => some (deliver (.integer n) opened)
  | .string s => some (deliver (.string s) opened)
  | .openArray => some (.firstItem opened)
  | .openObject => some (.firstKey opened)
  | _ => none

/-- The state after a token. -/
def step : ReadState → JsonToken → Option ReadState
  | .value opened, t => enter opened t
  | .firstItem opened, .closeArray => some (deliver (.array []) opened)
  | .firstItem opened, t => enter (.array [] :: opened) t
  | .afterItem items opened, .comma => some (.value (.array items :: opened))
  | .afterItem items opened, .closeArray => some (deliver (.array items) opened)
  | .firstKey opened, .closeObject => some (deliver (.object []) opened)
  | .firstKey opened, .string key => some (.colon [] key opened)
  | .nextKey members opened, .string key => some (.colon members key opened)
  | .colon members key opened, .colon => some (.value (.object members key :: opened))
  | .afterMember members opened, .comma => some (.nextKey members opened)
  | .afterMember members opened, .closeObject => some (deliver (.object members) opened)
  | _, _ => none

end ReadState

/-- Whether the character may stand between tokens. -/
def isJsonBlank (c : Char) : Bool := c == ' ' || c == '\t' || c == '\n' || c == '\r'

/-- The state after a text. -/
def ReadState.read (state : ReadState) (text : List Char) : Option ReadState :=
  match h : nextJsonToken text with
  | some (t, after) =>
    have := length_lt_of_nextJsonToken h
    (state.step t).bind fun next => next.read after
  | none =>
    match text with
    | [] => some state
    | c :: rest => if isJsonBlank c then state.read rest else none
termination_by text.length

/-- The value that is written in a text. -/
def Json.parse (text : String) : Option Json :=
  match (ReadState.value []).read text.toList with
  | some (.done v) => some v
  | _ => none

example : Json.parse " [1.5e1,\t\"\\ud83d\\ude00\"]\r\n" =
    some (.array [.integer 15, .string "😀"]) := by
  cbv

/-! ## One token

The reader is defined by the length of the text that is left. It is opened here once, and then only
these equations are used.
-/

namespace ReadState

/-- A text that begins with a token is read by taking the token first. -/
theorem read_of_next {state : ReadState} {text after : List Char} {t : JsonToken}
    (h : nextJsonToken text = some (t, after)) :
    state.read text = (state.step t).bind fun next => next.read after := by
  rw [read]
  split
  · next t' after' h' =>
    obtain ⟨rfl, rfl⟩ := Prod.mk.inj (Option.some.inj (h.symm.trans h'))
    rfl
  · next h' =>
    rw [h] at h'
    cases h'

theorem read_nil (state : ReadState) : state.read [] = some state := by
  rw [read]
  rfl

/-- A blank between tokens is passed over, since no token begins with it. -/
theorem read_blank (state : ReadState) {c : Char} (h : c = ' ' ∨ c = '\n') (rest : List Char) :
    state.read (c :: rest) = state.read rest := by
  have hnone : nextJsonToken (c :: rest) = none := by
    rcases h with rfl | rfl <;> rfl
  have hblank : isJsonBlank c = true := by
    rcases h with rfl | rfl <;> rfl
  rw [read]
  split
  · next h' =>
    rw [hnone] at h'
    cases h'
  · exact if_pos hblank

/-- Line ends and indentation are passed over. -/
theorem read_newLine (state : ReadState) (depth : Nat) (rest : List Char) :
    state.read (newLine depth rest) = state.read rest := by
  rw [newLine, read_blank state (Or.inr rfl)]
  generalize 4 * depth = count
  induction count with
  | zero => rfl
  | succ count ih => rw [List.replicate_succ, List.cons_append, read_blank state (Or.inl rfl), ih]

/-- A bracket, a comma or a colon is a token wherever it stands between tokens. -/
theorem read_punctuation (state : ReadState) {c : Char} {t : JsonToken}
    (h : punctuation? c = some t) (rest : List Char) :
    state.read (c :: rest) = (state.step t).bind fun next => next.read rest := by
  have hnext : nextJsonToken (c :: rest) = some (t, rest) := by
    rw [nextJsonToken, h]
  exact read_of_next hnext

/-- A key and its separator lead to the value of the key. -/
theorem read_key {state : ReadState} {members : List (String × Json)} {key : String}
    {opened : List OpenValue} (h : state.step (.string key) = some (.colon members key opened))
    (rest : List Char) :
    state.read (quoted key (keySeparator rest)) =
      (ReadState.value (.object members key :: opened)).read rest := by
  rw [read_of_next (nextJsonToken_quoted key _), h, Option.bind_some, keySeparator,
    read_punctuation _ rfl, step, Option.bind_some, read_blank _ (Or.inl rfl)]

end ReadState

/-! ## Values that were written

Before a value there are two kinds of states, since the first item of an array comes behind the
bracket with no comma. `Expects` has both.
-/

theorem endsToken_nil : EndsToken [] := fun _ h => by cases h

theorem endsToken_newLine (depth : Nat) (rest : List Char) : EndsToken (newLine depth rest) := by
  rintro c ⟨⟩
  exact Or.inr rfl

/-- A token may end before the other items of an array, or before what follows them. -/
theorem endsToken_writeItems (depth : Nat) (items : List Json) {rest : List Char}
    (h : EndsToken rest) : EndsToken (writeItems depth items rest) := by
  cases items with
  | nil => exact h
  | cons item items =>
    rintro c ⟨⟩
    exact Or.inl rfl

theorem endsToken_writeMembers (depth : Nat) (members : List (String × Json)) {rest : List Char}
    (h : EndsToken rest) : EndsToken (writeMembers depth members rest) := by
  cases members with
  | nil => exact h
  | cons member members =>
    rintro c ⟨⟩
    exact Or.inl rfl

namespace ReadState

/-- The state is before a value inside these arrays and objects. -/
def Expects (state : ReadState) (opened : List OpenValue) : Prop :=
  ∀ t : JsonToken, t ≠ .closeArray → state.step t = enter opened t

theorem expects_value (opened : List OpenValue) : (ReadState.value opened).Expects opened :=
  fun _ _ => rfl

/-- Where the first item of an array may come next, a token other than the closing bracket begins
it. -/
theorem expects_firstItem (opened : List OpenValue) :
    (ReadState.firstItem opened).Expects (.array [] :: opened) := by
  intro t ht
  cases t <;> first | rfl | exact absurd rfl ht

/-- A value is entered by its first token. -/
theorem Expects.read_token {state : ReadState} {opened : List OpenValue} (h : state.Expects opened)
    {text after : List Char} (t : JsonToken) (ht : nextJsonToken text = some (t, after))
    (hne : t ≠ .closeArray) :
    state.read text = (enter opened t).bind fun next => next.read after := by
  rw [read_of_next ht, h t hne]

mutual

/-- A value is read back, whatever stands around it. -/
theorem read_write : (v : Json) → ∀ (depth : Nat) {state : ReadState} {opened : List OpenValue}
    {rest : List Char}, state.Expects opened → EndsToken rest →
    state.read (v.write depth rest) = (deliver v opened).read rest
  | .null, depth, state, opened, rest, h, hrest => by
    have hword : nextJsonToken ('n' :: 'u' :: 'l' :: 'l' :: rest) = some (.null, rest) :=
      nextJsonToken_word (w := ['n', 'u', 'l', 'l']) rfl hrest
    rw [Json.write, h.read_token .null hword nofun]
    rfl
  | .boolean true, depth, state, opened, rest, h, hrest => by
    have hword : nextJsonToken ('t' :: 'r' :: 'u' :: 'e' :: rest) = some (.boolean true, rest) :=
      nextJsonToken_word (w := ['t', 'r', 'u', 'e']) rfl hrest
    rw [Json.write, h.read_token (.boolean true) hword nofun]
    rfl
  | .boolean false, depth, state, opened, rest, h, hrest => by
    have hword :
        nextJsonToken ('f' :: 'a' :: 'l' :: 's' :: 'e' :: rest) = some (.boolean false, rest) :=
      nextJsonToken_word (w := ['f', 'a', 'l', 's', 'e']) rfl hrest
    rw [Json.write, h.read_token (.boolean false) hword nofun]
    rfl
  | .integer n, depth, state, opened, rest, h, hrest => by
    rw [Json.write, h.read_token (.number n) (nextJsonToken_decimal n hrest) nofun]
    rfl
  | .string s, depth, state, opened, rest, h, hrest => by
    rw [Json.write, h.read_token (.string s) (nextJsonToken_quoted s rest) nofun]
    rfl
  | .array [], depth, state, opened, rest, h, hrest => by
    rw [Json.write, h.read_token .openArray rfl nofun, enter, Option.bind_some,
      read_punctuation _ rfl]
    rfl
  | .array (item :: items), depth, state, opened, rest, h, hrest => by
    have hend := endsToken_newLine depth (']' :: rest)
    rw [Json.write, h.read_token .openArray rfl nofun, enter, Option.bind_some, read_newLine,
      read_write item (depth + 1) (expects_firstItem opened) (endsToken_writeItems _ items hend),
      deliver, read_writeItems items _ _ _ hend, read_newLine, read_punctuation _ rfl]
    rfl
  | .object [], depth, state, opened, rest, h, hrest => by
    rw [Json.write, h.read_token .openObject rfl nofun, enter, Option.bind_some,
      read_punctuation _ rfl]
    rfl
  | .object ((key, v) :: members), depth, state, opened, rest, h, hrest => by
    have hend := endsToken_newLine depth ('}' :: rest)
    rw [Json.write, h.read_token .openObject rfl nofun, enter, Option.bind_some, read_newLine,
      read_key rfl,
      read_write v (depth + 1) (expects_value _) (endsToken_writeMembers _ members hend), deliver,
      read_writeMembers members _ _ _ hend, read_newLine, read_punctuation _ rfl]
    rfl

/-- The items after the first are read back. -/
theorem read_writeItems : (items : List Json) → ∀ (depth : Nat) (first : List Json)
    (opened : List OpenValue) {rest : List Char}, EndsToken rest →
    (afterItem first opened).read (writeItems depth items rest) =
      (afterItem (first ++ items) opened).read rest
  | [], depth, first, opened, rest, hrest => by
    rw [writeItems, List.append_nil]
  | item :: items, depth, first, opened, rest, hrest => by
    rw [writeItems, read_punctuation _ rfl, step, Option.bind_some, read_newLine,
      read_write item depth (expects_value _) (endsToken_writeItems _ items hrest), deliver,
      read_writeItems items _ _ _ hrest, List.append_assoc, List.singleton_append]

/-- The members after the first are read back. -/
theorem read_writeMembers : (members : List (String × Json)) → ∀ (depth : Nat)
    (first : List (String × Json)) (opened : List OpenValue) {rest : List Char}, EndsToken rest →
    (afterMember first opened).read (writeMembers depth members rest) =
      (afterMember (first ++ members) opened).read rest
  | [], depth, first, opened, rest, hrest => by
    rw [writeMembers, List.append_nil]
  | (key, v) :: members, depth, first, opened, rest, hrest => by
    rw [writeMembers, read_punctuation _ rfl, step, Option.bind_some, read_newLine, read_key rfl,
      read_write v depth (expects_value _) (endsToken_writeMembers _ members hrest), deliver,
      read_writeMembers members _ _ _ hrest, List.append_assoc, List.singleton_append]

end

end ReadState

/-- **Writing is undone by reading.** The text of a value is the value with nothing around it and
nothing behind. -/
theorem Json.parse_text (v : Json) : Json.parse v.text = some v := by
  rw [parse, text, String.toList_ofList,
    ReadState.read_write v 0 (ReadState.expects_value []) endsToken_nil, ReadState.deliver,
    ReadState.read_nil]

end ProtoSchema
