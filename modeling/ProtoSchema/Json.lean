/-!
# JSON values and their written form

The values a schema document is made of, and the text they are written as: one member or item a
line, four blanks of indentation a level, `": "` after a key, and an object without members as two
brackets on one line. Numbers are integers; a schema document holds no others.

A string is written between quotes. Only the quote, the backslash and the control characters are
escaped, the control characters by their short escape where there is one and else by four
hexadecimal digits in lower case.

Everything is written in front of what is to follow, so that no text is copied on the way out.
-/

namespace ProtoSchema

/-- A JSON value; the members of an object are in the order in which they are written. -/
inductive Json where
  /-- the null value -/
  | null
  /-- true or false -/
  | boolean (b : Bool)
  /-- an integer -/
  | integer (n : Int)
  /-- a string -/
  | string (s : String)
  /-- an array -/
  | array (items : List Json)
  /-- an object -/
  | object (members : List (String × Json))
  deriving Inhabited, Repr

/-! ## Digits -/

/-- The digit of a number below sixteen, letters in lower case. -/
def digitChar (n : Nat) : Char :=
  if n < 10 then Char.ofNat (48 + n) else Char.ofNat (87 + n)

/-- A number in decimal, without leading zeros. -/
def decimalDigits (n : Nat) : List Char :=
  if n < 10 then [digitChar n] else decimalDigits (n / 10) ++ [digitChar (n % 10)]
termination_by n
decreasing_by omega

/-- An integer in decimal, a negative one behind a minus sign. -/
def decimal : Int → List Char
  | .ofNat n => decimalDigits n
  | .negSucc n => '-' :: decimalDigits (n + 1)

/-- An integer in decimal, as a string. -/
def decimalText (n : Int) : String := String.ofList (decimal n)

/-! ## Strings -/

/-- A character inside a string, escaped where it has to be. -/
def escapeChar (c : Char) : List Char :=
  if c = '"' then ['\\', '"']
  else if c = '\\' then ['\\', '\\']
  else if c = '\x08' then ['\\', 'b']
  else if c = '\x0c' then ['\\', 'f']
  else if c = '\n' then ['\\', 'n']
  else if c = '\r' then ['\\', 'r']
  else if c = '\t' then ['\\', 't']
  else if c.toNat < 32 then
    ['\\', 'u', '0', '0', digitChar (c.toNat / 16), digitChar (c.toNat % 16)]
  else [c]

/-- A string between quotes, in front of `rest`. -/
def quoted (s : String) (rest : List Char) : List Char :=
  '"' :: (s.toList.flatMap escapeChar ++ '"' :: rest)

/-! ## Layout -/

/-- The end of a line and the indentation of the next, in front of `rest`. -/
def newLine (depth : Nat) (rest : List Char) : List Char :=
  '\n' :: (List.replicate (4 * depth) ' ' ++ rest)

/-- The separator of a key and its value, in front of `rest`. -/
def keySeparator (rest : List Char) : List Char :=
  ':' :: ' ' :: rest

mutual

/-- A value as it is written at the given depth, in front of `rest`. -/
def Json.write (depth : Nat) : Json → List Char → List Char
  | .null, rest => 'n' :: 'u' :: 'l' :: 'l' :: rest
  | .boolean true, rest => 't' :: 'r' :: 'u' :: 'e' :: rest
  | .boolean false, rest => 'f' :: 'a' :: 'l' :: 's' :: 'e' :: rest
  | .integer n, rest => decimal n ++ rest
  | .string s, rest => quoted s rest
  | .array [], rest => '[' :: ']' :: rest
  | .array (item :: items), rest =>
    '[' :: newLine (depth + 1) (item.write (depth + 1)
      (writeItems (depth + 1) items (newLine depth (']' :: rest))))
  | .object [], rest => '{' :: '}' :: rest
  | .object ((key, value) :: members), rest =>
    '{' :: newLine (depth + 1) (quoted key (keySeparator (value.write (depth + 1)
      (writeMembers (depth + 1) members (newLine depth ('}' :: rest))))))

/-- The items after the first, each on a line of its own behind a comma, in front of `rest`. -/
def writeItems (depth : Nat) : List Json → List Char → List Char
  | [], rest => rest
  | item :: items, rest =>
    ',' :: newLine depth (item.write depth (writeItems depth items rest))

/-- The members after the first, each on a line of its own behind a comma, in front of `rest`. -/
def writeMembers (depth : Nat) : List (String × Json) → List Char → List Char
  | [], rest => rest
  | (key, value) :: members, rest =>
    ',' :: newLine depth (quoted key (keySeparator (value.write depth
      (writeMembers depth members rest))))

end

/-- The text of a JSON document: no line end after the last bracket. -/
def Json.text (v : Json) : String := String.ofList (v.write 0 [])

end ProtoSchema
