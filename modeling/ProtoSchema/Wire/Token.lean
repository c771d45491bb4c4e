import ProtoSchema.Wire.Varint

/-!
# Tokens of an encoded message

An encoded message is a row of fields, each behind a key that gives its number and how its value is
written. Besides values there are groups: a key that opens a group and a key that closes it, with
fields between. `tokens` cuts a message into fields, openings and closings without looking at what
the numbers mean; `ungroup` then leaves out the groups and the unknown fields, and says where they
are not allowed.

Messages hold messages, and a reader follows them only so far down: its *budget* is how many levels
are left. A group takes a level, and so does an unknown field that is passed over.
-/

namespace ProtoSchema

/-! ## Tokens -/

/-- How the value of a field is written. -/
inductive Payload where
  /-- a number of variable length -/
  | varint (n : Nat)
  /-- eight bytes -/
  | fixed64 (bytes : Bytes)
  /-- bytes behind their count -/
  | delimited (bytes : Bytes)
  /-- four bytes -/
  | fixed32 (bytes : Bytes)
  deriving DecidableEq, Repr

/-- A field with its number and value. -/
structure Record where
  /-- the number of the field -/
  number : Nat
  /-- the value of the field -/
  payload : Payload
  deriving DecidableEq, Repr

/-- What a message is made of on the surface. -/
inductive Token where
  /-- a field -/
  | field (record : Record)
  /-- the start of a group -/
  | openGroup (number : Nat)
  /-- the end of a group -/
  | closeGroup (number : Nat)
  deriving DecidableEq, Repr

/-- The first bytes, as many as asked for, and what comes after them. -/
def takeBytes (count : Nat) (bytes : Bytes) : Option (Bytes × Bytes) :=
  let taken := bytes.take count
  if taken.length = count then some (taken, bytes.drop count) else none

/-- The first token of a message and what comes after it. A key has at most 32 bits, its lowest
three say how the value is written, and field numbers start at one. -/
def nextToken (bytes : Bytes) : Option (Token × Bytes) := do
  let (key, rest) ← readVarint bytes
  let number := key / 8
  if UInt32.size ≤ key ∨ number = 0 then none
  else
    match key % 8 with
    | 0 => (readVarint rest).map fun (n, after) => (.field ⟨number, .varint n⟩, after)
    | 1 => (takeBytes 8 rest).map fun (taken, after) => (.field ⟨number, .fixed64 taken⟩, after)
    | 2 => do
      let (count, rest) ← readVarint rest
      (takeBytes count rest).map fun (taken, after) => (.field ⟨number, .delimited taken⟩, after)
    | 3 => some (.openGroup number, rest)
    | 4 => some (.closeGroup number, rest)
    | 5 => (takeBytes 4 rest).map fun (taken, after) => (.field ⟨number, .fixed32 taken⟩, after)
    -- nothing is written in the ways six and seven
    | _ => none

theorem takeBytes_eq_some {count : Nat} {bytes taken after : Bytes}
    (h : takeBytes count bytes = some (taken, after)) :
    bytes = taken ++ after ∧ taken.length = count := by
  simp only [takeBytes] at h
  split at h
  · next hlen =>
    simp only [Option.some.injEq, Prod.mk.injEq] at h
    rw [← h.1, ← h.2]
    exact ⟨(List.take_append_drop count bytes).symm, hlen⟩
  · simp at h

/-- The bytes asked for are there. -/
theorem takeBytes_append (taken after : Bytes) :
    takeBytes taken.length (taken ++ after) = some (taken, after) := by
  simp [takeBytes]

theorem length_le_of_takeBytes {count : Nat} {bytes taken after : Bytes}
    (h : takeBytes count bytes = some (taken, after)) : after.length ≤ bytes.length := by
  rw [(takeBytes_eq_some h).1]
  simp

/-- A token takes at least one byte. -/
theorem length_lt_of_nextToken {bytes after : Bytes} {t : Token}
    (h : nextToken bytes = some (t, after)) : after.length < bytes.length := by
  unfold nextToken at h
  simp only [Option.bind_eq_bind, Option.bind_eq_some_iff, Prod.exists] at h
  obtain ⟨key, rest, hkey, h⟩ := h
  have hlt := length_lt_of_readVarint hkey
  split at h
  · simp at h
  · split at h
    · obtain ⟨⟨n, a⟩, hn, he⟩ := Option.map_eq_some_iff.mp h
      have := length_lt_of_readVarint hn
      simp only [Prod.mk.injEq] at he
      rw [← he.2]
      omega
    · obtain ⟨⟨t, a⟩, ht, he⟩ := Option.map_eq_some_iff.mp h
      have := length_le_of_takeBytes ht
      simp only [Prod.mk.injEq] at he
      rw [← he.2]
      omega
    · simp only [Option.bind_eq_some_iff, Prod.exists] at h
      obtain ⟨count, rest', hcount, h⟩ := h
      obtain ⟨⟨t, a⟩, ht, he⟩ := Option.map_eq_some_iff.mp h
      have := length_lt_of_readVarint hcount
      have := length_le_of_takeBytes ht
      simp only [Prod.mk.injEq] at he
      rw [← he.2]
      omega
    · simp only [Option.some.injEq, Prod.mk.injEq] at h
      rw [← h.2]
      exact hlt
    · simp only [Option.some.injEq, Prod.mk.injEq] at h
      rw [← h.2]
      exact hlt
    · obtain ⟨⟨t, a⟩, ht, he⟩ := Option.map_eq_some_iff.mp h
      have := length_le_of_takeBytes ht
      simp only [Prod.mk.injEq] at he
      rw [← he.2]
      omega
    · simp at h

/-- All tokens of a message. -/
def tokens (bytes : Bytes) : Option (List Token) :=
  match bytes with
  | [] => some []
  | b :: bs =>
    match h : nextToken (b :: bs) with
    | none => none
    | some (t, after) =>
      have : after.length < bs.length + 1 := length_lt_of_nextToken h
      (tokens after).map (t :: ·)
termination_by bytes.length

/-! ## Groups and unknown fields -/

/-- The known fields outside groups, in order. `opened` are the numbers of the groups that are
open, the innermost first. An unknown field or an opening needs a level of the budget beyond those
that the open groups take; a closing has to close the innermost group; and no group may stay open
or stand at a known number. -/
def ungroup (budget : Nat) (known : Nat → Bool) (opened : List Nat) :
    List Token → Option (List Record)
  | [] => if opened = [] then some [] else none
  | .field r :: rest =>
    if opened = [] ∧ known r.number then (ungroup budget known opened rest).map (r :: ·)
    else if opened.length < budget then ungroup budget known opened rest
    else none
  | .openGroup n :: rest =>
    if opened = [] ∧ known n then none
    else if opened.length < budget then ungroup budget known (n :: opened) rest
    else none
  | .closeGroup n :: rest =>
    match opened with
    | [] => none
    | innermost :: others => if n = innermost then ungroup budget known others rest else none

/-- The known fields of an encoded message. -/
def readRecords (budget : Nat) (known : Nat → Bool) (bytes : Bytes) : Option (List Record) := do
  ungroup budget known [] (← tokens bytes)

end ProtoSchema
