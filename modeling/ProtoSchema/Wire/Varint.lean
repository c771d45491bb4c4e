/-!
# Variable-length numbers

A number is written seven bits a byte, the lowest first, and every byte but the last has its high
bit set. Numbers have at most 64 bits: the tenth byte, when there is one, is the last and holds a
single bit. A number may be written longer than it has to be.

Main statements: reading gives back what was written and leaves what comes after it
(`readVarint_encodeVarint`), and what is left is shorter than what there was
(`length_lt_of_readVarint`).
-/

namespace ProtoSchema

/-- A row of bytes. -/
abbrev Bytes := List UInt8

/-! ## Writing -/

/-- The bytes of a number. -/
def encodeVarint (n : Nat) : Bytes :=
  if n < 128 then [UInt8.ofNat n] else UInt8.ofNat (n % 128 + 128) :: encodeVarint (n / 128)
termination_by n
decreasing_by omega

/-! ## Reading -/

/-- The number at the start of the bytes and what comes after it; `room` is how many bytes the
number may have left, of which the very last holds one bit. -/
def readVarintWithin : (room : Nat) → Bytes → Option (Nat × Bytes)
  | 0, _ => none
  | _, [] => none
  -- the 64th bit stands alone in the tenth byte
  | 1, b :: rest => if b.toNat < 2 then some (b.toNat, rest) else none
  | room + 2, b :: rest =>
    if b.toNat < 128 then some (b.toNat, rest)
    else (readVarintWithin (room + 1) rest).map fun (n, after) => (b.toNat - 128 + 128 * n, after)

/-- The number at the start of the bytes and what comes after it. -/
def readVarint (bytes : Bytes) : Option (Nat × Bytes) :=
  readVarintWithin 10 bytes

/-- A number has at least one byte. -/
theorem length_lt_of_readVarintWithin {room : Nat} {bytes after : Bytes} {n : Nat}
    (h : readVarintWithin room bytes = some (n, after)) : after.length < bytes.length := by
  fun_induction readVarintWithin room bytes generalizing n with
  | case1 => simp at h
  | case2 => simp at h
  | case3 b rest hb =>
    simp only [Option.some.injEq, Prod.mk.injEq] at h
    simp [← h.2]
  | case4 => simp at h
  | case5 room b rest hb =>
    simp only [Option.some.injEq, Prod.mk.injEq] at h
    simp [← h.2]
  | case6 room b rest hb ih =>
    obtain ⟨⟨m, r⟩, hm, he⟩ := Option.map_eq_some_iff.mp h
    simp only [Prod.mk.injEq] at he
    have := ih (he.2 ▸ hm)
    simp only [List.length_cons]
    omega

theorem length_lt_of_readVarint {bytes after : Bytes} {n : Nat}
    (h : readVarint bytes = some (n, after)) : after.length < bytes.length :=
  length_lt_of_readVarintWithin h

theorem toNat_ofNat_byte {n : Nat} (h : n < 256) : (UInt8.ofNat n).toNat = n := by
  simp [Nat.mod_eq_of_lt h]

/-- How many numbers fit into one byte of a single bit behind so many bytes of seven. -/
def varintCount : (bytes : Nat) → Nat
  | 0 => 2
  | bytes + 1 => 128 * varintCount bytes

/-- A number that fits into the room is read back. -/
theorem readVarintWithin_encodeVarint (room n : Nat) (h : n < varintCount room) (rest : Bytes) :
    readVarintWithin (room + 1) (encodeVarint n ++ rest) = some (n, rest) := by
  induction room generalizing n with
  | zero =>
    have hn : n < 2 := h
    rw [encodeVarint, if_pos (by omega)]
    simp [readVarintWithin, toNat_ofNat_byte (by omega : n < 256), hn]
  | succ room ih =>
    rw [encodeVarint]
    split
    · next hn =>
      simp [readVarintWithin, toNat_ofNat_byte (by omega : n < 256), hn]
    · next hn =>
      have hbyte := toNat_ofNat_byte (by omega : n % 128 + 128 < 256)
      have hdiv : n / 128 < varintCount room := by
        simp only [varintCount] at h
        omega
      simp only [List.cons_append, readVarintWithin, hbyte, ih (n / 128) hdiv]
      rw [if_neg (by omega)]
      simp only [Option.map_some, Option.some.injEq, Prod.mk.injEq, and_true]
      omega

/-- A number of 64 bits is read back. -/
theorem readVarint_encodeVarint {n : Nat} (h : n < UInt64.size) (rest : Bytes) :
    readVarint (encodeVarint n ++ rest) = some (n, rest) :=
  readVarintWithin_encodeVarint 9 n h rest

/-! ## Signed numbers -/

/-- The lowest 32 bits of a number, read as a signed number. -/
def signed32 (n : Nat) : Int := (UInt32.ofNat n).toInt32.toInt

end ProtoSchema
