import ProtoSchema.Proofs.Outcome
import ProtoSchema.Wire.Grammar
import ProtoSchema.Wire.Response

/-!
# The bytes of a response

A response is encoded as fields that hold bytes: what went wrong under one, then the files under
fifteen, and in each file its name under one and its text under fifteen (`Response.fields`,
`ResponseFile.fields`). These fields are read back from the bytes, whatever they hold, as long as
each count of bytes fits into 64 bits, and so the response is (`Response.decode?_encode`).

The reader is the one for requests: it takes tokens from any bytes, and keeps the records whose
numbers it knows. So what is proved is that bytes which were written are cut apart where they were
joined (`tokens_encodeFields`), for any fields, and the response is a case of it at two levels. A
file takes fewer bytes than the response it is part of, so that the bound on the one is a bound on
the other.
-/

namespace ProtoSchema

/-! ## Fields that hold bytes

The number and the kind of a field are one number in the bytes, its key, which the reader allows 32
bits. The count of the bytes that it holds may have 64.
-/

/-- Fields that hold bytes, one after the other. -/
def encodeFields (fields : List (Nat × Bytes)) : Bytes :=
  fields.flatMap fun f => delimitedField f.1 f.2

/-- The number of a field that holds bytes, and the bytes. -/
def Record.delimited? : Record → Option (Nat × Bytes)
  | ⟨number, .delimited bytes⟩ => some (number, bytes)
  | _ => none

/-- The known fields of a message whose fields all hold bytes. -/
def readDelimited (budget : Nat) (known : Nat → Bool) (bytes : Bytes) :
    Option (List (Nat × Bytes)) := do
  let records ← readRecords budget known bytes
  records.mapM Record.delimited?

/-- The bytes of the fields with that number, in order. -/
def bytesUnder (number : Nat) (fields : List (Nat × Bytes)) : List Bytes :=
  (fields.filter (·.1 = number)).map (·.2)

/-- The field can be written: its key has 32 bits at most, and the count of its bytes 64. -/
structure IsWritable (f : Nat × Bytes) : Prop where
  /-- field numbers start at one -/
  pos : 0 < f.1
  /-- the key has 32 bits at most -/
  key_lt : 8 * f.1 + 2 < UInt32.size
  /-- the count of the bytes has 64 bits at most -/
  length_lt : f.2.length < UInt64.size

/-- The first field that was written is the first token, whatever follows it. -/
theorem nextToken_delimitedField {f : Nat × Bytes} (h : IsWritable f) (rest : Bytes) :
    nextToken (delimitedField f.1 f.2 ++ rest) = some (.field ⟨f.1, .delimited f.2⟩, rest) := by
  have hkey : 8 * f.1 + 2 < UInt64.size := Nat.lt_trans h.key_lt (by decide)
  have hnumber : (8 * f.1 + 2) / 8 = f.1 := by omega
  have hkind : (8 * f.1 + 2) % 8 = 2 := by omega
  have hvalid : ¬ (UInt32.size ≤ 8 * f.1 + 2 ∨ f.1 = 0) := by
    have := h.pos
    have := h.key_lt
    omega
  rw [nextToken, delimitedField, List.append_assoc, List.append_assoc,
    readVarint_encodeVarint hkey]
  simp only [Option.bind_eq_bind, Option.bind_some, hnumber, hvalid, if_false, hkind,
    readVarint_encodeVarint h.length_lt, takeBytes_append, Option.map_some]

theorem tokens_of_next {bytes after : Bytes} {t : Token}
    (h : nextToken bytes = some (t, after)) : tokens bytes = (tokens after).map (t :: ·) := by
  rcases bytes with _ | ⟨b, bs⟩
  · cases h
  · rw [tokens]
    split
    · next h' =>
      rw [h] at h'
      cases h'
    · next t' after' h' =>
      obtain ⟨rfl, rfl⟩ := Prod.mk.inj (Option.some.inj (h.symm.trans h'))
      rfl

/-- Fields that were written are cut apart again. -/
theorem tokens_encodeFields {fields : List (Nat × Bytes)} (h : ∀ f ∈ fields, IsWritable f) :
    tokens (encodeFields fields) =
      some (fields.map fun f => .field ⟨f.1, .delimited f.2⟩) := by
  induction fields with
  | nil =>
    rw [encodeFields, List.flatMap_nil, tokens]
    rfl
  | cons f fields ih =>
    have hnext := nextToken_delimitedField (h f List.mem_cons_self) (encodeFields fields)
    have hcons : encodeFields (f :: fields) = delimitedField f.1 f.2 ++ encodeFields fields := rfl
    rw [hcons, tokens_of_next hnext, ih fun g hg => h g (List.mem_cons_of_mem f hg)]
    rfl

/-- Known fields outside groups are all kept. -/
theorem ungroup_map_field {budget : Nat} {known : Nat → Bool} {records : List Record}
    (h : ∀ r ∈ records, known r.number = true) :
    ungroup budget known [] (records.map .field) = some records := by
  induction records with
  | nil => rfl
  | cons r records ih =>
    rw [List.map_cons, ungroup, if_pos ⟨rfl, h r List.mem_cons_self⟩,
      ih fun s hs => h s (List.mem_cons_of_mem r hs)]
    rfl

/-- **Fields that were written** are read back. They are cut apart as they were joined, none of them
is in a group, and each has a number that is known. -/
theorem readDelimited_encodeFields (budget : Nat) {known : Nat → Bool}
    {fields : List (Nat × Bytes)} (h : ∀ f ∈ fields, IsWritable f)
    (hknown : ∀ f ∈ fields, known f.1 = true) :
    readDelimited budget known (encodeFields fields) = some fields := by
  have htokens := tokens_encodeFields h
  have hrecords : (fields.map fun f => Token.field ⟨f.1, .delimited f.2⟩) =
      (fields.map fun f => (⟨f.1, .delimited f.2⟩ : Record)).map .field := by
    rw [List.map_map]
    rfl
  have hungroup : ungroup budget known []
      ((fields.map fun f => (⟨f.1, .delimited f.2⟩ : Record)).map .field) = some _ :=
    ungroup_map_field (List.forall_mem_map.mpr hknown)
  rw [readDelimited, readRecords, htokens, hrecords]
  simp only [Option.bind_eq_bind, Option.bind_some, hungroup]
  exact mapM_map_eq_pure fun f _ => rfl

/-- No field holds more bytes than were written in all. -/
theorem length_le_of_mem_fields {fields : List (Nat × Bytes)} {f : Nat × Bytes}
    (h : f ∈ fields) : f.2.length ≤ (encodeFields fields).length := by
  obtain ⟨front, back, rfl⟩ := List.append_of_mem h
  simp only [encodeFields, List.flatMap_append, List.flatMap_cons, delimitedField,
    List.length_append]
  omega

/-! ## Responses

A reader of responses is not a part of the program, and is defined here as the protocol has it: of a
field that may stand once the last one counts.
-/

/-- The bytes of a text in UTF-8. -/
def textBytes (s : String) : Bytes := s.toUTF8.data.toList

/-- A text is read back from its bytes. -/
theorem decodeText_textBytes (s : String) : decodeText (textBytes s) = some s := by
  have hbytes : s.toUTF8.data.toList.toByteArray = s.toUTF8 := by
    apply ByteArray.ext
    rw [List.data_toByteArray, Array.toArray_toList]
  rw [decodeText, textBytes, hbytes]
  unfold String.fromUTF8?
  rw [String.toUTF8_eq_toByteArray, dif_pos s.isValidUTF8]
  rfl

/-- The fields of a file to write: its name and its text. -/
def ResponseFile.fields (f : ResponseFile) : List (Nat × Bytes) :=
  [(1, textBytes f.name), (15, textBytes f.content)]

/-- The fields of a response: what went wrong, and the files. -/
def Response.fields (r : Response) : List (Nat × Bytes) :=
  r.error.toList.map (fun message => (1, textBytes message)) ++ r.files.map fun f => (15, f.encode)

/-- Whether a response, or a file of it, has a field of that number. -/
def isResponseField (number : Nat) : Bool := number == 1 || number == 15

/-- The file to write that the bytes encode; of a field the last one counts. -/
def ResponseFile.decode? (bytes : Bytes) : Option ResponseFile := do
  let fields ← readDelimited (nestingLimit - 1) isResponseField bytes
  let names ← (bytesUnder 1 fields).mapM decodeText
  let contents ← (bytesUnder 15 fields).mapM decodeText
  some ⟨← names.getLast?, ← contents.getLast?⟩

/-- The response that the bytes encode; of what went wrong the last counts. -/
def Response.decode? (bytes : Bytes) : Option Response := do
  let fields ← readDelimited nestingLimit isResponseField bytes
  let errors ← (bytesUnder 1 fields).mapM decodeText
  let files ← (bytesUnder 15 fields).mapM ResponseFile.decode?
  some { error := errors.getLast?, files := files }

theorem ResponseFile.encode_eq (f : ResponseFile) : f.encode = encodeFields f.fields := by
  simp only [encode, textField, encodeFields, fields, textBytes, List.flatMap_cons,
    List.flatMap_nil, List.append_nil]

theorem Response.encode_eq (r : Response) : r.encode = encodeFields r.fields := by
  rw [encode, encodeFields, fields, List.flatMap_append]
  congr 1
  · cases r.error <;> simp [textField, textBytes]
  · rw [List.flatMap_map]

/-- The fields of a response can be written when all of it can be counted in 64 bits. -/
theorem isWritable_of_length_lt {fields : List (Nat × Bytes)}
    (hnumbers : ∀ f ∈ fields, isResponseField f.1 = true)
    (hlength : (encodeFields fields).length < UInt64.size) : ∀ f ∈ fields, IsWritable f := by
  intro f hf
  have hnumber : f.1 = 1 ∨ f.1 = 15 := by
    simpa [isResponseField] using hnumbers f hf
  have hsize : 8 * 15 + 2 < UInt32.size := by decide
  exact ⟨by omega, by omega, Nat.lt_of_le_of_lt (length_le_of_mem_fields hf) hlength⟩

theorem isResponseField_of_mem_file {f : ResponseFile} :
    ∀ g ∈ f.fields, isResponseField g.1 = true := by
  simp [ResponseFile.fields, isResponseField]

theorem isResponseField_of_mem {r : Response} : ∀ g ∈ r.fields, isResponseField g.1 = true := by
  intro g hg
  rcases List.mem_append.mp hg with hg | hg
  · obtain ⟨message, -, rfl⟩ := List.mem_map.mp hg
    rfl
  · obtain ⟨f, -, rfl⟩ := List.mem_map.mp hg
    rfl

/-- **A file** is read back from its bytes. -/
theorem ResponseFile.decode?_encode {f : ResponseFile} (h : f.encode.length < UInt64.size) :
    ResponseFile.decode? f.encode = some f := by
  rw [encode_eq] at h
  have hfields := readDelimited_encodeFields (nestingLimit - 1)
    (isWritable_of_length_lt isResponseField_of_mem_file h) isResponseField_of_mem_file
  have hname : bytesUnder 1 f.fields = [f.name].map textBytes := rfl
  have hcontent : bytesUnder 15 f.fields = [f.content].map textBytes := rfl
  have htexts : ∀ s : String, ([s].map textBytes).mapM decodeText = some [s] := fun s =>
    mapM_map_eq_pure fun t _ => decodeText_textBytes t
  rw [decode?, encode_eq, hfields]
  simp only [Option.bind_eq_bind, Option.bind_some, hname, hcontent, htexts]
  rfl

theorem bytesUnder_error (r : Response) :
    bytesUnder 1 r.fields = r.error.toList.map textBytes := by
  simp [bytesUnder, Response.fields, List.filter_map, Function.comp_def]

theorem bytesUnder_files (r : Response) :
    bytesUnder 15 r.fields = r.files.map ResponseFile.encode := by
  simp [bytesUnder, Response.fields, List.filter_map, Function.comp_def]

/-- A file takes no more bytes than the response that it is part of. -/
theorem Response.length_encode_le {r : Response} {f : ResponseFile} (h : f ∈ r.files) :
    f.encode.length ≤ r.encode.length := by
  have hmem : (15, f.encode) ∈ r.fields :=
    List.mem_append_right _ (List.mem_map.mpr ⟨f, h, rfl⟩)
  rw [encode_eq]
  exact length_le_of_mem_fields hmem

/-- **A response** is read back from its bytes. The fields are read first, then each file from the
bytes of its own field, one level further in. -/
theorem Response.decode?_encode {r : Response} (h : r.encode.length < UInt64.size) :
    Response.decode? r.encode = some r := by
  have hfile : ∀ f ∈ r.files, ResponseFile.decode? f.encode = some f := by
    intro f hf
    exact ResponseFile.decode?_encode (Nat.lt_of_le_of_lt (length_encode_le hf) h)
  rw [encode_eq] at h
  have hfields := readDelimited_encodeFields nestingLimit
    (isWritable_of_length_lt isResponseField_of_mem h) isResponseField_of_mem
  have herrors : (bytesUnder 1 r.fields).mapM decodeText = some r.error.toList := by
    rw [bytesUnder_error]
    exact mapM_map_eq_pure fun s _ => decodeText_textBytes s
  have hfiles : (bytesUnder 15 r.fields).mapM ResponseFile.decode? = some r.files := by
    rw [bytesUnder_files]
    exact mapM_map_eq_pure hfile
  rw [decode?, encode_eq, hfields]
  simp only [Option.bind_eq_bind, Option.bind_some, herrors, hfiles]
  obtain ⟨error, files⟩ := r
  cases error <;> rfl

end ProtoSchema
