import ProtoSchema.CommandLine.Run
import ProtoSchema.Proofs.ResponseBytes

/-!
# Answers of the plugin

Every input has one answer (`Answers`). An input that breaks off or is no request is answered with
that failure, a request whose switches are in conflict with the conflict, and any other with the
documents of its session or with the failure of the session. The cases of `Answers` say this of the
input alone. They do not run anything but the session, whose outcome is the matter of other modules.

This module shows that a run as a plugin prints the bytes of that answer and nothing else, also
where it fails, that it fails exactly when the answer says what went wrong, and that the answer is
read back from the bytes (`runPlugin_answers`). The proof has three parts:

* what is served is an answer (`answers_serve`), by going through the stages of `serve`;
* there is no other answer (`answers_iff`), as no two cases of `Answers` have a common input;
* the bytes are read back, which is `Response.decode?_encode` of the module before.
-/

namespace ProtoSchema

/-! ## The answer to an input

The words of the decoder are a part of the input here (`Input.complaint`), as they depend on how it
goes about the bytes, and the response repeats them behind its own.
-/

/-- The input holds the request. -/
structure Input.Holds (input : Input) (request : Request) : Prop where
  /-- it does not break off -/
  whole : input.broken = none
  /-- its bytes are those of the request -/
  decode_eq : Request.decode? input.bytes = some request

/-- Those switches are on that are given or named in the parameter of the request. -/
def Request.Unites (request : Request) (given o : Options) : Prop :=
  ∀ s : Switch, o.has s = true ↔ given.has s = true ∨ s.name ∈ parameterEntries request.parameter

/-- The response is the answer to the input, where these switches are given. -/
inductive Answers (given : Options) (input : Input) : Response → Prop where
  /-- an input that breaks off is answered with the cause -/
  | broken {cause : String} (h : input.broken = some cause) :
    Answers given input (.failure ("Failed to read input: " ++ (PluginError.read cause).message))
  /-- an input that is no request is answered with what is wrong with it -/
  | undecodable (hwhole : input.broken = none) (h : Request.decode? input.bytes = none) :
    Answers given input
      (.failure ("Failed to read input: " ++ (PluginError.decode input.complaint).message))
  /-- nullable values without unions are a conflict -/
  | conflict {request : Request} {o : Options} (h : input.Holds request)
    (ho : request.Unites given o) (hnull : o.has .allowNullValues = true)
    (hone : o.has .disallowOneOf = true) :
    Answers given input (.failure OptionConflict.nullWithoutOneOf.message)
  /-- a session that fails is answered with its failure -/
  | refused {request : Request} {o : Options} {p : Policy} {e : SessionError}
    (h : input.Holds request) (ho : request.Unites given o) (hp : o.resolve = .ok p)
    (he : ((⟨request.forest, p⟩ : Session).generate request.targets).result = .error e) :
    Answers given input (.failure e.message)
  /-- a session that does not fail is answered with its documents, in order -/
  | documents {request : Request} {o : Options} {p : Policy} {documents : List Document}
    (h : input.Holds request) (ho : request.Unites given o) (hp : o.resolve = .ok p)
    (hdocuments : ((⟨request.forest, p⟩ : Session).generate request.targets).result =
      .ok documents) :
    Answers given input { files := documents.map fun d => ⟨d.name, d.content⟩ }

/-- The switches of a request are those that its parameter turns on behind the given ones. Both are
records of flags, so that they are equal when they have the same flags. -/
theorem Request.unites_iff {request : Request} {given o : Options} :
    request.Unites given o ↔ o = request.options given := by
  have hoptions : request.Unites given (request.options given) := by
    intro s
    rw [options, Options.has_apply, Bool.or_eq_true, decide_eq_true_eq]
  constructor
  · intro h
    refine Options.ext_has fun s => Bool.eq_iff_iff.mpr ?_
    rw [h s, hoptions s]
  · rintro rfl
    exact hoptions

/-- The conflict is found whatever the other switches are. -/
theorem Options.resolve_of_conflict {o : Options} (hnull : o.has .allowNullValues = true)
    (hone : o.has .disallowOneOf = true) : o.resolve = .error .nullWithoutOneOf :=
  dif_pos ⟨hnull, hone⟩

/-- No other pair of switches is in conflict. -/
theorem Options.conflict_of_resolve {o : Options} {c : OptionConflict}
    (h : o.resolve = .error c) :
    c = .nullWithoutOneOf ∧ o.has .allowNullValues = true ∧ o.has .disallowOneOf = true := by
  rw [resolve] at h
  split at h
  · next hboth => exact ⟨(Except.error.inj h).symm, hboth.1, hboth.2⟩
  · cases h

/-! ## Serving

A run as a plugin is `serve`, with its response written out. The failure that the caller is told of
plays no part in the response.
-/

theorem readRequest_of_holds {input : Input} {request : Request} (h : input.Holds request) :
    readRequest input = .ok request := by
  rw [readRequest, h.whole]
  simp only [h.decode_eq]

theorem serve_of_holds (given : Options) {input : Input} {request : Request}
    (h : input.Holds request) :
    (serve given input).response = request.respond (request.options given) := by
  rw [serve, readRequest_of_holds h]

/-- What is served is an answer. -/
theorem answers_serve (given : Options) (input : Input) :
    Answers given input (serve given input).response := by
  rcases hbroken : input.broken with _ | cause
  · rcases hdecode : Request.decode? input.bytes with _ | request
    · have hread : readRequest input = .error (.decode input.complaint) := by
        rw [readRequest, hbroken]
        simp only [hdecode]
      rw [serve, hread]
      exact .undecodable hbroken hdecode
    · have h : input.Holds request := ⟨hbroken, hdecode⟩
      have ho : request.Unites given (request.options given) := Request.unites_iff.mpr rfl
      rw [serve_of_holds given h, Request.respond, Request.answer]
      rcases hp : (request.options given).resolve with c | p
      · obtain ⟨rfl, hnull, hone⟩ := Options.conflict_of_resolve hp
        exact .conflict h ho hnull hone
      · rcases hrun : ((⟨request.forest, p⟩ : Session).generate request.targets).result with
          e | documents
        · simp only [hrun]
          exact .refused h ho hp hrun
        · simp only [hrun]
          exact .documents h ho hp hrun
  · have hread : readRequest input = .error (.read cause) := by
      rw [readRequest, hbroken]
    rw [serve, hread]
    exact .broken hbroken

/-- **An input has one answer**, and that is what is served. -/
theorem answers_iff {given : Options} {input : Input} {response : Response} :
    Answers given input response ↔ response = (serve given input).response := by
  -- in each case of the answer the stages of `serve` have only one way to go
  refine ⟨fun h => ?_, fun h => h ▸ answers_serve given input⟩
  cases h with
  | broken h =>
    rw [serve, readRequest, h]
  | undecodable hwhole h =>
    rw [serve, readRequest, hwhole]
    simp only [h]
  | conflict h ho hnull hone =>
    obtain rfl := Request.unites_iff.mp ho
    rw [serve_of_holds given h, Request.respond, Request.answer,
      Options.resolve_of_conflict hnull hone]
  | refused h ho hp he =>
    obtain rfl := Request.unites_iff.mp ho
    rw [serve_of_holds given h, Request.respond, Request.answer, hp]
    simp only [he]
  | documents h ho hp hdocuments =>
    obtain rfl := Request.unites_iff.mp ho
    rw [serve_of_holds given h, Request.respond, Request.answer, hp]
    simp only [hdocuments]
    rfl

/-- An answer that says what went wrong has no files. -/
theorem Answers.files_eq_nil {given : Options} {input : Input} {response : Response}
    (h : Answers given input response) (herror : response.error ≠ none) : response.files = [] := by
  cases h with
  | documents => exact absurd rfl herror
  | _ => rfl

/-- The caller is told of a failure exactly when the response says what went wrong. -/
theorem failure_serve_eq_none_iff (given : Options) (input : Input) :
    (serve given input).failure = none ↔ (serve given input).response.error = none := by
  rw [serve]
  cases readRequest input with
  | error e => exact iff_of_false nofun nofun
  | ok request => rfl

/-- **The plugin answers.** Whatever the input and the given switches are, there is one answer, and
a run as a plugin prints its bytes, once, and leaves the files as they are. The run fails exactly
when the answer says what went wrong, and then the answer has no files. The bytes are the fields of
the answer, each behind its number and the count of its bytes, and the answer is read back from
them, as long as the count of all bytes fits into 64 bits. -/
theorem runPlugin_answers (given : Options) (input : Input) (files : FileSystem) :
    ∃ response : Response, (∀ r, Answers given input r ↔ r = response) ∧
      (runPlugin given input files).output = response.encode ∧
      writeResponse .unlimited response = .ok (runPlugin given input files).output ∧
      (runPlugin given input files).files = files ∧
      ((runPlugin given input files).failure = none ↔ response.error = none) ∧
      (response.error ≠ none → response.files = []) ∧
      (response.encode.length < UInt64.size →
        tokens response.encode =
            some (response.fields.map fun f => .field ⟨f.1, .delimited f.2⟩) ∧
          (∀ f ∈ response.files, tokens f.encode =
            some (f.fields.map fun g => .field ⟨g.1, .delimited g.2⟩)) ∧
          Response.decode? response.encode = some response) := by
  refine ⟨(serve given input).response, fun r => answers_iff, rfl, rfl, rfl,
    failure_serve_eq_none_iff given input, (answers_serve given input).files_eq_nil, fun h => ?_⟩
  refine ⟨?_, fun f hf => ?_, Response.decode?_encode h⟩
  · rw [Response.encode_eq] at h ⊢
    exact tokens_encodeFields (isWritable_of_length_lt isResponseField_of_mem h)
  · have hlt := Nat.lt_of_le_of_lt (Response.length_encode_le hf) h
    rw [ResponseFile.encode_eq] at hlt ⊢
    exact tokens_encodeFields (isWritable_of_length_lt isResponseField_of_mem_file hlt)

/-- A request, in bytes, for a file that declares an enum and nothing else. -/
def enumInput : Input :=
  { bytes := [10, 1, 97, 122, 8, 10, 1, 97, 42, 3, 10, 1, 69] }

/-- Bytes that are no request, as their first number never ends, with what a decoder says of
them. -/
def endlessInput : Input :=
  { bytes := [0xFF, 0xFF, 0xFF]
    complaint := "failed to decode Protobuf message: invalid varint" }

/-- The request is answered with the document of the enum, and the bytes that are no request are
answered with the words of the decoder. Both answers are read back from what is printed, and only
the second run fails. -/
theorem runPlugin_answers_enum :
    (∃ response : Response, Answers {} enumInput response ∧
      response.files.map (·.name) = ["E.jsonschema"] ∧
      (runPlugin {} enumInput ⟨.directory [], []⟩).failure = none ∧
      Response.decode? (runPlugin {} enumInput ⟨.directory [], []⟩).output = some response) ∧
    ∃ response : Response, Answers {} endlessInput response ∧
      response.error = some ("Failed to read input: can't unmarshal input: " ++
        "failed to decode Protobuf message: invalid varint") ∧
      response.files = [] ∧
      (runPlugin {} endlessInput ⟨.directory [], []⟩).failure ≠ none ∧
      Response.decode? (runPlugin {} endlessInput ⟨.directory [], []⟩).output = some response := by
  constructor
  · obtain ⟨response, hanswer, houtput, -, -, hfailure, -, hbytes⟩ :=
      runPlugin_answers {} enumInput ⟨.directory [], []⟩
    obtain rfl : (serve {} enumInput).response = response := (hanswer _).mp (answers_serve _ _)
    have hlength : (serve {} enumInput).response.encode.length < UInt64.size := by decide +kernel
    refine ⟨_, answers_serve _ _, by decide +kernel, hfailure.mpr (by decide +kernel), ?_⟩
    rw [houtput]
    exact (hbytes hlength).2.2
  · obtain ⟨response, hanswer, houtput, -, -, hfailure, hfiles, hbytes⟩ :=
      runPlugin_answers {} endlessInput ⟨.directory [], []⟩
    obtain rfl : (serve {} endlessInput).response = response := (hanswer _).mp (answers_serve _ _)
    have herror : (serve {} endlessInput).response.error =
        some ("Failed to read input: can't unmarshal input: " ++
          "failed to decode Protobuf message: invalid varint") := by decide +kernel
    have hfails : (serve {} endlessInput).response.error ≠ none := by
      rw [herror]
      exact Option.some_ne_none _
    have hlength : (serve {} endlessInput).response.encode.length < UInt64.size := by
      decide +kernel
    refine ⟨_, answers_serve _ _, herror, hfiles hfails, mt hfailure.mp hfails, ?_⟩
    rw [houtput]
    exact (hbytes hlength).2.2

end ProtoSchema
