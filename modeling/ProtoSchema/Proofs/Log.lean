import ProtoSchema.Plugin
import ProtoSchema.Proofs.Targets
import ProtoSchema.Proofs.Visits

/-!
# The log of a request

The log of a request accounts for what the conversion of its targets does
(`Session.accounts_generate`), and it announces the documents that come of it
(`Session.announces_generate`). Both are said of a message first, then of a file, of a target and of
all targets, and each step is one lemma on rows of computations.

An address grows on the way: in the session it has the number of the target in front, then that of
the message in its file, and then the address of the field in the message. Addresses are compared
from the front, so that a warning comes before a failure in the log exactly when its address does.

`Request.answer_log` reads the log level by level. Of the notes only announcements count, and the
accounts are of the lines above notes (`Entry.isSerious`): the warnings are there for what is
missed, and the failures for the first failure on its way out. Each level is a filter of the
account, and there only one part of it is left.
-/

namespace ProtoSchema

/-! ## Lines by level

Lines are sorted out by what is kept of them, and the order of the events stays.
-/

/-- The lines of that level that tell the events. -/
def lines (level : Level) (events : List Event) : List Entry :=
  told (fun entry => entry.level = level) events

/-- Whether a line announces a document. -/
def Entry.announces (entry : Entry) : Bool :=
  entry.level = .info && entry.message ∈
    ["generating schema for stand-alone enum", "generating schema for message"]

/-- What the lines that announce documents name as the document, in order. -/
def announced (events : List Event) : List (Option String) :=
  (told Entry.announces events).map (·.details.lookup "document")

/-- Whether a line is of a level above that of announcements. -/
def Entry.isSerious (entry : Entry) : Bool := entry.level ≠ .info

theorem Entry.isSerious_of_ne {entry : Entry} (h : entry.level ≠ .info) :
    entry.isSerious = true :=
  decide_eq_true h

@[simp] theorem announced_append (as bs : List Event) :
    announced (as ++ bs) = announced as ++ announced bs := by
  simp only [announced, told_append, List.map_append]

/-- Lines of a kind are among those of a wider kind. -/
theorem filter_told {keep keep' : Entry → Bool}
    (h : ∀ entry, keep entry = true → keep' entry = true) (events : List Event) :
    (told keep' events).filter keep = told keep events := by
  rw [told, List.filter_filter]
  refine List.filter_congr fun entry _ => ?_
  by_cases hentry : keep entry = true
  · rw [hentry, h entry hentry]
    rfl
  · simp [hentry]

/-- The lines of a level above notes can be read off the account. -/
theorem lines_eq_filter {level : Level} (h : level ≠ .info) (events : List Event) :
    lines level events = (told Entry.isSerious events).filter fun entry => entry.level = level := by
  refine (filter_told (fun entry hentry => ?_) events).symm
  rw [Entry.isSerious, of_decide_eq_true hentry, decide_eq_true h]

/-- Lines of one level are there as a whole or not at all. -/
theorem filter_level {level : Level} {es : List Entry} (h : ∀ entry ∈ es, entry.level = level)
    (level' : Level) :
    es.filter (fun entry => entry.level = level') = if level = level' then es else [] := by
  split
  · next heq =>
    exact List.filter_eq_self.mpr fun entry hmem => decide_eq_true (heq ▸ h entry hmem)
  · next hne =>
    refine List.filter_eq_nil_iff.mpr fun entry hmem => ?_
    rw [h entry hmem, decide_eq_true_eq]
    exact hne

/-! ## Announcements

Nothing is said of the announcements of a computation that fails, as its documents are lost. The
lemmas go along those on accounts.
-/

/-- When the computation succeeds, its lines have announced these documents of its result. -/
def Announces {ε α : Type} (names : α → List String) (x : Logged ε α) : Prop :=
  ∀ a, x.result = .ok a → announced x.events = (names a).map some

namespace Announces

variable {ε ε' α β : Type} {names : α → List String} {x : Logged ε α}

theorem map (h : Announces names x) (f : α → β) {names' : β → List String}
    (hnames : ∀ a, names' (f a) = names a) : Announces names' (f <$> x) := by
  intro b hb
  rw [Logged.result_map, map_eq_ok_iff] at hb
  obtain ⟨a, ha, rfl⟩ := hb
  rw [Logged.events_map, h a ha, hnames]

/-- Announcements are a matter of success, so that another name for the failure changes nothing. -/
theorem mapError (h : Announces names x) (f : ε → ε') : Announces names (x.mapError f) :=
  fun a ha => h a (mapError_eq_ok_iff.mp ha)

/-- Nor does a line that is there only on failure. -/
theorem onFailure (h : Announces names x) (event : ε → Event) :
    Announces names (x.onFailure event) := by
  intro a ha
  rw [Logged.result_onFailure] at ha
  rw [Logged.events_onFailure_of_ok ha, h a ha]

/-- What does not announce anything may be told before. -/
theorem tell (h : Announces names x) {event : Event} (hevent : event.entry.announces = false) :
    Announces names (Logged.tell event >>= fun _ => x) := by
  intro a ha
  rw [Logged.result_bind, Logged.result_tell] at ha
  have hnone : announced [event] = [] := by
    rw [announced, told_singleton_of_not hevent]
    rfl
  rw [Logged.events_bind_of_ok rfl, announced_append, h a ha, Logged.events_tell, hnone]
  rfl

/-- A row announces what its elements do, one after the other. -/
theorem mapM {f : β → Logged ε α} {xs : List β} (h : ∀ x ∈ xs, Announces names (f x)) :
    Announces (fun as => as.flatMap names) (xs.mapM f) := by
  induction xs with
  | nil =>
    rintro as has
    obtain rfl : [] = as := Except.ok.inj has
    rfl
  | cons x xs ih =>
    rintro as has
    have hrest := ih fun y hy => h y (List.mem_cons_of_mem _ hy)
    rw [List.mapM_cons] at has ⊢
    simp only [bind_pure_comp] at has ⊢
    rw [Logged.result_bind, bind_eq_ok_iff] at has
    obtain ⟨a, ha, has⟩ := has
    rw [Logged.result_map, map_eq_ok_iff] at has
    obtain ⟨as', has', rfl⟩ := has
    rw [Logged.events_bind_of_ok ha, Logged.events_map, announced_append,
      h x List.mem_cons_self a ha, hrest as' has', List.flatMap_cons, List.map_append]

/-- A row of documents announces each of them by its name. -/
theorem documents {f : β → Logged ε Document} {xs : List β}
    (h : ∀ x ∈ xs, Announces (fun document => [document.name]) (f x)) :
    Announces (·.map (·.name)) (xs.mapM f) := by
  intro ds hds
  rw [mapM h ds hds]
  exact congrArg (List.map some) List.map_eq_flatMap.symm

end Announces

/-! ## One message

Inside a message there are notes too, but none that announces a document.
-/

/-- The conversion of a message announces nothing. -/
theorem Conversion.announces_message (c : Conversion) (d : Declaration)
    (visible : List EnumType) : Announces (fun _ => []) (c.message d visible) := by
  intro s hs
  have hkeep : ∀ entry : Entry, entry.level ≠ .info → (fun _ => true) entry = true :=
    fun _ _ => rfl
  cases accounts_messageSchema hkeep c [] d (d.message.outerScope visible) with
  | error hx =>
    rw [message, hx] at hs
    cases hs
  | @ok _ visits hx hsound hvisits htold =>
    rw [announced, ← filter_told (fun _ _ => rfl), message, htold]
    have hwarn : ∀ entry ∈ visits.map (·.2.warning), ¬ entry.announces = true := by
      intro entry hentry
      obtain ⟨v, -, rfl⟩ := List.mem_map.mp hentry
      exact Bool.false_ne_true
    rw [List.filter_eq_nil_iff.mpr hwarn]
    rfl

section MessageDocument

variable {c : Conversion} {file : File} {visible : List EnumType}

/-- The document of a message is announced before the message is converted. -/
theorem messageDocument_eq (d : Declaration) :
    messageDocument c file visible d =
      Logged.tell (.convertingMessage d.message.name file.name (documentName d.message.name)) >>=
        fun _ => (fun s => ⟨documentName d.message.name, s.asDocument⟩) <$> c.message d visible :=
  rfl

/-- The announcement has no part in the account, which is that of the conversion. -/
theorem accounts_messageDocument (d : Declaration) :
    Accounts Entry.isSerious (c.MissesAt (d.message.outerScope visible) d)
      (c.FailsAt [] (d.message.outerScope visible) d) (messageDocument c file visible d) := by
  rw [messageDocument_eq]
  have hschema := c.accounts_messageSchema (fun _ => Entry.isSerious_of_ne) [] d
    (d.message.outerScope visible)
  exact (hschema.map _).tell rfl

theorem announces_messageDocument (d : Declaration) :
    Announces (fun document => [document.name]) (messageDocument c file visible d) := by
  intro document hdocument
  rw [messageDocument_eq, Logged.result_bind, Logged.result_tell] at hdocument
  rw [messageDocument_eq, Logged.events_bind_of_ok rfl, announced_append, Logged.events_map]
  obtain ⟨s, hs, rfl⟩ := map_eq_ok_iff.mp ((Logged.result_map _ _).symm.trans hdocument)
  rw [c.announces_message d visible s hs]
  rfl

end MessageDocument

/-! ## One file

Before its types a file may have notes on how many there are. The first lemma takes them away, and
so the others need not tell the cases.
-/

/-- What holds of the documents of the types, whatever notes are made before them, holds of the
documents of the file. -/
theorem File.documents_of_typeDocuments (file : File) (position : Position) (r : Registry)
    (p : Policy) (visible : List EnumType) {Holds : Logged ConversionError (List Document) → Prop}
    (htell : ∀ event x, event.entry.level = .info → event.entry.announces = false → Holds x →
      Holds (Logged.tell event >>= fun _ => x))
    (h : Holds ((typeDocuments r p file (file.declarations position) visible).onFailure
      (.fileFailed (baseName file.name)))) :
    Holds (file.documents position r p visible) := by
  have henums := htell (.severalEnums visible.length (baseName file.name)) _ rfl rfl h
  rw [documents]
  by_cases hmessages : file.messages.length > 1 <;> by_cases hvisible : visible.length > 1 <;>
    simp only [hmessages, hvisible, if_true, if_false]
  · exact htell _ _ rfl rfl henums
  · exact htell _ _ rfl rfl h
  · exact henums
  · exact h

theorem announces_enumDocument (p : Policy) (file : File) (e : EnumType) :
    Announces (fun document => [document.name]) (enumDocument p file e) := by
  intro document hdocument
  obtain rfl := Except.ok.inj hdocument
  rfl

/-- The documents of a file are announced, each by its name. -/
theorem File.announces_documents (file : File) (position : Position) (r : Registry) (p : Policy)
    (visible : List EnumType) :
    Announces (·.map (·.name)) (file.documents position r p visible) := by
  refine file.documents_of_typeDocuments position r p visible
    (fun _ _ _ hevent h => h.tell hevent) (Announces.onFailure ?_ _)
  rw [typeDocuments]
  split
  · exact .documents fun e _ => announces_enumDocument p file e
  · rcases (r.lookupPackage file.package).mapError
      (ConversionError.unknownPackage file.package) with e | id
    · exact fun documents hdocuments => by cases hdocuments
    · exact .documents fun d _ => announces_messageDocument d

namespace Session

variable {s : Session} {file : File}

/-- A file without messages misses nothing and does not fail. -/
theorem accounts_documents_of_nil (hnone : file.messages = []) (i : Nat) :
    Accounts Entry.isSerious (fun _ _ => False) (fun _ _ _ => False)
      (file.documents [i] s.registry s.policy s.enums) := by
  refine file.documents_of_typeDocuments _ _ _ _
    (fun _ _ hinfo _ h => h.tell (decide_eq_false (not_not_intro hinfo))) ?_
  rw [File.declarations_eq_nil_iff.mpr hnone, typeDocuments, if_pos rfl]
  have henum : ∀ e ∈ s.enums, Accounts Entry.isSerious (fun _ _ => False) (fun _ _ _ => False)
      (ProtoSchema.enumDocument s.policy file e) := fun e _ => (Accounts.pure _).tell rfl
  refine ((Accounts.mapM henum).onFailure fun e => rfl).congr (fun a v => ?_) fun a e es => ?_
  · refine iff_of_false ?_ id
    rintro ⟨_, _, _, -, -, h⟩
    exact h
  · refine iff_of_false ?_ id
    rintro ⟨_, ⟨_, _, _, -, -, h⟩, -⟩
    exact h

/-- A file with messages accounts for its messages one after the other. -/
theorem accounts_documents_of_ne_nil (hsome : file.messages ≠ []) {id : PackageId}
    (hid : s.IsPackageOf file id) (i : Nat) :
    Accounts Entry.isSerious
      (fun a v => InRow (file.declarations [i]) (fun d b =>
        (s.conversion id).MissesAt (d.message.outerScope s.enums) d b v) a)
      (fun a e es => ∃ inner, InRow (file.declarations [i]) (fun d b =>
          (s.conversion id).FailsAt [] (d.message.outerScope s.enums) d b e inner) a ∧
        es = inner ++ [(Event.fileFailed (baseName file.name) e).entry])
      (file.documents [i] s.registry s.policy s.enums) := by
  refine file.documents_of_typeDocuments _ _ _ _
    (fun _ _ hinfo _ h => h.tell (decide_eq_false (not_not_intro hinfo))) ?_
  rw [typeDocuments, if_neg (mt File.declarations_eq_nil_iff.mp hsome),
    lookupPackage_eq_ok_iff.mpr hid]
  exact (Accounts.mapM fun d _ => accounts_messageDocument d).onFailure fun e => rfl

/-! ## One target

The relations for a target are those for its messages, with the file and the package that its name
leads to. A target whose file is not there visits nothing and fails without a line of its own.
-/

/-- The conversion of the target visits a field at the address: the number of a message of its file,
and the address in that message. -/
inductive VisitsAt (s : Session) (target : String) : List Nat → Visit → Prop where
  /-- a field of a message of the file, or one inside that message -/
  | message {file : File} {i k : Nat} {id : PackageId} {d : Declaration} {a : List Nat} {v : Visit}
    (hfile : s.Finds target file i) (hid : s.IsPackageOf file id)
    (hd : (file.declarations [i])[k]? = some d)
    (h : (s.conversion id).VisitsAt (d.message.outerScope s.enums) d a v) :
    VisitsAt s target (k :: a) v

/-- The conversion of the target fails at the address, with these lines. -/
inductive FailsAt (s : Session) (target : String) :
    List Nat → SessionError → List Entry → Prop where
  /-- no file has the name, and there is no line for it -/
  | unknownFile (hnone : ∀ file ∈ s.forest, file.name ≠ target) :
    FailsAt s target [] (.unknownFile target) []
  /-- a field offends: there is a line for each field on the way back to the message of the file,
  and one for the file, all with the text of the offence -/
  | field {file : File} {i k : Nat} {id : PackageId} {d : Declaration} {a : List Nat}
    {e : ConversionError} {v : Visit} (hfile : s.Finds target file i) (hid : s.IsPackageOf file id)
    (hd : (file.declarations [i])[k]? = some d) (he : (s.conversion id).OffendsAt [] d a e)
    (hv : (s.conversion id).VisitsAt (d.message.outerScope s.enums) d a v) :
    FailsAt s target (k :: a) (.file target e) (v.failures e.message ++
      [⟨.error, "failed to convert", [("file", baseName file.name), ("error", e.message)]⟩])

theorem Finds.unique {target : String} {other : File} {i j : Nat} (h : s.Finds target file i)
    (h' : s.Finds target other j) : file = other ∧ i = j := by
  have heq := (file?_eq_some_iff_finds.mpr h).symm.trans (file?_eq_some_iff_finds.mpr h')
  exact Prod.mk.inj (Option.some.inj heq)

theorem IsPackageOf.unique {id id' : PackageId} (h : s.IsPackageOf file id)
    (h' : s.IsPackageOf file id') : id = id' := by
  have heq := (lookupPackage_eq_ok_iff.mpr h).symm.trans (lookupPackage_eq_ok_iff.mpr h')
  exact Except.ok.inj heq

/-- A target accounts for itself. -/
theorem accounts_documentsOf (s : Session) (target : String) :
    Accounts Entry.isSerious (fun a v => s.VisitsAt target a v ∧ v.Unmatched) (s.FailsAt target)
      (s.documentsOf s.registry target) := by
  rcases hfound : s.file? target with _ | ⟨file, i⟩
  · rw [documentsOf, hfound]
    exact .fail (.unknownFile (file?_eq_none_iff.mp hfound))
  · have hfile := file?_eq_some_iff_finds.mp hfound
    have hdocuments : s.documentsOf s.registry target =
        (file.documents [i] s.registry s.policy s.enums).mapError (.file target) := by
      rw [documentsOf, hfound]
    rw [hdocuments]
    by_cases hmessages : file.messages = []
    · have hempty : file.declarations [i] = [] := File.declarations_eq_nil_iff.mpr hmessages
      refine ((accounts_documents_of_nil hmessages i).mapError _).congr
        (fun a v => iff_of_false id ?_) fun a e es => iff_of_false ?_ ?_
      · rintro ⟨⟨hfile', -, hd, -⟩, -⟩
        obtain ⟨rfl, rfl⟩ := hfile.unique hfile'
        rw [hempty] at hd
        cases hd
      · rintro ⟨_, h, -⟩
        exact h
      · intro h
        cases h with
        | unknownFile hnone => exact hnone file hfile.mem hfile.name_eq
        | field hfile' hid hd he hv =>
          obtain ⟨rfl, rfl⟩ := hfile.unique hfile'
          rw [hempty] at hd
          cases hd
    · obtain ⟨id, -, hid⟩ := exists_isPackageOf hfile.mem hmessages
      refine ((accounts_documents_of_ne_nil hmessages hid i).mapError _).congr (fun a v => ?_)
        fun a e es => ?_
      · constructor
        · rintro ⟨k, b, d, rfl, hd, hv, hnone⟩
          exact ⟨.message hfile hid hd hv, hnone⟩
        · rintro ⟨⟨hfile', hid', hd, hv⟩, hnone⟩
          obtain ⟨rfl, rfl⟩ := hfile.unique hfile'
          obtain rfl := hid.unique hid'
          exact ⟨_, _, _, rfl, hd, hv, hnone⟩
      · constructor
        · rintro ⟨e, ⟨inner, ⟨k, b, d, rfl, hd, he, v, hv, rfl⟩, rfl⟩, rfl⟩
          exact .field hfile hid hd he hv
        · intro h
          cases h with
          | unknownFile hnone => exact absurd hfile.name_eq (hnone file hfile.mem)
          | field hfile' hid' hd he hv =>
            obtain ⟨rfl, rfl⟩ := hfile.unique hfile'
            obtain rfl := hid.unique hid'
            exact ⟨_, ⟨_, ⟨_, _, _, rfl, hd, he, _, hv, rfl⟩, rfl⟩, rfl⟩

theorem announces_documentsOf (s : Session) (target : String) :
    Announces (·.map (·.name)) (s.documentsOf s.registry target) := by
  rw [documentsOf]
  split
  · exact (File.announces_documents _ _ _ _ _).mapError _
  · exact fun documents hdocuments => by cases hdocuments

/-! ## The run

The targets are a row, as the messages of a file are.
-/

/-- The conversion of the targets visits a field at the address: the number of a target, and the
address in it. -/
def Visits (s : Session) (targets : List String) (a : List Nat) (v : Visit) : Prop :=
  InRow targets (fun target b => s.VisitsAt target b v) a

/-- The conversion of the targets fails at the address, with these lines. -/
def Fails (s : Session) (targets : List String) (a : List Nat) (e : SessionError)
    (es : List Entry) : Prop :=
  InRow targets (fun target b => s.FailsAt target b e es) a

/-- A session accounts for its targets one after the other. -/
theorem accounts_generate (s : Session) (targets : List String) :
    Accounts Entry.isSerious (fun a v => s.Visits targets a v ∧ v.Unmatched) (s.Fails targets)
      (s.generate targets) := by
  have htargets : ∀ target ∈ targets, Accounts Entry.isSerious
      (fun a v => s.VisitsAt target a v ∧ v.Unmatched) (s.FailsAt target)
      (s.documentsOf s.registry target) := fun target _ => s.accounts_documentsOf target
  refine ((Accounts.mapM htargets).map List.flatten).congr (fun a v => ?_) fun _ _ _ => Iff.rfl
  constructor
  · rintro ⟨k, b, target, ha, htarget, hv, hnone⟩
    exact ⟨⟨k, b, target, ha, htarget, hv⟩, hnone⟩
  · rintro ⟨⟨k, b, target, ha, htarget, hv⟩, hnone⟩
    exact ⟨k, b, target, ha, htarget, hv, hnone⟩

/-- **All documents** are announced, in the order in which they come. Each target announces its own,
and nothing is announced between them. -/
theorem announces_generate (s : Session) (targets : List String) :
    Announces (·.map (·.name)) (s.generate targets) := by
  have htargets : ∀ target ∈ targets, Announces (·.map (·.name))
      (s.documentsOf s.registry target) := fun target _ => s.announces_documentsOf target
  refine (Announces.mapM htargets).map List.flatten fun documents => ?_
  rw [List.map_flatten, List.flatMap_def]

/-- The lines of a failure are of the level of failures, and there are none for a file that is not
there. -/
theorem Fails.lines {s : Session} {targets : List String} {a : List Nat} {e : SessionError}
    {es : List Entry} (h : s.Fails targets a e es) :
    (∀ entry ∈ es, entry.level = .error) ∧ ∀ target, e = .unknownFile target → es = [] := by
  obtain ⟨_, _, _, -, -, h⟩ := h
  cases h with
  | unknownFile => exact ⟨fun _ hmem => absurd hmem List.not_mem_nil, fun _ _ => rfl⟩
  | @field _ _ _ _ _ _ e v _ _ _ _ _ =>
    refine ⟨fun entry hmem => ?_, fun _ heq => SessionError.noConfusion heq⟩
    rcases List.mem_append.mp hmem with hmem | hmem
    · obtain ⟨pair, -, rfl⟩ := List.mem_map.mp hmem
      rfl
    · obtain rfl := List.mem_singleton.mp hmem
      rfl

end Session

/-! ## Requests

Only the failure of the whole request is added here, and the response does not depend on the log.
-/

theorem warnings_level (visits : List (List Nat × Visit)) :
    ∀ entry ∈ visits.map (·.2.warning), entry.level = .warn := by
  intro entry hmem
  obtain ⟨v, -, rfl⟩ := List.mem_map.mp hmem
  rfl

namespace Request

variable {r : Request} {o : Options} {p : Policy}

/-- A session that succeeds adds nothing to the log behind its events. -/
theorem answer_of_ok (hp : o.resolve = .ok p) {documents : List Document}
    (h : ((Session.mk r.forest p).generate r.targets).result = .ok documents) :
    r.answer o = (((Session.mk r.forest p).generate r.targets).events,
      { files := documents.map Document.toResponseFile }) := by
  rw [answer, hp]
  simp only [h]

/-- A session that fails is followed by one line, for the request. -/
theorem answer_of_error (hp : o.resolve = .ok p) {e : SessionError}
    (h : ((Session.mk r.forest p).generate r.targets).result = .error e) :
    r.answer o = (((Session.mk r.forest p).generate r.targets).events ++ [.requestFailed e],
      .failure e.message) := by
  rw [answer, hp]
  simp only [h]

/-- **The log of a request** tells what happened.

A response with files has no line of a failure, one announcement for each of its files, in their
order and by their names, and one warning for each visit of an enum field whose enum is not found,
in the order of the visits.

A response with an error has the lines of the first failure: one for each field on the way from the
field that offends to the message of a target, one for the file, and one for the request with the
text of the error. There is only the last when a target is not among the files. The warnings are
those for the visits before that failure. -/
theorem answer_log (r : Request) (hp : o.resolve = .ok p) :
    ((r.answer o).2.error = none →
      lines .error (r.answer o).1 = [] ∧
      announced (r.answer o).1 = (r.answer o).2.files.map (fun file => some file.name) ∧
      ∃ visits,
        Lists (fun a v => (Session.mk r.forest p).Visits r.targets a v ∧ v.Unmatched) visits ∧
        lines .warn (r.answer o).1 = visits.map (·.2.warning)) ∧
    ∀ text, (r.answer o).2.error = some text → ∃ a e es,
      (Session.mk r.forest p).Fails r.targets a e es ∧
      (∀ b e' es', (Session.mk r.forest p).Fails r.targets b e' es' → ¬ Conversion.Precedes b a) ∧
      text = e.message ∧
      (∀ target, e = .unknownFile target → es = []) ∧
      lines .error (r.answer o).1 = es ++ [⟨.error, "conversion failed", [("error", text)]⟩] ∧
      ∃ visits,
        Lists (fun b v => ((Session.mk r.forest p).Visits r.targets b v ∧ v.Unmatched) ∧
          Conversion.Precedes b a) visits ∧
        lines .warn (r.answer o).1 = visits.map (·.2.warning) := by
  cases (Session.mk r.forest p).accounts_generate r.targets with
  | @ok documents visits hx hsound hvisits htold =>
    rw [answer_of_ok hp hx]
    refine ⟨fun _ => ⟨?_, ?_, visits, hvisits, ?_⟩, fun text htext => (by cases htext)⟩
    · rw [lines_eq_filter Level.noConfusion, htold, filter_level (warnings_level visits)]
      rfl
    · rw [(Session.mk r.forest p).announces_generate r.targets documents hx]
      simp only [List.map_map]
      rfl
    · rw [lines_eq_filter Level.noConfusion, htold, filter_level (warnings_level visits)]
      rfl
  | @error e a es visits hx hfails hfirst hvisits htold =>
    obtain ⟨herror, hunknown⟩ := hfails.lines
    rw [answer_of_error hp hx]
    refine ⟨fun hnone => (by cases hnone), fun text htext => ?_⟩
    obtain rfl : e.message = text := Option.some.inj htext
    refine ⟨a, e, es, hfails, hfirst, rfl, hunknown, ?_, visits, hvisits, ?_⟩
    · rw [lines_eq_filter Level.noConfusion, told_append, htold, List.filter_append,
        List.filter_append, filter_level (warnings_level visits), filter_level herror]
      rfl
    · rw [lines_eq_filter Level.noConfusion, told_append, htold, List.filter_append,
        List.filter_append, filter_level (warnings_level visits), filter_level herror]
      rw [if_pos rfl, if_neg Level.noConfusion, List.append_nil]
      exact List.append_nil _

/-! ### Lamps -/

/-- A request for a file with a lamp. The enums of its mode and of the shape of its part are not
there, and the bulb of the part has no type. -/
def lampRequest : Request :=
  { targets := ["home/lamp.proto"]
    forest :=
      [{ name := "home/lamp.proto"
         messages :=
          [{ name := "Lamp"
             fields :=
              [{ name := "mode", typeNumber := 14, typeName := ".Mode" },
               { name := "part", typeNumber := 11, typeName := ".Part" },
               { name := "colour", typeNumber := 14, typeName := ".Colour" }] },
           { name := "Part"
             fields :=
              [{ name := "shape", typeNumber := 14, typeName := ".Shape" },
               { name := "bulb", typeNumber := 99 }] }] }] }

/-- What is wrong with the bulb. -/
def bulbError : ConversionError := .unrecognizedFieldType "bulb" 99

/-- What is wrong with the file of the lamp. -/
def lampError : SessionError := .file "home/lamp.proto" bulbError

/-- The answer to the request for the lamp has the lines of its failure. -/
theorem answer_log_lamp :
    ∃ p, ({} : Options).resolve = .ok p ∧
      (lampRequest.answer {}).2.error = some lampError.message ∧
      ∃ a e es, (Session.mk lampRequest.forest p).Fails lampRequest.targets a e es ∧
        lines .error (lampRequest.answer {}).1 =
          es ++ [⟨.error, "conversion failed", [("error", lampError.message)]⟩] := by
  obtain ⟨p, hp⟩ : ∃ p, ({} : Options).resolve = .ok p := ⟨_, rfl⟩
  have herror : (lampRequest.answer {}).2.error = some lampError.message := by
    with_unfolding_all rfl
  obtain ⟨a, e, es, hfails, -, -, -, hlines, -⟩ :=
    (answer_log lampRequest hp).2 _ herror
  exact ⟨_, hp, herror, a, e, es, hfails, hlines⟩

-- the enum of the colour is missed too, but the lamp fails before
example : (lampRequest.answer {}).1.map Event.entry =
    [Event.entry (.severalMessages 2 "lamp.proto"),
     Event.entry (.convertingMessage "Lamp" "home/lamp.proto" "Lamp.jsonschema"),
     Event.entry (.enumNotMatched "mode" ".Mode"),
     Event.entry (.enumNotMatched "shape" ".Shape"),
     Event.entry (.fieldFailed "bulb" "Part" bulbError),
     Event.entry (.fieldFailed "part" "Lamp" bulbError),
     Event.entry (.fileFailed "lamp.proto" bulbError),
     Event.entry (.requestFailed lampError)] := by
  with_unfolding_all rfl

end Request

end ProtoSchema
