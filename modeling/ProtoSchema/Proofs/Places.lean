import ProtoSchema.Proofs.Nodes

/-!
# What a node is written for

A node of a schema stands at a *place*: the steps that lead to it from the root, each of them to the
items or to the property of a name (`Schema.HasNodeAt`). What the node is written for can be read
off the descriptors along the same steps, without looking at any schema: a property of a message is
that of its last field of that name, the items of a repeated field are the message that it embeds,
and so on (`Conversion.subjectAt`).

The two walks go together (`Conversion.Writes.at`): at every place of a schema stands the node that
the conversion writes for the subject of the place. So what is to be shown of all nodes of a kind,
however deep they are, is shown of what is written for a subject.
-/

namespace ProtoSchema

/-! ## Places

A property is told by its name, and in a table of distinct names there is only one of it. A node may
stand at several places, when it is equal to another.
-/

/-- One step down from a node. -/
inductive Step where
  /-- to the items -/
  | items
  /-- to the property of that name -/
  | property (name : String)
  deriving DecidableEq, Repr

namespace Schema

/-- The second node is one step below the first. -/
inductive StepsTo : Schema → Step → Schema → Prop where
  /-- the items -/
  | items {s i : Schema} (hi : s.items = some i) : StepsTo s .items i
  /-- a property -/
  | property {s : Schema} {e : String × Schema} (he : e ∈ s.properties) :
    StepsTo s (.property e.1) e.2

/-- The node stands at the end of the steps. -/
inductive HasNodeAt : Schema → List Step → Schema → Prop where
  /-- the schema itself -/
  | here (s : Schema) : HasNodeAt s [] s
  /-- a node of what is one step below -/
  | step {s t n : Schema} {step : Step} {place : List Step} (hst : s.StepsTo step t)
    (hn : HasNodeAt t place n) : HasNodeAt s (step :: place) n

/-- Every node stands at some place. -/
theorem hasNode_iff {s n : Schema} : s.HasNode n ↔ ∃ place, s.HasNodeAt place n := by
  refine ⟨?_, ?_⟩
  · intro h
    induction h with
    | self s => exact ⟨[], .here s⟩
    | items hi _ ih =>
      obtain ⟨place, hplace⟩ := ih
      exact ⟨_, .step (.items hi) hplace⟩
    | property he _ ih =>
      obtain ⟨place, hplace⟩ := ih
      exact ⟨_, .step (.property he) hplace⟩
  · rintro ⟨place, h⟩
    induction h with
    | here s => exact .self s
    | step hst _ ih =>
      cases hst with
      | items hi => exact .items hi ih
      | property he => exact .property he ih

/-- Below the root of a document stands what stands below the schema that it is made of. -/
theorem HasNodeAt.of_asDocument {s n : Schema} {place : List Step}
    (h : s.asDocument.HasNodeAt place n) :
    ∃ m, s.HasNodeAt place m ∧ (n = m ∨ n = m.asDocument) := by
  cases h with
  | here => exact ⟨s, .here s, Or.inr rfl⟩
  | step hst hn =>
    refine ⟨n, .step ?_ hn, Or.inl rfl⟩
    cases hst with
    | items hi => exact .items hi
    | property he => exact .property he

/-- There is nothing below a leaf. -/
theorem IsLeaf.not_stepsTo {s n : Schema} (hs : s.IsLeaf) {step : Step} : ¬ s.StepsTo step n := by
  intro h
  cases h with
  | items hi =>
    rw [hs.items] at hi
    cases hi
  | property he =>
    rw [hs.properties] at he
    cases he

end Schema

/-! ## Subjects

The schema of a message stands below a field, as its items, or is put into the node of the field
itself. So a step from a field leads to the message in the one case and to a field of it in the
other.
-/

/-- What a node is written for. -/
inductive Subject where
  /-- a message by itself -/
  | message (d : Declaration)
  /-- a field -/
  | field (f : Field)
  /-- one value of a repeated field that embeds no message -/
  | element (f : Field)
  /-- an enum by itself -/
  | enumeration (e : EnumType)

namespace Conversion

/-- The message that a field embeds. -/
def embedded? (c : Conversion) (f : Field) : Option Declaration :=
  if FieldKind.ofNumber? f.typeNumber = some .message ∧ f.typeName ≠ timestampName then
    (c.registry.lookupType c.package f.typeName).toOption
  else
    none

/-- What is one step below a subject: below a message its fields, below a repeated field its
elements, and below any other field the fields of the message that it embeds. -/
def subjectBelow (c : Conversion) : Subject → Step → Option Subject
  | .message d, .property name => (d.message.fieldNamed name).map .field
  | .field f, .items =>
    if f.label = .repeated then some ((c.embedded? f).elim (.element f) .message) else none
  | .field f, .property name =>
    if f.label = .repeated then none
    else (c.embedded? f).bind fun target => (target.message.fieldNamed name).map .field
  | _, _ => none

/-- The subject at the end of the steps. -/
def subjectAt (c : Conversion) (subject : Subject) (place : List Step) : Option Subject :=
  place.foldlM c.subjectBelow subject

/-- The node is what the conversion writes for the subject, inside some messages and with some enums
in scope. -/
inductive Writes (c : Conversion) : Subject → Schema → Prop where
  /-- for a message -/
  | message {path : List Declaration} {scope : List EnumType} {d : Declaration} {s : Schema}
    (hs : (c.messageSchema path scope d).result = .ok s) : Writes c (.message d) s
  /-- for a field -/
  | field {path : List Declaration} {scope : List EnumType} {f : Field} {s : Schema}
    (hs : (c.fieldSchema path scope f).result = .ok s) : Writes c (.field f) s
  /-- for the elements of a field -/
  | element {scope : List EnumType} {f : Field} {kind : FieldKind} {a : Schema}
    (ha : f.element? c.policy scope kind = some a) : Writes c (.element f) a.bareElement.dropNull
  /-- for an enum -/
  | enumeration (e : EnumType) : Writes c (.enumeration e) (c.policy.enumSchema e)

variable {c : Conversion}

/-- Whether a field holds a message can be told from its type number and its type name. -/
theorem holdsMessage_iff {f : Field} : f.HoldsMessage ↔
    FieldKind.ofNumber? f.typeNumber = some .message ∧ f.typeName ≠ timestampName := by
  rw [Field.HoldsMessage, Field.kind]
  cases FieldKind.ofNumber? f.typeNumber <;> simp

/-- A field that is converted on the spot holds no message. -/
theorem not_holdsMessage_of_element {f : Field} {p : Policy} {scope : List EnumType}
    {kind : FieldKind} {a : Schema} (hkind : f.kind = .ok kind)
    (ha : f.element? p scope kind = some a) : ¬ f.HoldsMessage := by
  rintro ⟨hmessage, hname⟩
  obtain rfl := Except.ok.inj (hkind.symm.trans hmessage)
  rw [Field.element?_eq_none_iff.mpr ⟨rfl, hname⟩] at ha
  cases ha

/-- A field that embeds a message comes to a node around the schema of that. -/
theorem exists_messageSchema_of_embeds {path : List Declaration} {scope : List EnumType} {f : Field}
    {target : Declaration} {n : Schema} (hf : c.Embeds f target)
    (hn : (c.fieldSchema path scope f).result = .ok n) : target ∉ path ∧
      ∃ t, (c.messageSchema path (target.message.scopeWithin scope) target).result = .ok t ∧
        n = f.ofMessage c.policy t := by
  rcases fieldSchema_eq_ok_iff.mp hn with
    ⟨kind, a, hkind, ha, -⟩ | ⟨target', t, hf', hpath, ht, rfl⟩
  · exact absurd hf.1 (not_holdsMessage_of_element hkind ha)
  · obtain rfl := hf.unique hf'
    exact ⟨hpath, t, ht, rfl⟩

theorem embedded?_of_embeds {f : Field} {target : Declaration} (hf : c.Embeds f target) :
    c.embedded? f = some target := by
  rw [embedded?, if_pos (holdsMessage_iff.mp hf.1), hf.2]
  rfl

theorem embedded?_of_not_holdsMessage {f : Field} (hf : ¬ f.HoldsMessage) :
    c.embedded? f = none :=
  if_neg (mt holdsMessage_iff.mpr hf)

/-- The properties of a message are written for its fields. -/
theorem writes_property {path : List Declaration} {scope : List EnumType} {d : Declaration}
    {s : Schema} (hs : (c.messageSchema path scope d).result = .ok s) {e : String × Schema}
    (he : e ∈ s.properties) :
    ∃ f, d.message.fieldNamed e.1 = some f ∧ c.Writes (.field f) e.2 := by
  obtain ⟨ts, hts, rfl⟩ := messageSchema_eq_ok_iff.mp hs
  have hlookup := Message.lookup_propertyTable hts e.1
  -- a name stands once in the table, so that the property is the one found under its name
  have hfound : (d.message.propertyTable ts).lookup e.1 = some e.2 :=
    lookup_of_mem (nodup_sortedTable _) he
  rw [hfound] at hlookup
  generalize d.message.fieldNamed e.1 = found at hlookup
  cases hlookup with
  | some hf => exact ⟨_, rfl, .field hf⟩

/-- There is nothing below the elements of a field that embeds no message. -/
theorem not_stepsTo_element {f : Field} {p : Policy} {scope : List EnumType} {kind : FieldKind}
    {a n : Schema} (ha : f.element? p scope kind = some a) {step : Step} :
    ¬ a.bareElement.dropNull.StepsTo step n :=
  (Field.isPlain_element ha).bareElement.dropNull.toIsLeaf.not_stepsTo

/-- **One step down** stands what is written for the subject one step down. From a message the steps
lead to its fields, and from a field to its elements or into the message that it embeds. From the
other two kinds of subjects they lead nowhere. -/
theorem Writes.stepsTo {subject : Subject} {s n : Schema} {step : Step} (h : c.Writes subject s)
    (hst : s.StepsTo step n) : ∃ subject', c.subjectBelow subject step = some subject' ∧
      c.Writes subject' n := by
  cases h with
  | @message path scope d s hs =>
    cases hst with
    | items hi =>
      obtain ⟨ts, -, rfl⟩ := messageSchema_eq_ok_iff.mp hs
      rw [Policy.messageSchema, (c.policy.isLeaf_scalar .object).items] at hi
      cases hi
    | property he =>
      obtain ⟨f, hf, hwrites⟩ := writes_property hs he
      exact ⟨.field f, by rw [Conversion.subjectBelow, hf]; rfl, hwrites⟩
  | @field path scope f s hs =>
    rcases fieldSchema_eq_ok_iff.mp hs with
      ⟨kind, a, hkind, ha, rfl⟩ | ⟨target, t, hf, hpath, ht, rfl⟩
    · -- an array of elements, or a leaf
      have hplain := not_holdsMessage_of_element hkind ha
      rw [Field.ofElement_eq] at hst
      split at hst
      · next hlabel =>
        rw [Policy.arrayOf_eq] at hst
        cases hst with
        | items hi =>
          obtain rfl := Option.some.inj hi
          refine ⟨.element f, ?_, .element ha⟩
          rw [Conversion.subjectBelow, if_pos hlabel, embedded?_of_not_holdsMessage hplain]
          rfl
        | property he =>
          simp only [(c.policy.isLeaf_scalar .array).properties] at he
          cases he
      · exact absurd hst (Field.isLeaf_element ha).not_stepsTo
    · -- an array of messages, or the properties of a message
      rw [Field.ofMessage] at hst
      by_cases hlabel : f.label = .repeated
      · simp only [hlabel, if_true] at hst
        cases hst with
        | items hi =>
          obtain rfl := Option.some.inj hi
          refine ⟨.message target, ?_, .message ht⟩
          rw [Conversion.subjectBelow, if_pos hlabel, embedded?_of_embeds hf]
          rfl
        | property he => cases he
      · simp only [hlabel, if_false] at hst
        cases hst with
        | items hi => cases hi
        | property he =>
          obtain ⟨g, hg, hwrites⟩ := writes_property ht he
          refine ⟨.field g, ?_, hwrites⟩
          rw [Conversion.subjectBelow, if_neg hlabel, embedded?_of_embeds hf, Option.bind_some, hg]
          rfl
  | element ha => exact absurd hst (not_stepsTo_element ha)
  | enumeration e => exact absurd hst (c.policy.isPlain_enumSchema e).toIsLeaf.not_stepsTo

/-- **At every place** stands what is written for the subject of the place. Both the node and the
subject are found step by step, and each step is one of the lemma before. -/
theorem Writes.at {s n : Schema} {place : List Step} (hn : s.HasNodeAt place n) :
    ∀ {subject : Subject}, c.Writes subject s →
      ∃ subject', c.subjectAt subject place = some subject' ∧ c.Writes subject' n := by
  induction hn with
  | here s => exact fun h => ⟨_, rfl, h⟩
  | step hst _ ih =>
    intro subject h
    obtain ⟨next, hnext, hwrites⟩ := h.stepsTo hst
    obtain ⟨last, hlast, hwrites⟩ := ih hwrites
    refine ⟨last, ?_, hwrites⟩
    rw [subjectAt, List.foldlM_cons, hnext]
    exact hlast

end Conversion

/-! ## Documents -/

/-- The document is made of the schema that the conversion writes for the subject: a top-level
message in the package of its file, or a top-level enum. -/
inductive Session.IsDocumentOf (s : Session) : Conversion → Subject → Document → Prop where
  /-- the document of a message -/
  | message {m : String × Declaration} {package : PackageId} {t : Schema}
    (hm : m ∈ forestMessages s.forest) (hpackage : s.registry.lookupPackage m.1 = .ok package)
    (ht : ((⟨s.registry, package, s.policy⟩ : Conversion).message m.2 s.enums).result = .ok t) :
    IsDocumentOf s ⟨s.registry, package, s.policy⟩ (.message m.2)
      ⟨documentName m.2.message.name, t.asDocument⟩
  /-- the document of an enum -/
  | enumeration {e : EnumType} (he : e ∈ s.enums) (package : PackageId) :
    IsDocumentOf s ⟨s.registry, package, s.policy⟩ (.enumeration e) (s.enumDocument e)

/-- Every document of a session is one of a message or of an enum of its files. -/
theorem Session.exists_isDocumentOf {s : Session} {targets : List String}
    {documents : List Document} (h : (s.generate targets).result = .ok documents)
    {document : Document} (hmem : document ∈ documents) :
    ∃ c subject, s.IsDocumentOf c subject document := by
  rcases source_of_mem_generate h hmem with ⟨e, he, rfl⟩ | ⟨m, hm, package, t, hpackage, ht, rfl⟩
  · exact ⟨_, _, .enumeration he Registry.root⟩
  · exact ⟨_, _, .message hm hpackage ht⟩

/-- At every place of a document stands what is written for the subject of the place, but for the
marker of the root. -/
theorem Session.IsDocumentOf.at {s : Session} {c : Conversion} {subject : Subject}
    {document : Document} (h : s.IsDocumentOf c subject document) {place : List Step} {n : Schema}
    (hn : document.schema.HasNodeAt place n) :
    ∃ subject' m, c.subjectAt subject place = some subject' ∧ c.Writes subject' m ∧
      (n = m ∨ n = m.asDocument) := by
  obtain ⟨t, ht, hdocument⟩ : ∃ t, c.Writes subject t ∧ document.schema = t.asDocument := by
    cases h with
    | message hm hpackage ht => exact ⟨_, .message ht, rfl⟩
    | enumeration he package => exact ⟨_, .enumeration _, rfl⟩
  rw [hdocument] at hn
  obtain ⟨m, hm, hnm⟩ := hn.of_asDocument
  obtain ⟨subject', hsubject, hwrites⟩ := Conversion.Writes.at hm ht
  exact ⟨subject', m, hsubject, hwrites, hnm⟩

end ProtoSchema
