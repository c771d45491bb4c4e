import ProtoSchema.Proofs.Places
import ProtoSchema.Proofs.Tightening

/-!
# Policies at every depth

A policy without unions writes none, and a policy without other members closes every object. Where
other members are allowed, the label of a field has a say: the object of a required message is
closed and every other object is open, which holds of the items of arrays and of the documents
themselves too, as they are written for a message and not for a field.

Whether an object is open is thus decided by its subject (`Subject.Governs`), whatever is around it,
and hence for all places of a document at once (`Session.generate_openness`). There is no induction
in this module: what is written for each subject is looked at (`Conversion.Writes.governs`), and
that every place has a subject for which its node is written is known from the module on places.
-/

namespace ProtoSchema

/-! ## Unions

A policy that allows null allows unions. This is a part of what a policy is, and so without unions
there is no null to think of.
-/

namespace Policy

theorem types_scalar (p : Policy) (ty : JsonType) :
    (p.scalar ty).types = if p.nullable then [.null, ty] else [ty] := by
  rw [scalar_eq]
  cases p.nullable <;> rfl

/-- Without unions nothing is nullable. -/
theorem nullable_eq_false {p : Policy} (hp : p.oneOf = false) : p.nullable = false := by
  by_contra hn
  have hone := p.oneOf_of_nullable (by simpa using hn)
  rw [hp] at hone
  cases hone

theorem enumOneOf_eq_false {p : Policy} (hp : p.oneOf = false) : p.enumOneOf = false := by
  rw [enumOneOf, hp, Bool.and_false]

theorem oneOf_scalar {p : Policy} (hp : p.oneOf = false) (ty : JsonType) :
    (p.scalar ty).oneOf = [] := by
  rw [scalar_eq_ofType (nullable_eq_false hp)]
  rfl

end Policy

/-- Without unions no plain field has one. -/
theorem Field.oneOf_element {f : Field} {p : Policy} {scope : List EnumType} {kind : FieldKind}
    {a : Schema} (hp : p.oneOf = false) (ha : f.element? p scope kind = some a) :
    a.oneOf = [] := by
  cases kind with
  | int64 =>
    rw [← Option.some.inj ha, Policy.bigInteger_eq, hp]
    rfl
  | enumeration =>
    rw [← Option.some.inj ha, Policy.enumField_eq, Policy.enumOneOf_eq_false hp]
    rfl
  | message =>
    obtain ⟨-, rfl⟩ := wellKnown_eq_some_iff.mp ha
    rfl
  | _ =>
    rw [← Option.some.inj ha]
    exact Policy.oneOf_scalar hp _

/-- Where there is no union, no null is dropped from it. -/
theorem Schema.dropNull_eq_self {s : Schema} (h : s.oneOf = []) : s.dropNull = s := by
  rw [dropNull, admitsNull, h]
  rfl

namespace Conversion

variable {c : Conversion}

/-- **Without unions** none is written, whatever it is written for. Each kind of node has its union
from the policy, or is plain and has no null to be dropped. -/
theorem Writes.oneOf_eq_nil {subject : Subject} {s : Schema} (h : c.Writes subject s)
    (hp : c.policy.oneOf = false) : s.oneOf = [] := by
  cases h with
  | message hs =>
    obtain ⟨ts, -, rfl⟩ := messageSchema_eq_ok_iff.mp hs
    exact Policy.oneOf_scalar hp .object
  | field hs =>
    rcases fieldSchema_eq_ok_iff.mp hs with ⟨kind, a, -, ha, rfl⟩ | ⟨target, t, -, -, -, rfl⟩
    · rw [Field.ofElement_eq]
      split
      · exact Policy.oneOf_scalar hp .array
      · exact Field.oneOf_element hp ha
    · exact Policy.oneOf_scalar hp _
  | @element _ _ _ a ha =>
    have hone : a.oneOf = [] := Field.oneOf_element hp ha
    have hbare : a.bareElement.dropNull = a.bareElement := Schema.dropNull_eq_self hone
    rw [hbare]
    exact hone
  | enumeration e =>
    rw [Policy.enumSchema_eq, Policy.enumOneOf_eq_false hp]
    rfl

end Conversion

/-! ## Other members

Only nodes that admit objects have anything to say about other members. That a required message does
admit them is said too, as else the exception could be empty.
-/

/-- The subject is a field for a message that has to occur once. -/
def Subject.IsRequiredMessage : Subject → Prop
  | .field f => f.label = .required ∧ f.HoldsMessage
  | _ => False

/-- Whether a node that admits objects is open is decided by the policy and the subject. -/
structure Subject.Governs (subject : Subject) (p : Policy) (n : Schema) : Prop where
  /-- an object is open when the policy is, unless it has to occur once -/
  objects : .object ∈ n.types → ∃ more, n.additionalProperties = some more ∧
    (more = true ↔ p.additionalProperties = true ∧ ¬ subject.IsRequiredMessage)
  /-- a message that has to occur once is an object -/
  required : subject.IsRequiredMessage → .object ∈ n.types

theorem Subject.Governs.asDocument {subject : Subject} {p : Policy} {n : Schema}
    (h : subject.Governs p n) : subject.Governs p n.asDocument :=
  ⟨h.objects, h.required⟩

/-- Nothing is to be decided of a node that admits no objects. -/
theorem Subject.governs_of_not_mem {subject : Subject} (p : Policy) {n : Schema}
    (hn : .object ∉ n.types) (hsubject : ¬ subject.IsRequiredMessage) : subject.Governs p n :=
  ⟨fun h => absurd h hn, fun h => absurd h hsubject⟩

theorem Schema.IsPlain.object_not_mem {s : Schema} (h : s.IsPlain) : .object ∉ s.types := by
  intro hobject
  obtain ⟨-, hne⟩ := h.flat _ hobject
  exact hne rfl

/-- A scalar admits objects when it is one for objects. -/
theorem Policy.object_mem_types_iff (p : Policy) (ty : JsonType) :
    .object ∈ (p.scalar ty).types ↔ ty = .object := by
  rw [types_scalar]
  cases p.nullable <;> simp [eq_comm]

/-- The node around a message that may occur once is open when the policy is, unless it has to. -/
theorem Field.openness_eq_some {f : Field} (p : Policy) (hlabel : f.label ≠ .repeated) :
    ∃ more, f.openness p = some more ∧
      (more = true ↔ p.additionalProperties = true ∧ f.label ≠ .required) := by
  rw [openness]
  cases hp : p.additionalProperties with
  | false => exact ⟨false, rfl, by simp⟩
  | true =>
    cases hl : f.label with
    | optional => exact ⟨true, rfl, by simp⟩
    | required => exact ⟨false, rfl, by simp⟩
    | repeated => exact absurd hl hlabel

/-- The node around a message is governed by its field, repeated or not. -/
theorem Subject.governs_ofMessage {f : Field} (hf : f.HoldsMessage) (p : Policy)
    (message : Schema) : (Subject.field f).Governs p (f.ofMessage p message) := by
  have hrequired : (Subject.field f).IsRequiredMessage ↔ f.label = .required := and_iff_left hf
  have htypes : (f.ofMessage p message).types =
      (p.scalar (if f.label = .repeated then .array else .object)).types := rfl
  refine ⟨?_, ?_⟩
  · intro hobject
    rw [htypes, p.object_mem_types_iff] at hobject
    have hlabel : f.label ≠ .repeated := by
      intro hlabel
      rw [if_pos hlabel] at hobject
      cases hobject
    rw [hrequired]
    exact f.openness_eq_some p hlabel
  · intro h
    rw [htypes, p.object_mem_types_iff, hrequired.mp h]
    rfl

namespace Conversion

variable {c : Conversion}

/-- **Openness**: whatever is written is open or closed as the policy and its subject say. Only two
kinds of nodes admit objects, that of a message and that around an embedded one; the latter has the
label of its field to look at. -/
theorem Writes.governs {subject : Subject} {n : Schema} (h : c.Writes subject n) :
    subject.Governs c.policy n := by
  cases h with
  | message hs =>
    obtain ⟨ts, -, rfl⟩ := messageSchema_eq_ok_iff.mp hs
    refine ⟨fun _ => ⟨_, rfl, ?_⟩, fun h => h.elim⟩
    simp [Subject.IsRequiredMessage]
  | @field _ _ f _ hs =>
    rcases fieldSchema_eq_ok_iff.mp hs with ⟨kind, a, hkind, ha, rfl⟩ | ⟨target, t, hf, -, -, rfl⟩
    · have hplain := not_holdsMessage_of_element hkind ha
      refine Subject.governs_of_not_mem _ ?_ fun h => hplain h.2
      rw [Field.ofElement_eq]
      split
      · intro hobject
        cases (c.policy.object_mem_types_iff .array).mp hobject
      · exact (Field.isPlain_element ha).object_not_mem
    · exact Subject.governs_ofMessage hf.1 c.policy t
  | element ha =>
    have hplain := (Field.isPlain_element ha).bareElement.dropNull
    exact Subject.governs_of_not_mem _ hplain.object_not_mem fun h => h.elim
  | enumeration e =>
    exact Subject.governs_of_not_mem _ (c.policy.isPlain_enumSchema e).object_not_mem
      fun h => h.elim

end Conversion

/-! ## Documents -/

theorem Session.IsDocumentOf.policy_eq {s : Session} {c : Conversion} {subject : Subject}
    {document : Document} (h : s.IsDocumentOf c subject document) : c.policy = s.policy := by
  cases h <;> rfl

/-- At every place of a document, what the policy and the subject of the place say is said. -/
theorem Session.IsDocumentOf.governs {s : Session} {c : Conversion} {subject : Subject}
    {document : Document} (h : s.IsDocumentOf c subject document) {place : List Step} {n : Schema}
    (hn : document.schema.HasNodeAt place n) :
    ∃ subject', c.subjectAt subject place = some subject' ∧ subject'.Governs s.policy n ∧
      (s.policy.oneOf = false → n.oneOf = []) := by
  obtain ⟨subject', m, hsubject, hwrites, hnm⟩ := h.at hn
  have hgoverns := hwrites.governs
  have hone := hwrites.oneOf_eq_nil
  rw [h.policy_eq] at hgoverns hone
  refine ⟨subject', hsubject, ?_⟩
  rcases hnm with rfl | rfl
  · exact ⟨hgoverns, hone⟩
  · exact ⟨hgoverns.asDocument, hone⟩

/-- **Policies at every depth**: without unions no node of any document has one, and without other
members every node that admits objects is closed. Where other members are allowed, every node that
admits objects is open but for those of the message fields that have to occur once; these admit
objects and are closed. -/
theorem Session.generate_openness {o : Options} {p : Policy} (hp : o.resolve = .ok p)
    {forest : List File} {targets : List String} {documents : List Document}
    (h : ((⟨forest, p⟩ : Session).generate targets).result = .ok documents) :
    ∀ document ∈ documents,
      (o.disallowOneOf = true → document.schema.Everywhere fun n => n.oneOf = []) ∧
      (o.disallowAdditionalProperties = true → document.schema.Everywhere fun n =>
        .object ∈ n.types → n.additionalProperties = some false) ∧
      (o.disallowAdditionalProperties = false → ∃ c subject,
        (⟨forest, p⟩ : Session).IsDocumentOf c subject document ∧
        ∀ place n, document.schema.HasNodeAt place n →
          ∃ subject', c.subjectAt subject place = some subject' ∧
            (.object ∈ n.types →
              n.additionalProperties = some true ∨ subject'.IsRequiredMessage) ∧
            (subject'.IsRequiredMessage →
              .object ∈ n.types ∧ n.additionalProperties = some false)) := by
  intro document hmem
  obtain ⟨c, subject, hdocument⟩ := exists_isDocumentOf h hmem
  obtain ⟨hone, -, -, -, hmore⟩ := Options.allows_of_resolve hp
  refine ⟨?_, ?_, ?_⟩
  · intro ho n hn
    obtain ⟨place, hn⟩ := Schema.hasNode_iff.mp hn
    obtain ⟨subject', -, -, hnil⟩ := hdocument.governs hn
    apply hnil
    rw [hone, ho]
    rfl
  · intro ho n hn hobject
    obtain ⟨place, hn⟩ := Schema.hasNode_iff.mp hn
    obtain ⟨subject', -, hgoverns, -⟩ := hdocument.governs hn
    obtain ⟨more, hn, hiff⟩ := hgoverns.objects hobject
    rw [hmore, ho] at hiff
    rw [hn]
    simpa using hiff
  · intro ho
    refine ⟨c, subject, hdocument, fun place n hn => ?_⟩
    obtain ⟨subject', hsubject, hgoverns, -⟩ := hdocument.governs hn
    -- the policy allows other members, so that only the label can forbid them
    have hopen : ∀ more, (more = true ↔ p.additionalProperties = true ∧
        ¬ subject'.IsRequiredMessage) → (more = true ↔ ¬ subject'.IsRequiredMessage) := by
      intro more hiff
      rw [hiff, hmore, ho]
      exact and_iff_right rfl
    refine ⟨subject', hsubject, ?_, ?_⟩
    · intro hobject
      obtain ⟨more, hn, hiff⟩ := hgoverns.objects hobject
      by_cases hrequired : subject'.IsRequiredMessage
      · exact Or.inr hrequired
      · rw [hn, (hopen more hiff).mpr hrequired]
        exact Or.inl rfl
    · intro hrequired
      have hobject := hgoverns.required hrequired
      obtain ⟨more, hn, hiff⟩ := hgoverns.objects hobject
      have hclosed : more = false := by simpa [hrequired] using hopen more hiff
      exact ⟨hobject, hn.trans (congrArg some hclosed)⟩

/-! ### A home -/

namespace Home

/-- A room with a lamp that it has to have, and with others. -/
def room : Message :=
  { name := "Room"
    fields :=
      [{ name := "main", label := .required, typeNumber := 11, typeName := ".home.Lamp" },
       { name := "others", label := .repeated, typeNumber := 11, typeName := ".home.Lamp" }] }

/-- A file with rooms and lamps. -/
def file : File :=
  { name := "home.proto"
    package := "home"
    messages := [room, { name := "Lamp", fields := [{ name := "power", typeNumber := 5 }] }] }

end Home

/-- The documents of a home have open objects but for the main lamp. -/
theorem generate_openness_home : ∃ p, ({} : Options).resolve = .ok p ∧ ∃ documents,
    ((⟨[Home.file], p⟩ : Session).generate ["home.proto"]).result = .ok documents ∧
    ∀ document ∈ documents, ∃ c subject,
      (⟨[Home.file], p⟩ : Session).IsDocumentOf c subject document ∧
      ∀ place n, document.schema.HasNodeAt place n →
        ∃ subject', c.subjectAt subject place = some subject' ∧
          (.object ∈ n.types → n.additionalProperties = some true ∨ subject'.IsRequiredMessage) ∧
          (subject'.IsRequiredMessage →
            .object ∈ n.types ∧ n.additionalProperties = some false) := by
  obtain ⟨p, hp⟩ : ∃ p, ({} : Options).resolve = .ok p := ⟨_, rfl⟩
  have hsome : ((⟨[Home.file], p⟩ : Session).generate ["home.proto"]).result.toOption.isSome := by
    obtain rfl := Except.ok.inj hp
    with_unfolding_all rfl
  cases hrun : ((⟨[Home.file], p⟩ : Session).generate ["home.proto"]).result with
  | error e =>
    rw [hrun] at hsome
    cases hsome
  | ok documents =>
    refine ⟨p, hp, documents, hrun, fun document hmem => ?_⟩
    obtain ⟨-, -, hopen⟩ := Session.generate_openness hp hrun document hmem
    exact hopen rfl

end ProtoSchema
