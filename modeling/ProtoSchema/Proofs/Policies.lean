import ProtoSchema.Proofs.Runs
import ProtoSchema.Proofs.Steps

/-!
# One session under two policies

The policy is read where a node is written, and nowhere else: what a name resolves to, which message
is entered and what fails do not depend on it. So two runs over the same files under two policies go
side by side. If the nodes that the policies write are related wherever their parts are
(`Policy.Writes`), then so are the documents of the runs, one by one and under the same names, or
both runs fail alike (`Session.agree_generate`).

The relation is a parameter. Two modules fill it in, one with equality but for nulls and one with
the containment of what is accepted, and each has to look at the writing of single nodes only. What
goes through the conversion is not the relation itself but that both schemas of a message are made
of related properties (`Policy.WritesMessage`), since it is not the schema of a message that stands
around its properties in the end: inside a field the properties are put into another node.
-/

namespace ProtoSchema

/-! ## Tables with the same names

Where an entry is put in is a matter of the names alone, so that what is done to one table is done
to the other at the same place.
-/

/-- Two tables have the same names in the same order, and related entries under them. -/
def Aligned {α β : Type} (R : α → β → Prop) (as : List (String × α)) (bs : List (String × β)) :
    Prop :=
  List.Forall₂ (fun a b => a.1 = b.1 ∧ R a.2 b.2) as bs

namespace Aligned

variable {α β : Type} {R : α → β → Prop} {as : List (String × α)} {bs : List (String × β)}

theorem insertSorted (h : Aligned R as bs) {name : String} {a : α} {b : β} (hab : R a b) :
    Aligned R (insertSorted name a as) (insertSorted name b bs) := by
  induction h with
  | nil => exact .cons ⟨rfl, hab⟩ .nil
  | @cons x y as bs hxy h ih =>
    obtain ⟨n, e⟩ := x
    obtain ⟨n', e'⟩ := y
    obtain ⟨hn, he⟩ := hxy
    obtain rfl : n = n' := hn
    simp only [ProtoSchema.insertSorted]
    by_cases hname : n = name
    · rw [if_pos hname, if_pos hname]
      exact .cons ⟨rfl, hab⟩ h
    · rw [if_neg hname, if_neg hname]
      by_cases hlt : name < n
      · rw [if_pos hlt, if_pos hlt]
        exact .cons ⟨rfl, hab⟩ (.cons ⟨rfl, he⟩ h)
      · rw [if_neg hlt, if_neg hlt]
        exact .cons ⟨rfl, he⟩ ih

/-- Sorting keeps the tables aligned, since it looks at the names alone. -/
theorem sortedTable (h : Aligned R as bs) :
    Aligned R (sortedTable as) (sortedTable bs) := by
  refine List.rel_foldl (fun ts us hts x y hxy => ?_) .nil h
  obtain ⟨n, e⟩ := x
  obtain ⟨n', e'⟩ := y
  obtain ⟨hn, he⟩ := hxy
  obtain rfl : n = n' := hn
  exact hts.insertSorted he

end Aligned

/-- Related schemas of the fields make aligned tables of properties. -/
theorem Message.aligned_propertyTable (m : Message) {R : Schema → Schema → Prop}
    {ss ts : List Schema} (h : List.Forall₂ R ss ts) :
    Aligned R (m.propertyTable ss) (m.propertyTable ts) := by
  rw [propertyTable, propertyTable]
  refine Aligned.sortedTable ?_
  generalize m.fields = fields
  induction h generalizing fields with
  | nil =>
    rw [List.zipWith_nil_right]
    exact .nil
  | cons hst _ ih =>
    cases fields with
    | nil => exact .nil
    | cons f fields => exact .cons ⟨rfl, hst⟩ (ih fields)

/-! ## Policies

The four fields of the structure are for the four ways in which a node is written.
-/

/-- The nodes that two policies write are related wherever their parts are. -/
structure Policy.Writes (R : Schema → Schema → Prop) (p q : Policy) : Prop where
  /-- the nodes of a field that embeds no message -/
  element : ∀ (f : Field) (scope : List EnumType) (kind : FieldKind) (a b : Schema),
    f.element? p scope kind = some a → f.element? q scope kind = some b →
      R (f.ofElement p a) (f.ofElement q b)
  /-- the nodes of a field around a message -/
  embedded : ∀ (f : Field) (as bs : List (String × Schema)), Aligned R as bs →
    R (f.ofMessage p (p.messageSchema as)) (f.ofMessage q (q.messageSchema bs))
  /-- the documents of a message -/
  message : ∀ as bs : List (String × Schema), Aligned R as bs →
    R (p.messageSchema as).asDocument (q.messageSchema bs).asDocument
  /-- the documents of an enum -/
  enumeration : ∀ e : EnumType, R (p.enumSchema e).asDocument (q.enumSchema e).asDocument

/-- Two schemas of one message under two policies, made of related properties. -/
def Policy.WritesMessage (R : Schema → Schema → Prop) (p q : Policy) (s t : Schema) : Prop :=
  ∃ as bs, Aligned R as bs ∧ s = p.messageSchema as ∧ t = q.messageSchema bs

/-- Two documents of one name with related schemas. -/
def Document.Matches (R : Schema → Schema → Prop) (a b : Document) : Prop :=
  a.name = b.name ∧ R a.schema b.schema

namespace Conversion

/-- The same conversion under another policy. -/
def withPolicy (c : Conversion) (q : Policy) : Conversion := { c with policy := q }

/-- What offends does not depend on the policy. -/
theorem Offends.of_policy {c : Conversion} {path : List Declaration} {f : Field}
    {e : ConversionError} (h : c.Offends path f e) (q : Policy) :
    (c.withPolicy q).Offends path f e := by
  cases h with
  | unrecognized h => exact .unrecognized h
  | unresolved hf h => exact .unresolved hf h
  | recursive hf h => exact .recursive hf h

section

variable {R : Schema → Schema → Prop} {c : Conversion} {q : Policy}

/-- One field under two policies, when the messages that it can embed agree. -/
theorem agree_fieldSchema (h : Policy.Writes R c.policy q) {path : List Declaration}
    {scope : List EnumType} {f : Field}
    (ih : ∀ target, c.Embeds f target → target ∉ path →
      Agree (Policy.WritesMessage R c.policy q)
        (c.messageSchema path (target.message.scopeWithin scope) target).result
        ((c.withPolicy q).messageSchema path
          (target.message.scopeWithin scope) target).result) :
    Agree R (c.fieldSchema path scope f).result
      ((c.withPolicy q).fieldSchema path scope f).result := by
  rcases c.field_sorts path scope f with ⟨kind, a, hkind, ha⟩ | ⟨target, hf, hpath⟩ | ⟨e, he⟩
  · obtain ⟨b, hb⟩ : ∃ b, f.element? q scope kind = some b := by
      refine Option.ne_none_iff_exists'.mp fun hnone => ?_
      rw [Field.element?_eq_none_iff.mpr (Field.element?_eq_none_iff.mp hnone)] at ha
      cases ha
    rw [result_fieldSchema_of_element hkind ha, result_fieldSchema_of_element hkind hb]
    exact .ok (h.element f scope kind a b ha hb)
  · have hf' : (c.withPolicy q).Embeds f target := hf
    rw [result_fieldSchema_of_embeds hf hpath, result_fieldSchema_of_embeds hf' hpath]
    refine (ih target hf hpath).map ?_
    rintro s t ⟨as, bs, hab, rfl, rfl⟩
    exact h.embedded f as bs hab
  · rw [result_fieldSchema_of_offends he, result_fieldSchema_of_offends (he.of_policy q)]
    exact .error e

/-- **One message under two policies**: both conversions fail alike, or both make it of related
properties. -/
theorem agree_messageSchema (h : Policy.Writes R c.policy q) (path : List Declaration)
    (d : Declaration) :
    ∀ scope, Agree (Policy.WritesMessage R c.policy q) (c.messageSchema path scope d).result
      ((c.withPolicy q).messageSchema path scope d).result := by
  refine c.induction (motive := fun path d => ∀ scope,
    Agree (Policy.WritesMessage R c.policy q) (c.messageSchema path scope d).result
      ((c.withPolicy q).messageSchema path scope d).result)
    (fun path d ih scope => ?_) path d
  rw [result_messageSchema, result_messageSchema]
  have hfields := Agree.mapM d.message.fields fun f _ =>
    agree_fieldSchema h fun target hf hpath =>
      ih f target hf hpath (target.message.scopeWithin scope)
  refine hfields.map fun ss ts hst => ?_
  exact ⟨_, _, d.message.aligned_propertyTable hst, rfl, rfl⟩

end

end Conversion

/-! ## Files and sessions

Both runs have the files, the packages and the enums in common.
-/

section

variable {R : Schema → Schema → Prop} {p q : Policy}

/-- The documents of one message have one name and related schemas, or both fail alike. -/
theorem agree_messageDocument (h : Policy.Writes R p q) (r : Registry) (package : PackageId)
    (file : File) (visible : List EnumType) (d : Declaration) :
    Agree (Document.Matches R) (messageDocument ⟨r, package, p⟩ file visible d).result
      (messageDocument ⟨r, package, q⟩ file visible d).result := by
  rw [result_messageDocument, result_messageDocument]
  have hmessage := Conversion.agree_messageSchema (c := ⟨r, package, p⟩) h [] d
    (d.message.outerScope visible)
  refine hmessage.map ?_
  rintro s t ⟨as, bs, hab, rfl, rfl⟩
  exact ⟨rfl, h.message as bs hab⟩

theorem agree_typeDocuments (h : Policy.Writes R p q) (r : Registry) (file : File)
    (messages : List Declaration) (visible : List EnumType) :
    Agree (List.Forall₂ (Document.Matches R))
      (typeDocuments r p file messages visible).result
      (typeDocuments r q file messages visible).result := by
  by_cases hnil : messages = []
  · rw [hnil, result_typeDocuments_nil, result_typeDocuments_nil]
    refine .ok ?_
    rw [List.forall₂_map_left_iff, List.forall₂_map_right_iff, List.forall₂_same]
    exact fun e _ => ⟨rfl, h.enumeration e⟩
  · rw [result_typeDocuments_of_ne_nil _ _ _ hnil, result_typeDocuments_of_ne_nil _ _ _ hnil]
    -- the package is looked up alike in both runs
    cases (r.lookupPackage file.package).mapError (ConversionError.unknownPackage file.package) with
    | error e => exact .error e
    | ok package =>
      exact Agree.mapM messages fun d _ => agree_messageDocument h r package file visible d

/-- A target is the same file in both runs, and in the same package. -/
theorem Session.agree_documentsOf (h : Policy.Writes R p q) (forest : List File) (r : Registry)
    (target : String) :
    Agree (List.Forall₂ (Document.Matches R))
      ((⟨forest, p⟩ : Session).documentsOf r target).result
      ((⟨forest, q⟩ : Session).documentsOf r target).result := by
  have hfile : (⟨forest, q⟩ : Session).file? target = (⟨forest, p⟩ : Session).file? target := rfl
  rw [documentsOf, documentsOf, hfile]
  cases (⟨forest, p⟩ : Session).file? target with
  | none => exact .error _
  | some found =>
    obtain ⟨file, i⟩ := found
    have hdocuments := agree_typeDocuments h r file (file.declarations [i])
      (forest.flatMap (·.enums))
    rw [← file.result_documents, ← file.result_documents] at hdocuments
    exact hdocuments.mapError (SessionError.file target)

/-- **One session under two policies**: both runs fail alike, or they come to documents of the same
names in the same order with related schemas. -/
theorem Session.agree_generate (h : Policy.Writes R p q) (forest : List File)
    (targets : List String) :
    Agree (List.Forall₂ (Document.Matches R))
      ((⟨forest, p⟩ : Session).generate targets).result
      ((⟨forest, q⟩ : Session).generate targets).result := by
  rw [result_generate, result_generate]
  have htargets := Agree.mapM targets fun target _ =>
    agree_documentsOf h forest (⟨forest, p⟩ : Session).registry target
  exact htargets.map fun _ _ hds => List.rel_flatten hds

end

end ProtoSchema
