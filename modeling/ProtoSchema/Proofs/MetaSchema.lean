import Mathlib.Data.List.Nodup
import ProtoSchema.Proofs.Shape

/-!
# Documents that are schemas

What draft-04 asks of a JSON value that is to be a schema, for the keywords that the documents use
(`Json.IsSchema`): each keyword holds a value of its form, and what is to be a schema in it is one.
A written document meets all of it but for one thing: the values listed under `enum` need not be
pairwise distinct, since an enum may give several names to one number. It is a schema of draft-04
exactly when no list in it repeats a value (`Session.generate_isDraft04`), and so always when no
enum of the files repeats a name, nor a number where numbers are listed.

What is asked of the values under `enum` is a parameter of the definition. So it is seen once that
everything else is in order (`Schema.isSchema_toJson_iff`), and what is left is a condition on the
lists of the nodes, wherever they stand.

The last part goes from these lists back to the enums: a node lists the values of an enum that was
in scope, with or without numbers (`Policy.ListsFrom`), and such a list repeats nothing exactly when
the enum does not (`EnumType.nodup_literals_iff`).
-/

namespace ProtoSchema

/-! ## Schemas in JSON

Members with other names are let through, as draft-04 does. A document may hold one member of a name
only, but this is not asked here.
-/

/-- A keyword of a schema. -/
inductive Keyword where
  /-- the draft that the document is of -/
  | version
  /-- what the items of an array have to be -/
  | items
  /-- what the members of an object have to be -/
  | properties
  /-- whether an object may have other members -/
  | additionalProperties
  /-- the only values allowed -/
  | enum
  /-- the type of the value -/
  | type
  /-- the alternatives -/
  | oneOf
  /-- a hint at the form of the value -/
  | format
  deriving DecidableEq, Repr

/-- The name of a keyword. -/
def Keyword.name : Keyword → String
  | version => "$schema"
  | items => "items"
  | properties => "properties"
  | additionalProperties => "additionalProperties"
  | enum => "enum"
  | type => "type"
  | oneOf => "oneOf"
  | format => "format"

/-- The names of the primitive types. -/
def simpleTypes : List String :=
  ["array", "boolean", "integer", "null", "number", "object", "string"]

mutual

/-- A JSON value is a schema, where `Listed` is asked of the values under `enum`. -/
inductive Json.IsSchema (Listed : List Json → Prop) : Json → Prop where
  /-- an object that has under each keyword what the keyword asks for -/
  | object {members : List (String × Json)}
    (h : ∀ m ∈ members, ∀ k : Keyword, m.1 = k.name → KeywordHolds Listed k m.2) :
    Json.IsSchema Listed (.object members)

/-- A keyword holds what it asks for. -/
inductive KeywordHolds (Listed : List Json → Prop) : Keyword → Json → Prop where
  /-- the address of the draft is a string -/
  | version (address : String) : KeywordHolds Listed .version (.string address)
  /-- the items are described by a schema -/
  | items {v : Json} (h : Json.IsSchema Listed v) : KeywordHolds Listed .items v
  /-- each property is described by a schema -/
  | properties {members : List (String × Json)}
    (h : ∀ m ∈ members, Json.IsSchema Listed m.2) :
    KeywordHolds Listed .properties (.object members)
  /-- other members are allowed or not -/
  | additionalProperties (b : Bool) : KeywordHolds Listed .additionalProperties (.boolean b)
  /-- the values allowed are an array -/
  | enum {values : List Json} (h : Listed values) : KeywordHolds Listed .enum (.array values)
  /-- the type is one of the primitive types -/
  | type {name : String} (h : name ∈ simpleTypes) : KeywordHolds Listed .type (.string name)
  /-- the alternatives are a non-empty array of schemas -/
  | oneOf {members : List Json} (hne : members ≠ [])
    (h : ∀ v ∈ members, Json.IsSchema Listed v) : KeywordHolds Listed .oneOf (.array members)
  /-- the hint at the form is a string -/
  | format (hint : String) : KeywordHolds Listed .format (.string hint)

end

/-- A JSON value is a schema of draft-04: the values under `enum` are some, and no two are equal. -/
def Json.IsDraft04 (v : Json) : Prop :=
  v.IsSchema fun values => values ≠ [] ∧ values.Nodup

section

variable {Listed : List Json → Prop}

theorem Keyword.name_injective {k k' : Keyword} (h : k.name = k'.name) : k = k' := by
  cases k <;> cases k' <;> first | rfl | exact absurd h (by decide)

/-! ## Members of a schema

The keywords of a node are written in a fixed order, each by a function that may write nothing. So
the members are asked for keyword by keyword.
-/

/-- The members hold what their keywords ask for. -/
def MembersHold (Listed : List Json → Prop) (members : List (String × Json)) : Prop :=
  ∀ m ∈ members, ∀ k : Keyword, m.1 = k.name → KeywordHolds Listed k m.2

/-- An object is a schema when its members hold what their keywords ask for. -/
theorem isSchema_object_iff {members : List (String × Json)} :
    (Json.object members).IsSchema Listed ↔ MembersHold Listed members := by
  refine ⟨?_, .object⟩
  rintro ⟨h⟩
  exact h

theorem membersHold_append {ms ms' : List (String × Json)} :
    MembersHold Listed (ms ++ ms') ↔ MembersHold Listed ms ∧ MembersHold Listed ms' :=
  List.forall_mem_append

theorem membersHold_nil : MembersHold Listed [] :=
  fun _ hm => absurd hm List.not_mem_nil

/-- A single member is asked for what its own keyword asks for. -/
theorem membersHold_singleton (k : Keyword) (v : Json) :
    MembersHold Listed [(k.name, v)] ↔ KeywordHolds Listed k v := by
  refine ⟨?_, ?_⟩
  · intro h
    exact h _ (List.mem_singleton_self _) k rfl
  · intro h m hm k' hk'
    obtain rfl := List.mem_singleton.mp hm
    obtain rfl := Keyword.name_injective hk'
    exact h

/-- A keyword that may be left out is asked for only where it is written. -/
theorem membersHold_keyword (k : Keyword) {α : Type} (value : Option α) (write : α → Json) :
    MembersHold Listed (keyword k.name value write) ↔
      ∀ v, value = some v → KeywordHolds Listed k (write v) := by
  cases value with
  | none => exact iff_of_true membersHold_nil fun v hv => (by cases hv)
  | some v =>
    rw [keyword, membersHold_singleton]
    exact ⟨fun h w hw => Option.some.inj hw ▸ h, fun h => h v rfl⟩

/-- A list is left out when it is empty. -/
theorem membersHold_listKeyword (k : Keyword) (vs : List Json) :
    MembersHold Listed (listKeyword k.name vs) ↔ (vs ≠ [] → KeywordHolds Listed k (.array vs)) := by
  cases vs with
  | nil => exact iff_of_true membersHold_nil fun h => absurd rfl h
  | cons v vs =>
    rw [listKeyword, membersHold_singleton]
    exact ⟨fun h _ => h, fun h => h (List.cons_ne_nil _ _)⟩

/-! ## What is written

Seven keywords of the eight are always in order, and the one for literals is left to the parameter.
-/

theorem propertiesToJson_eq (properties : List (String × Schema)) :
    propertiesToJson properties = properties.map fun e => (e.1, e.2.toJson) := by
  induction properties with
  | nil => rfl
  | cons e rest ih => rw [propertiesToJson, ih, List.map_cons]

theorem membersToJson_eq (members : List Schema) :
    membersToJson members = members.map Schema.toJson := by
  induction members with
  | nil => rfl
  | cons m rest ih => rw [membersToJson, ih, List.map_cons]

/-- The keyword for properties asks that each of them be a schema. -/
theorem membersHold_properties (properties : List (String × Schema)) :
    MembersHold Listed (propertiesKeyword (propertiesToJson properties)) ↔
      ∀ e ∈ properties, e.2.toJson.IsSchema Listed := by
  have hinner : (∀ m ∈ propertiesToJson properties, m.2.IsSchema Listed) ↔
      ∀ e ∈ properties, e.2.toJson.IsSchema Listed := by
    rw [propertiesToJson_eq, List.forall_mem_map]
  rw [← hinner]
  cases propertiesToJson properties with
  | nil => exact iff_of_true membersHold_nil fun m hm => absurd hm List.not_mem_nil
  | cons m ms =>
    refine (membersHold_singleton .properties _).trans ⟨?_, .properties⟩
    intro h
    cases h with
    | properties h => exact h

theorem membersHold_items (items : Option Schema) :
    MembersHold Listed (itemsToJson items) ↔
      ∀ i, items = some i → i.toJson.IsSchema Listed := by
  cases items with
  | none => exact iff_of_true membersHold_nil fun i hi => (by cases hi)
  | some i =>
    refine (membersHold_singleton .items _).trans ⟨?_, fun h => .items (h i rfl)⟩
    intro h j hj
    obtain rfl := Option.some.inj hj
    cases h with
    | items h => exact h

theorem JsonType.name_mem_simpleTypes (ty : JsonType) : ty.name ∈ simpleTypes := by
  cases ty <;> decide

theorem isSchema_ofType (ty : JsonType) : (Schema.ofType ty).toJson.IsSchema Listed :=
  isSchema_object_iff.mpr ((membersHold_singleton .type _).mpr (.type ty.name_mem_simpleTypes))

/-- The union of bare types is written as a non-empty array of schemas, or not at all. -/
theorem membersHold_oneOf (tys : List JsonType) :
    MembersHold Listed (listKeyword "oneOf" (membersToJson (tys.map .ofType))) := by
  refine (membersHold_listKeyword .oneOf _).mpr ?_
  intro hne
  refine .oneOf hne ?_
  intro v hv
  rw [membersToJson_eq, List.map_map] at hv
  obtain ⟨ty, -, rfl⟩ := List.mem_map.mp hv
  exact isSchema_ofType ty

/-- A node is written as a schema when its list of values is as it should be and the nodes right
below it are written as schemas. -/
theorem Schema.isSchema_toJson_step {s : Schema} {tys : List JsonType}
    (hone : s.oneOf = tys.map ofType) :
    s.toJson.IsSchema Listed ↔
      (s.literals ≠ [] → Listed (s.literals.map Literal.toJson)) ∧
      (∀ i, s.items = some i → i.toJson.IsSchema Listed) ∧
      ∀ e ∈ s.properties, e.2.toJson.IsSchema Listed := by
  obtain ⟨isRoot, items, properties, additionalProperties, literals, type, oneOf, format⟩ := s
  obtain rfl : oneOf = tys.map ofType := hone
  -- these keywords hold what they should whatever the node is
  have hversion : MembersHold Listed
      (keyword "$schema" (if isRoot then some draft04 else none) .string) :=
    (membersHold_keyword .version _ _).mpr fun address _ => .version address
  have hmore : MembersHold Listed (keyword "additionalProperties" additionalProperties .boolean) :=
    (membersHold_keyword .additionalProperties _ _).mpr fun b _ => .additionalProperties b
  have htype : MembersHold Listed (keyword "type" (type.map JsonType.name) .string) := by
    refine (membersHold_keyword .type _ _).mpr ?_
    intro name hname
    obtain ⟨ty, -, rfl⟩ := Option.map_eq_some_iff.mp hname
    exact .type ty.name_mem_simpleTypes
  have hformat : MembersHold Listed (keyword "format" format .string) :=
    (membersHold_keyword .format _ _).mpr fun hint _ => .format hint
  have hliterals : MembersHold Listed (listKeyword "enum" (literals.map Literal.toJson)) ↔
      (literals ≠ [] → Listed (literals.map Literal.toJson)) := by
    refine (membersHold_listKeyword .enum _).trans ?_
    rw [Ne, List.map_eq_nil_iff]
    refine forall_congr' fun _ => ⟨?_, .enum⟩
    intro h
    cases h with
    | enum h => exact h
  rw [toJson, isSchema_object_iff]
  simp only [membersHold_append, hversion, hmore, htype, hformat, hliterals, membersHold_items,
    membersHold_properties, membersHold_oneOf, true_and, and_true]
  tauto

/-- **A schema is written as a schema** when each of its nodes has the shape and lists values as it
should, and only then. The induction is on the nodes; one node is looked at in
`Schema.isSchema_toJson_step`. -/
theorem Schema.isSchema_toJson_iff {s : Schema} (hs : s.Everywhere WellShaped) :
    s.toJson.IsSchema Listed ↔
      s.Everywhere fun n => n.literals ≠ [] → Listed (n.literals.map Literal.toJson) := by
  induction s using Schema.induction with
  | step s hitems hproperties =>
    obtain ⟨hshape, hbelow, hbeside⟩ := everywhere_iff.mp hs
    obtain ⟨tys, htys, -⟩ := hshape.bare
    rw [isSchema_toJson_step htys, everywhere_iff]
    refine and_congr_right fun _ => and_congr ?_ ?_
    · exact forall₂_congr fun i hi => hitems i hi (hbelow i hi)
    · exact forall₂_congr fun e he => hproperties e he (hbeside e he)

end

/-! ## What is listed

Names and numbers cannot be mixed up, so that a list repeats something only when the enum does.
-/

/-- The enum gives no name twice, and no number twice where numbers are listed. -/
def EnumType.Distinct (e : EnumType) (withNumbers : Bool) : Prop :=
  (e.values.map (·.name)).Nodup ∧ (withNumbers = true → (e.values.map (·.number)).Nodup)

instance (e : EnumType) (withNumbers : Bool) : Decidable (e.Distinct withNumbers) :=
  inferInstanceAs (Decidable (_ ∧ _))

/-- The list of an enum repeats nothing exactly when the enum does not. -/
theorem EnumType.nodup_literals_iff (e : EnumType) (withNumbers : Bool) :
    (e.literals withNumbers).Nodup ↔ e.Distinct withNumbers := by
  rw [literals, Distinct]
  induction e.values with
  | nil => simp
  | cons v vs ih =>
    -- a name can only be repeated by a name, and a number by a number
    have hname : Literal.name v.name ∈ (vs.flatMap fun v =>
        .name v.name :: if withNumbers then [.number v.number] else []) ↔
          v.name ∈ vs.map (·.name) := by
      cases withNumbers <;> simp [List.mem_flatMap, eq_comm]
    cases withNumbers with
    | false =>
      simp only [Bool.false_eq_true, if_false, List.flatMap_cons, List.singleton_append,
        List.nodup_cons, List.map_cons, false_implies, and_true] at hname ih ⊢
      rw [hname, ih]
    | true =>
      have hnumber : Literal.number v.number ∈ (vs.flatMap fun v =>
          [.name v.name, .number v.number]) ↔ v.number ∈ vs.map (·.number) := by
        simp [List.mem_flatMap, eq_comm]
      simp only [if_true, List.flatMap_cons, List.cons_append, List.nil_append, List.nodup_cons,
        List.mem_cons, reduceCtorEq, false_or, List.map_cons, true_implies] at hname ih ⊢
      rw [hname, hnumber, ih]
      tauto

theorem Literal.toJson_injective : Function.Injective Literal.toJson := by
  intro l l' h
  cases l <;> cases l' <;> cases h <;> rfl

/-- A well-shaped schema is one of draft-04 exactly when no list in it repeats a value. -/
theorem Schema.isDraft04_iff {s : Schema} (hs : s.Everywhere WellShaped) :
    s.toJson.IsDraft04 ↔ s.Everywhere fun n => n.literals.Nodup := by
  rw [Json.IsDraft04, isSchema_toJson_iff hs]
  refine forall₂_congr fun n _ => ?_
  simp only [List.nodup_map_iff Literal.toJson_injective, ne_eq, List.map_eq_nil_iff]
  by_cases hnil : n.literals = []
  · simp [hnil]
  · simp [hnil]

/-- The document of an enum is a schema of draft-04 exactly when the enum repeats nothing that is
listed in it. -/
theorem Policy.isDraft04_enumSchema_iff (p : Policy) (e : EnumType) :
    (p.enumSchema e).asDocument.toJson.IsDraft04 ↔ e.Distinct p.enumOneOf := by
  have hplain := p.isPlain_enumSchema e
  have hshaped : (p.enumSchema e).asDocument.Everywhere Schema.WellShaped :=
    (hplain.everywhere hplain.wellShaped).asDocument hplain.wellShaped.asDocument
  rw [Schema.isDraft04_iff hshaped, ← e.nodup_literals_iff]
  refine ⟨fun h => h _ (.self _), fun h => ?_⟩
  exact (hplain.everywhere h).asDocument h

/-! ## Documents of a session -/

/-- The values that a plain field lists are those of an enum in scope. -/
theorem Field.literals_element {f : Field} {p : Policy} {scope : List EnumType} {kind : FieldKind}
    {a : Schema} (ha : f.element? p scope kind = some a) (hne : a.literals ≠ []) :
    ∃ e ∈ scope, a.literals = e.literals p.enumNumbers := by
  have hscalar : ∀ ty, (p.scalar ty).literals = [] := by
    intro ty
    rw [Policy.scalar_eq]
  cases kind with
  | int64 =>
    obtain rfl := Option.some.inj ha
    rw [Policy.bigInteger_eq] at hne
    split at hne <;> exact absurd rfl hne
  | enumeration =>
    obtain rfl := Option.some.inj ha
    rw [Policy.literals_enumField] at hne ⊢
    cases hfound : matchEnum scope f.typeName with
    | none =>
      rw [hfound] at hne
      exact absurd rfl hne
    | some e => exact ⟨e, List.mem_of_find?_eq_some hfound, rfl⟩
  | message =>
    obtain ⟨-, rfl⟩ := wellKnown_eq_some_iff.mp ha
    exact absurd rfl hne
  | _ =>
    obtain rfl := Option.some.inj ha
    exact absurd (hscalar _) hne

/-- A node lists nothing, or the values of an enum that meets the condition. -/
def Policy.ListsFrom (p : Policy) (E : EnumType → Prop) (n : Schema) : Prop :=
  n.literals = [] ∨ ∃ e, E e ∧ ∃ withNumbers, (withNumbers = true → p.enumNumbers = true) ∧
    n.literals = e.literals withNumbers

/-- Whatever is written lists values of an enum that could be seen, or nothing. -/
theorem Policy.writes_listed (p : Policy) (E : EnumType → Prop) :
    p.WritesNodes E (p.ListsFrom E) where
  element f scope kind a hscope ha := by
    have hplain := Field.isPlain_element ha
    have hlists : p.ListsFrom E a := by
      by_cases hnil : a.literals = []
      · exact Or.inl hnil
      · obtain ⟨e, he, hliterals⟩ := Field.literals_element ha hnil
        exact Or.inr ⟨e, hscope e he, p.enumNumbers, fun h => h, hliterals⟩
    rw [Field.ofElement_eq]
    split
    · refine everywhere_arrayOf hplain (Or.inl ?_) ?_
      · rw [arrayOf_eq, scalar_eq]
      · rw [ListsFrom, Schema.literals_dropNull]
        exact hlists
    · exact hplain.everywhere hlists
  embedded f message := by
    refine Or.inl ?_
    rw [Field.ofMessage, scalar_eq]
  message properties := by
    refine Or.inl ?_
    rw [messageSchema, scalar_eq]
  enumeration e he := by
    refine (p.isPlain_enumSchema e).everywhere (Or.inr ⟨e, he, p.enumOneOf, ?_, rfl⟩)
    exact enumNumbers_of_enumOneOf

/-- An enum that repeats nothing with its numbers repeats nothing without them. -/
theorem EnumType.Distinct.of_le {e : EnumType} {withNumbers withNumbers' : Bool}
    (h : e.Distinct withNumbers) (hle : withNumbers' = true → withNumbers = true) :
    e.Distinct withNumbers' :=
  ⟨h.1, fun hnumbers => h.2 (hle hnumbers)⟩

/-- **Documents as schemas**: every document of a session is a schema but for the values under
`enum`, which are some, but need not be distinct. It is a schema of draft-04 exactly when no list in
it repeats a value, and so whenever no enum of the files repeats a name, nor a number where numbers
are listed. -/
theorem Session.generate_isDraft04 {s : Session} {targets : List String}
    {documents : List Document} (h : (s.generate targets).result = .ok documents) :
    ∀ document ∈ documents,
      (document.schema.toJson.IsSchema fun values => values ≠ []) ∧
      (document.schema.toJson.IsDraft04 ↔
        ∀ n, document.schema.HasNode n → n.literals.Nodup) ∧
      ((∀ e ∈ s.declaredEnums, e.Distinct s.policy.enumNumbers) →
        document.schema.toJson.IsDraft04) := by
  intro document hmem
  have hshaped : document.schema.Everywhere Schema.WellShaped :=
    everywhere_generate ((s.policy.writes_wellShaped _).imp fun _ hn => hn.1)
      (fun _ hn => hn.asDocument) h document hmem
  have hlists : document.schema.Everywhere (s.policy.ListsFrom (· ∈ s.declaredEnums)) :=
    everywhere_generate (s.policy.writes_listed _) (fun _ hn => hn) h document hmem
  refine ⟨?_, Schema.isDraft04_iff hshaped, ?_⟩
  · rw [Schema.isSchema_toJson_iff hshaped]
    intro n _ hne
    simpa using hne
  · intro hdistinct
    rw [Schema.isDraft04_iff hshaped]
    intro n hn
    rcases hlists n hn with hnil | ⟨e, he, withNumbers, hle, hliterals⟩
    · rw [hnil]
      exact List.nodup_nil
    · rw [hliterals, e.nodup_literals_iff]
      exact (hdistinct e he).of_le hle

/-! ### Levels -/

namespace Levels

/-- A level whose numbers have one name each. -/
def plain : EnumType :=
  { name := "Level", values := [{ name := "LOW", number := 0 }, { name := "HIGH", number := 1 }] }

/-- A level whose least number has two names. -/
def aliased : EnumType :=
  { name := "Level", values := [{ name := "LOW", number := 0 }, { name := "LEAST", number := 0 }] }

/-- A file with one enum. -/
def file (e : EnumType) : File := { name := "levels.proto", enums := [e] }

/-- A session with one enum, under the policy that allows all but null. -/
def session (e : EnumType) : Session :=
  ⟨[file e], .allButNull⟩

end Levels

/-- The document of levels without aliases is a schema of draft-04. -/
theorem generate_isDraft04_levels :
    ∃ document,
      ((Levels.session Levels.plain).generate ["levels.proto"]).result = .ok [document] ∧
      document.schema.toJson.IsDraft04 := by
  obtain ⟨document, hrun⟩ : ∃ document,
      ((Levels.session Levels.plain).generate ["levels.proto"]).result = .ok [document] :=
    ⟨_, rfl⟩
  obtain ⟨-, -, hdistinct⟩ :=
    Session.generate_isDraft04 hrun document (List.mem_singleton_self document)
  exact ⟨document, hrun, hdistinct (by decide)⟩

/-- The document of levels with an alias lists a number twice, and is no schema of draft-04. -/
theorem aliased_levels_not_isDraft04 :
    ∃ document,
      ((Levels.session Levels.aliased).generate ["levels.proto"]).result = .ok [document] ∧
      document.schema.literals = [.name "LOW", .number 0, .name "LEAST", .number 0] ∧
      ¬ document.schema.toJson.IsDraft04 := by
  refine ⟨_, rfl, rfl, ?_⟩
  intro h
  have hdistinct := (Policy.isDraft04_enumSchema_iff _ Levels.aliased).mp h
  exact absurd hdistinct (by decide)

end ProtoSchema
