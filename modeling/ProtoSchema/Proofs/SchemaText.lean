import ProtoSchema.Proofs.JsonReader
import ProtoSchema.Proofs.MetaSchema

/-!
# The text of a schema

The text of a schema says all of it: a reader of JSON takes it, and from the object that it reads
the schema comes back, where an absent keyword holds nothing (`Schema.ofJson?`). So no two schemas
have one text.

The text is in order too (`Json.IsOrdered`): in every object that is a schema the keywords stand in
their fixed order, those that hold nothing are left out, and properties stand in ascending order of
their names. For the last it has to be known that the properties of every schema were put into a
sorted table (`Schema.Tabled`). The documents of a session are made so (`Session.tabled_generate`),
so that what holds of the text of a schema holds of their contents without a condition
(`Session.content_determines`).
-/

namespace ProtoSchema

/-! ## Reading

The reader goes through the members from the last to the first, and each puts its value into what
the others come to. It takes every order of the keywords and rejects those that it does not know.
-/

/-- The type of that name. -/
def JsonType.ofName? : String → Option JsonType
  | "null" => some .null
  | "boolean" => some .boolean
  | "integer" => some .integer
  | "number" => some .number
  | "string" => some .string
  | "array" => some .array
  | "object" => some .object
  | _ => none

/-- A literal from its JSON value. -/
def Literal.ofJson? : Json → Option Literal
  | .string s => some (.name s)
  | .integer n => some (.number n)
  | _ => none

mutual

/-- The schema that a JSON value writes. -/
def Schema.ofJson? : Json → Option Schema
  | .object members => Schema.ofMembers? members
  | _ => none

/-- The schema with these keywords; those that are absent hold nothing. -/
def Schema.ofMembers? : List (String × Json) → Option Schema
  | [] => some {}
  | ("$schema", .string address) :: rest => do
    let s ← Schema.ofMembers? rest
    if address = draft04 then some { s with isRoot := true } else none
  | ("items", v) :: rest => do
    let s ← Schema.ofMembers? rest
    let i ← Schema.ofJson? v
    some { s with items := some i }
  | ("properties", .object entries) :: rest => do
    let s ← Schema.ofMembers? rest
    let properties ← propertiesOf? entries
    some { s with properties := properties }
  | ("additionalProperties", .boolean b) :: rest => do
    let s ← Schema.ofMembers? rest
    some { s with additionalProperties := some b }
  | ("enum", .array values) :: rest => do
    let s ← Schema.ofMembers? rest
    let literals ← values.mapM Literal.ofJson?
    some { s with literals := literals }
  | ("type", .string name) :: rest => do
    let s ← Schema.ofMembers? rest
    let ty ← JsonType.ofName? name
    some { s with type := some ty }
  | ("oneOf", .array alternatives) :: rest => do
    let s ← Schema.ofMembers? rest
    let oneOf ← schemasOf? alternatives
    some { s with oneOf := oneOf }
  | ("format", .string hint) :: rest => do
    let s ← Schema.ofMembers? rest
    some { s with format := some hint }
  | _ => none

/-- The properties with these schemas. -/
def propertiesOf? : List (String × Json) → Option (List (String × Schema))
  | [] => some []
  | (name, v) :: rest => do
    let s ← Schema.ofJson? v
    let properties ← propertiesOf? rest
    some ((name, s) :: properties)

/-- The schemas in a row. -/
def schemasOf? : List Json → Option (List Schema)
  | [] => some []
  | v :: rest => do
    let s ← Schema.ofJson? v
    let schemas ← schemasOf? rest
    some (s :: schemas)

end

/-! ## Keyword by keyword

The lemmas below are all of one form. Let the rest of the members be read as some schema that has
nothing under the keyword; then with the keyword in front they are read as that schema with the
value put in, and when the value is left out the schema is as it was. They are chained in the order
in which the keywords are written.
-/

theorem JsonType.ofName?_name (ty : JsonType) : ofName? ty.name = some ty := by
  cases ty <;> rfl

theorem mapM_ofJson?_toJson (literals : List Literal) :
    (literals.map Literal.toJson).mapM Literal.ofJson? = some literals :=
  mapM_map_eq_pure fun l _ => by cases l <;> rfl

namespace Schema

section

variable {rest : List (String × Json)} {t : Schema} (h : ofMembers? rest = some t)
include h

/-- The marker of a document comes back, and no other address is one. -/
theorem ofMembers?_version (isRoot : Bool) (ht : t.isRoot = false) :
    ofMembers? (keyword "$schema" (if isRoot then some draft04 else none) .string ++ rest) =
      some { t with isRoot := isRoot } := by
  cases isRoot with
  | false =>
    cases t
    cases ht
    exact h
  | true =>
    change ofMembers? (("$schema", .string draft04) :: rest) = _
    rw [ofMembers?, h]
    rfl

theorem ofMembers?_properties {properties : List (String × Schema)} {entries : List (String × Json)}
    (hentries : propertiesOf? entries = some properties) (ht : t.properties = []) :
    ofMembers? (propertiesKeyword entries ++ rest) = some { t with properties := properties } := by
  cases entries with
  | nil =>
    cases t
    cases ht
    cases hentries
    exact h
  | cons entry entries =>
    change ofMembers? (("properties", .object (entry :: entries)) :: rest) = _
    rw [ofMembers?, h, hentries]
    rfl

theorem ofMembers?_additionalProperties (b : Option Bool) (ht : t.additionalProperties = none) :
    ofMembers? (keyword "additionalProperties" b .boolean ++ rest) =
      some { t with additionalProperties := b } := by
  cases b with
  | none =>
    cases t
    cases ht
    exact h
  | some b =>
    change ofMembers? (("additionalProperties", .boolean b) :: rest) = _
    rw [ofMembers?, h]
    rfl

theorem ofMembers?_literals (literals : List Literal) (ht : t.literals = []) :
    ofMembers? (listKeyword "enum" (literals.map Literal.toJson) ++ rest) =
      some { t with literals := literals } := by
  cases literals with
  | nil =>
    cases t
    cases ht
    exact h
  | cons l literals =>
    change ofMembers? (("enum", .array ((l :: literals).map Literal.toJson)) :: rest) = _
    rw [ofMembers?, h, mapM_ofJson?_toJson]
    rfl

theorem ofMembers?_type (ty : Option JsonType) (ht : t.type = none) :
    ofMembers? (keyword "type" (ty.map JsonType.name) .string ++ rest) =
      some { t with type := ty } := by
  cases ty with
  | none =>
    cases t
    cases ht
    exact h
  | some ty =>
    change ofMembers? (("type", .string ty.name) :: rest) = _
    rw [ofMembers?, h, JsonType.ofName?_name]
    rfl

theorem ofMembers?_oneOf {oneOf : List Schema} {alternatives : List Json}
    (halternatives : schemasOf? alternatives = some oneOf) (ht : t.oneOf = []) :
    ofMembers? (listKeyword "oneOf" alternatives ++ rest) = some { t with oneOf := oneOf } := by
  cases alternatives with
  | nil =>
    cases t
    cases ht
    cases halternatives
    exact h
  | cons v alternatives =>
    change ofMembers? (("oneOf", .array (v :: alternatives)) :: rest) = _
    rw [ofMembers?, h, halternatives]
    rfl

end

/-- The format is the last keyword, and nothing stands behind it. -/
theorem ofMembers?_format (format : Option String) :
    ofMembers? (keyword "format" format .string) = some { format := format } := by
  cases format <;> rfl

/-! ## Schemas

The recursion is that of the writing functions, over items, properties and members.
-/

mutual

/-- A schema comes back from its JSON value. -/
theorem ofJson?_toJson : (s : Schema) → ofJson? s.toJson = some s
  | ⟨isRoot, items, properties, additionalProperties, literals, type, oneOf, format⟩ => by
    -- from the last keyword to the first, each is put into what the ones behind it gave
    have h := ofMembers?_format format
    have h := ofMembers?_oneOf h (schemasOf?_membersToJson oneOf) rfl
    have h := ofMembers?_type h type rfl
    have h := ofMembers?_literals h literals rfl
    have h := ofMembers?_additionalProperties h additionalProperties rfl
    have h := ofMembers?_properties h (propertiesOf?_propertiesToJson properties) rfl
    have h := ofMembers?_itemsToJson items h rfl
    have h := ofMembers?_version h isRoot rfl
    rw [toJson, ofJson?]
    simpa only [List.append_assoc] using h

/-- The schema of the items comes back, if there is one. -/
theorem ofMembers?_itemsToJson : (items : Option Schema) → ∀ {rest : List (String × Json)}
    {t : Schema}, ofMembers? rest = some t → t.items = none →
    ofMembers? (itemsToJson items ++ rest) = some { t with items := items }
  | none, rest, t, h, ht => by
    cases t
    cases ht
    exact h
  | some s, rest, t, h, ht => by
    rw [itemsToJson, List.singleton_append, ofMembers?, h, ofJson?_toJson s]
    rfl

/-- Properties come back with their names, in their order. -/
theorem propertiesOf?_propertiesToJson : (properties : List (String × Schema)) →
    propertiesOf? (propertiesToJson properties) = some properties
  | [] => by rfl
  | (name, s) :: rest => by
    rw [propertiesToJson, propertiesOf?, ofJson?_toJson s, propertiesOf?_propertiesToJson rest]
    rfl

theorem schemasOf?_membersToJson : (schemas : List Schema) →
    schemasOf? (membersToJson schemas) = some schemas
  | [] => by rfl
  | s :: rest => by
    rw [membersToJson, schemasOf?, ofJson?_toJson s, schemasOf?_membersToJson rest]
    rfl

end

/-! ## Order

A table is sorted when it was made so. The definition asks for that, and not for ascending names, as
it is what the conversion gives.
-/

/-- The properties of the schema were put into a sorted table, and so were those of all schemas
inside it. -/
inductive Tabled : Schema → Prop where
  /-- a table, and tables in the items, the properties and the union -/
  | mk {s : Schema} (hproperties : ∃ entries, s.properties = sortedTable entries)
    (hitems : ∀ i, s.items = some i → i.Tabled) (hinside : ∀ e ∈ s.properties, e.2.Tabled)
    (hunion : ∀ m ∈ s.oneOf, m.Tabled) : s.Tabled

/-- Whether the schema holds something under the keyword. -/
def mentions (s : Schema) : Keyword → Bool
  | .version => s.isRoot
  | .items => s.items.isSome
  | .properties => !s.properties.isEmpty
  | .additionalProperties => s.additionalProperties.isSome
  | .enum => !s.literals.isEmpty
  | .type => s.type.isSome
  | .oneOf => !s.oneOf.isEmpty
  | .format => s.format.isSome

end Schema

/-- The keywords in the order in which they are written. -/
def keywordOrder : List Keyword :=
  [.version, .items, .properties, .additionalProperties, .enum, .type, .oneOf, .format]

/-- The value is a schema in order, and so are all schemas inside it. -/
inductive Json.IsOrdered : Json → Prop where
  /-- an object with the keywords under which the schema holds something, in their order, with the
  names of the properties ascending, and inside it the same again -/
  | object {members : List (String × Json)} {s : Schema}
    (hs : Schema.ofJson? (.object members) = some s)
    (hkeywords : members.map (·.1) = (keywordOrder.filter s.mentions).map Keyword.name)
    (hnames : ∀ entries, ("properties", .object entries) ∈ members →
      entries.Pairwise fun a b => a.1 < b.1)
    (hitems : ∀ v, ("items", v) ∈ members → v.IsOrdered)
    (hinside : ∀ entries e, ("properties", .object entries) ∈ members → e ∈ entries →
      e.2.IsOrdered)
    (hunion : ∀ alternatives v, ("oneOf", .array alternatives) ∈ members → v ∈ alternatives →
      v.IsOrdered) :
    Json.IsOrdered (.object members)

section

variable {key k : String} {v : Json}

theorem mem_keyword_iff {α : Type} {value : Option α} {write : α → Json} :
    (k, v) ∈ keyword key value write ↔ k = key ∧ ∃ a, value = some a ∧ v = write a := by
  cases value <;> simp [keyword]

theorem mem_listKeyword_iff {vs : List Json} :
    (k, v) ∈ listKeyword key vs ↔ k = key ∧ vs ≠ [] ∧ v = .array vs := by
  cases vs <;> simp [listKeyword]

theorem mem_propertiesKeyword_iff {entries : List (String × Json)} :
    (k, v) ∈ propertiesKeyword entries ↔ k = "properties" ∧ entries ≠ [] ∧ v = .object entries := by
  cases entries <;> simp [propertiesKeyword]

theorem mem_itemsToJson_iff {items : Option Schema} :
    (k, v) ∈ itemsToJson items ↔ k = "items" ∧ ∃ i, items = some i ∧ v = i.toJson := by
  cases items <;> simp [itemsToJson]

end

namespace Schema

/-- The keywords of a schema as they are written. -/
def members (s : Schema) : List (String × Json) :=
  keyword "$schema" (if s.isRoot then some draft04 else none) .string ++
    itemsToJson s.items ++
    propertiesKeyword (propertiesToJson s.properties) ++
    keyword "additionalProperties" s.additionalProperties .boolean ++
    listKeyword "enum" (s.literals.map Literal.toJson) ++
    keyword "type" (s.type.map JsonType.name) .string ++
    listKeyword "oneOf" (membersToJson s.oneOf) ++
    keyword "format" s.format .string

theorem toJson_eq (s : Schema) : s.toJson = .object s.members := by
  obtain ⟨isRoot, items, properties, additionalProperties, literals, type, oneOf, format⟩ := s
  rw [toJson]
  rfl

variable {s : Schema} {v : Json}

/-- What stands under the keyword for items is their schema. -/
theorem items_of_mem_members (h : ("items", v) ∈ s.members) :
    ∃ i, s.items = some i ∧ v = i.toJson := by
  simpa [members, mem_keyword_iff, mem_listKeyword_iff, mem_propertiesKeyword_iff,
    mem_itemsToJson_iff] using h

/-- What stands under the keyword for properties are all of them. -/
theorem properties_of_mem_members (h : ("properties", v) ∈ s.members) :
    v = .object (s.properties.map fun e => (e.1, e.2.toJson)) := by
  have hkeyword : ("properties", v) ∈ propertiesKeyword (propertiesToJson s.properties) := by
    simpa [members, mem_keyword_iff, mem_listKeyword_iff, mem_itemsToJson_iff] using h
  rw [← propertiesToJson_eq]
  exact (mem_propertiesKeyword_iff.mp hkeyword).2.2

/-- What stands under the keyword for a union are its members. -/
theorem oneOf_of_mem_members (h : ("oneOf", v) ∈ s.members) :
    v = .array (s.oneOf.map toJson) := by
  have hkeyword : ("oneOf", v) ∈ listKeyword "oneOf" (membersToJson s.oneOf) := by
    simpa [members, mem_keyword_iff, mem_listKeyword_iff, mem_propertiesKeyword_iff,
      mem_itemsToJson_iff] using h
  rw [← membersToJson_eq]
  exact (mem_listKeyword_iff.mp hkeyword).2.2

/-- Of these keywords those are written under which the schema holds something, in their order. -/
def Writes (s : Schema) (keywords : List Keyword) (written : List (String × Json)) : Prop :=
  written.map (·.1) = (keywords.filter s.mentions).map Keyword.name

/-- What is written for some keywords and then for others is written for all of them. -/
theorem Writes.append {keywords keywords' : List Keyword} {written written' : List (String × Json)}
    (h : s.Writes keywords written) (h' : s.Writes keywords' written') :
    s.Writes (keywords ++ keywords') (written ++ written') := by
  rw [Writes, List.map_append, List.filter_append, List.map_append, h, h']

/-- A keyword is written when there is something under it. -/
theorem writes_keyword {α : Type} (k : Keyword) {value : Option α} {write : α → Json}
    (h : s.mentions k = value.isSome) : s.Writes [k] (keyword k.name value write) := by
  cases value <;> simp [Writes, keyword, h]

theorem writes_listKeyword (k : Keyword) {vs : List Json} (h : s.mentions k = !vs.isEmpty) :
    s.Writes [k] (listKeyword k.name vs) := by
  cases vs <;> simp [Writes, listKeyword, h]

/-- **All keywords** are written in their order, those left out that hold nothing. -/
theorem writes_members (s : Schema) : s.Writes keywordOrder s.members := by
  have hversion : s.Writes [.version]
      (keyword "$schema" (if s.isRoot then some draft04 else none) .string) :=
    writes_keyword .version (by rw [mentions]; cases s.isRoot <;> rfl)
  have hitems : s.Writes [.items] (itemsToJson s.items) := by
    cases hi : s.items <;> simp [Writes, itemsToJson, mentions, hi, Keyword.name]
  have hproperties : s.Writes [.properties]
      (propertiesKeyword (propertiesToJson s.properties)) := by
    cases hp : s.properties <;>
      simp [Writes, propertiesToJson, propertiesKeyword, mentions, hp, Keyword.name]
  have hadditional : s.Writes [.additionalProperties]
      (keyword "additionalProperties" s.additionalProperties .boolean) :=
    writes_keyword .additionalProperties rfl
  have henum : s.Writes [.enum] (listKeyword "enum" (s.literals.map Literal.toJson)) :=
    writes_listKeyword .enum (by rw [mentions, List.isEmpty_map])
  have htype : s.Writes [.type] (keyword "type" (s.type.map JsonType.name) .string) :=
    writes_keyword .type (by rw [mentions, Option.isSome_map])
  have hone : s.Writes [.oneOf] (listKeyword "oneOf" (membersToJson s.oneOf)) :=
    writes_listKeyword .oneOf (by rw [mentions, membersToJson_eq, List.isEmpty_map])
  have hformat : s.Writes [.format] (keyword "format" s.format .string) :=
    writes_keyword .format rfl
  exact ((((((hversion.append hitems).append hproperties).append hadditional).append henum).append
    htype).append hone).append hformat

/-- What is written for a schema is in order when the properties are in tables. -/
theorem Tabled.isOrdered_toJson {s : Schema} (h : s.Tabled) : s.toJson.IsOrdered := by
  induction h with
  | @mk s hproperties hitems hinside hunion ihitems ihinside ihunion =>
    have hread := ofJson?_toJson s
    rw [toJson_eq] at hread ⊢
    refine .object hread s.writes_members ?_ ?_ ?_ ?_
    · intro entries hmem
      obtain rfl := Json.object.inj (properties_of_mem_members hmem)
      obtain ⟨inserted, htable⟩ := hproperties
      rw [List.pairwise_map, htable]
      exact ascending_sortedTable inserted
    · intro v hmem
      obtain ⟨i, hi, rfl⟩ := items_of_mem_members hmem
      exact ihitems i hi
    · intro entries e hmem he
      obtain rfl := Json.object.inj (properties_of_mem_members hmem)
      obtain ⟨e, hproperty, rfl⟩ := List.mem_map.mp he
      exact ihinside e hproperty
    · intro alternatives v hmem hv
      obtain rfl := Json.array.inj (oneOf_of_mem_members hmem)
      obtain ⟨m, hm, rfl⟩ := List.mem_map.mp hv
      exact ihunion m hm

theorem tabled_ofType (ty : JsonType) : (ofType ty).Tabled :=
  .mk ⟨[], rfl⟩ nofun nofun nofun

/-- Where a union has bare types only, tables are left to be found in properties and items. -/
theorem Tabled.of_bare {s : Schema} (hbare : ∀ m ∈ s.oneOf, ∃ ty, m = ofType ty)
    (hproperties : ∃ entries, s.properties = sortedTable entries)
    (hitems : ∀ i, s.items = some i → i.Tabled) (hinside : ∀ e ∈ s.properties, e.2.Tabled) :
    s.Tabled := by
  refine .mk hproperties hitems hinside fun m hm => ?_
  obtain ⟨ty, rfl⟩ := hbare m hm
  exact tabled_ofType ty

theorem IsLeaf.tabled {s : Schema} (h : s.IsLeaf) : s.Tabled := by
  refine .of_bare h.bare ⟨[], h.properties⟩ (fun i hi => ?_) fun e he => ?_
  · rw [h.items] at hi
    cases hi
  · rw [h.properties] at he
    exact absurd he List.not_mem_nil

/-- The marker of the root has no part in it. -/
theorem Tabled.asDocument {s : Schema} (h : s.Tabled) : s.asDocument.Tabled := by
  cases h with
  | mk hproperties hitems hinside hunion => exact .mk hproperties hitems hinside hunion

/-! ## The text

Writing is undone in two steps: the text is read as a JSON value, which is a result on JSON alone,
and the schema is read from that value.
-/

/-- No two schemas have one text. -/
theorem text_injective {s t : Schema} (h : t.text = s.text) : t = s := by
  -- the two texts are read as one value, and from that both schemas come back
  have hvalue : t.toJson = s.toJson := by
    have hread := Json.parse_text t.toJson
    rw [← text, h, text, Json.parse_text] at hread
    exact (Option.some.inj hread).symm
  have hread := ofJson?_toJson t
  rw [hvalue, ofJson?_toJson] at hread
  exact (Option.some.inj hread).symm

/-- **The text of a schema** determines it. A reader of JSON takes the text, and the schema comes
back from what it reads, so that no other schema has the text. Where properties are in tables, the
keywords stand in their order, those that hold nothing are left out, and the names of the properties
ascend, in the schema and in all schemas inside it. -/
theorem text_determines (s : Schema) :
    ∃ v, Json.parse s.text = some v ∧ ofJson? v = some s ∧
      (∀ t : Schema, t.text = s.text → t = s) ∧ (s.Tabled → v.IsOrdered) := by
  exact ⟨s.toJson, Json.parse_text _, ofJson?_toJson s, fun t => text_injective,
    Tabled.isOrdered_toJson⟩

/-- Properties whose names have to be escaped, one of them a union. -/
def columns : List (String × Schema) :=
  [("row\n", ofType .integer), ("\"cell\"", nullable .string)]

/-- A document with these properties. -/
def sheet : Schema :=
  { isRoot := true
    properties := sortedTable columns
    literals := [.name "\\", .number (-7)]
    type := some .object
    format := some "\x01" }

/-- The document comes back from its text, which is in order. -/
theorem text_determines_sheet :
    ∃ v, Json.parse sheet.text = some v ∧ ofJson? v = some sheet ∧ v.IsOrdered := by
  have hunion : (nullable .string).Tabled := by
    refine .mk ⟨[], rfl⟩ nofun nofun fun m hm => ?_
    rcases List.mem_pair.mp hm with rfl | rfl
    · exact tabled_ofType .null
    · exact tabled_ofType .string
  have htabled : sheet.Tabled := by
    refine .mk ⟨_, rfl⟩ nofun (fun e he => ?_) nofun
    have hcolumn : e ∈ columns := mem_sortedTable he
    rcases List.mem_pair.mp hcolumn with rfl | rfl
    · exact tabled_ofType .integer
    · exact hunion
  obtain ⟨v, hparse, hread, -, hordered⟩ := text_determines sheet
  exact ⟨v, hparse, hread, hordered htabled⟩

end Schema

/-! ## Documents

Only messages have properties, and theirs are put into a table by the conversion itself.
-/

/-- What is written for a plain field has no properties, in its items neither. -/
theorem Field.tabled_ofElement (f : Field) (p : Policy) {a : Schema} (ha : a.IsPlain) :
    (f.ofElement p a).Tabled := by
  rw [ofElement_eq]
  split
  · rw [Policy.arrayOf_eq]
    refine .of_bare (p.isLeaf_scalar .array).bare ⟨[], (p.isLeaf_scalar .array).properties⟩ ?_ ?_
    · intro i hi
      obtain rfl := Option.some.inj hi
      exact ha.bareElement.dropNull.tabled
    · intro e he
      simp only [(p.isLeaf_scalar .array).properties] at he
      exact absurd he List.not_mem_nil
  · exact ha.tabled

/-- The node around a message has the properties of that message, or has it as its items. -/
theorem Field.tabled_ofMessage (f : Field) (p : Policy) {message : Schema} (h : message.Tabled) :
    (f.ofMessage p message).Tabled := by
  rw [ofMessage]
  split
  · refine .of_bare (p.isLeaf_scalar .array).bare ⟨[], rfl⟩ (fun i hi => ?_) fun e he => ?_
    · obtain rfl := Option.some.inj hi
      exact h
    · exact absurd he List.not_mem_nil
  · obtain ⟨hproperties, -, hinside, -⟩ := h
    refine .of_bare (p.isLeaf_scalar .object).bare hproperties (fun i hi => ?_) hinside
    cases hi

/-- The properties of a message are in a table, and so are those of all messages inside it. -/
theorem Conversion.tabled_messageSchema (c : Conversion) (path : List Declaration)
    (d : Declaration) : ∀ scope s, (c.messageSchema path scope d).result = .ok s → s.Tabled := by
  refine c.induction (motive := fun path d => ∀ scope s,
    (c.messageSchema path scope d).result = .ok s → s.Tabled) ?_ path d
  intro path d ih scope s hs
  obtain ⟨ts, hts, rfl⟩ := messageSchema_eq_ok_iff.mp hs
  refine .of_bare (c.policy.isLeaf_scalar .object).bare ⟨_, rfl⟩ ?_ ?_
  · intro i hi
    rw [Policy.messageSchema] at hi
    simp only [(c.policy.isLeaf_scalar .object).items] at hi
    cases hi
  · intro e he
    obtain ⟨f, -, hf⟩ := exists_left_of_mem hts (Message.mem_of_mem_propertyTable he)
    rcases fieldSchema_eq_ok_iff.mp hf with
      ⟨kind, a, -, ha, hvalue⟩ | ⟨target, t, hembeds, hpath, ht, hvalue⟩
    · rw [hvalue]
      exact f.tabled_ofElement c.policy (Field.isPlain_element ha)
    · rw [hvalue]
      exact f.tabled_ofMessage c.policy (ih f target hembeds hpath _ t ht)

/-- The documents of a session have their properties in tables. -/
theorem Session.tabled_generate {s : Session} {targets : List String} {documents : List Document}
    (hdocuments : (s.generate targets).result = .ok documents) {document : Document}
    (hmem : document ∈ documents) : document.schema.Tabled := by
  rcases source_of_mem_generate hdocuments hmem with ⟨e, -, rfl⟩ | ⟨m, -, id, t, -, ht, rfl⟩
  · exact (s.policy.isPlain_enumSchema e).tabled.asDocument
  · exact (Conversion.tabled_messageSchema _ [] m.2 _ t ht).asDocument

/-- **The content of a document** of a session determines its schema. This is what the text of any
schema does, and as the properties of the documents are in tables, nothing has to be asked for the
order: a reader takes the content, the schema comes back from what it reads and no other schema is
written so, and keywords and properties are in order throughout. -/
theorem Session.content_determines {s : Session} {targets : List String}
    {documents : List Document} (hdocuments : (s.generate targets).result = .ok documents) :
    ∀ document ∈ documents, ∃ v, Json.parse document.content = some v ∧
      Schema.ofJson? v = some document.schema ∧
      (∀ t : Schema, t.text = document.content → t = document.schema) ∧ v.IsOrdered := by
  intro document hmem
  exact ⟨document.schema.toJson, Json.parse_text _, Schema.ofJson?_toJson _,
    fun t => Schema.text_injective, (s.tabled_generate hdocuments hmem).isOrdered_toJson⟩

end ProtoSchema
