import ProtoSchema.Proofs.Alternatives
import ProtoSchema.Proofs.Registration
import ProtoSchema.Proofs.Runs

/-!
# The nodes of a schema

A schema is a tree: below a node stand the node of its items and those of its properties. The
members of a union are not counted as nodes, as they are part of what the node itself says.
Something holds `Everywhere` in a schema when it holds of each of its nodes.

What holds everywhere in the nodes that a policy writes (`Policy.WritesNodes`) holds everywhere in
all that is converted under it, since a conversion only puts such nodes together. An enum is written
only when it is in scope, so a condition on enums may be used that all enums meet which a conversion
can see.

This is the common part of several results on documents: each of them gives a property of nodes,
shows that the policy writes such nodes, and has the rest from `Session.everywhere_generate`. The
induction on the conversion is done here, in `Conversion.everywhere_messageSchema`, once for all
properties.
-/

namespace ProtoSchema

/-! ## Nodes

Two nodes that are equal count as one, as nothing is said of where they stand. Places are the matter
of another module.
-/

namespace Schema

/-- The second is a node of the first. -/
inductive HasNode : Schema → Schema → Prop where
  /-- the schema itself -/
  | self (s : Schema) : HasNode s s
  /-- a node of its items -/
  | items {s i n : Schema} (hi : s.items = some i) (hn : HasNode i n) : HasNode s n
  /-- a node of one of its properties -/
  | property {s n : Schema} {e : String × Schema} (he : e ∈ s.properties) (hn : HasNode e.2 n) :
    HasNode s n

/-- It holds of every node. -/
def Everywhere (P : Schema → Prop) (s : Schema) : Prop := ∀ n, s.HasNode n → P n

variable {P Q : Schema → Prop}

/-- It holds everywhere when it holds of the node itself and everywhere in the nodes right below. -/
theorem everywhere_iff {s : Schema} :
    s.Everywhere P ↔ P s ∧ (∀ i, s.items = some i → i.Everywhere P) ∧
      ∀ e ∈ s.properties, e.2.Everywhere P := by
  refine ⟨?_, ?_⟩
  · intro h
    exact ⟨h s (.self s), fun i hi n hn => h n (.items hi hn),
      fun e he n hn => h n (.property he hn)⟩
  · rintro ⟨hs, hitems, hproperties⟩ n hn
    cases hn with
    | self => exact hs
    | items hi hn => exact hitems _ hi n hn
    | property he hn => exact hproperties _ he n hn

theorem Everywhere.imp {s : Schema} (h : s.Everywhere P) (hPQ : ∀ n, P n → Q n) :
    s.Everywhere Q :=
  fun n hn => hPQ n (h n hn)

/-- It holds everywhere in a leaf when it holds of the leaf. -/
theorem IsLeaf.everywhere {s : Schema} (hs : s.IsLeaf) (h : P s) : s.Everywhere P := by
  rw [everywhere_iff, hs.items, hs.properties]
  exact ⟨h, fun i hi => (by cases hi), fun e he => absurd he List.not_mem_nil⟩

/-- What follows for a node from the nodes right below it holds of every schema. -/
theorem induction {motive : Schema → Prop}
    (step : ∀ s : Schema, (∀ i, s.items = some i → motive i) →
      (∀ e ∈ s.properties, motive e.2) → motive s) (s : Schema) : motive s := by
  refine step s (fun i hi => ?_) fun e he => ?_
  · have hlt : sizeOf i < sizeOf s := by
      obtain ⟨isRoot, items, properties, additionalProperties, literals, type, oneOf, format⟩ := s
      obtain rfl : items = some i := hi
      simp only [mk.sizeOf_spec, Option.some.sizeOf_spec]
      omega
    exact induction step i
  · have hlt : sizeOf e.2 < sizeOf s := by
      obtain ⟨isRoot, items, properties, additionalProperties, literals, type, oneOf, format⟩ := s
      obtain ⟨name, t⟩ := e
      have hmem := List.sizeOf_lt_of_mem he
      simp only [mk.sizeOf_spec, Prod.mk.sizeOf_spec] at hmem ⊢
      omega
    exact induction step e.2
termination_by sizeOf s

/-- The nodes of a document are the document and the nodes below. -/
theorem HasNode.of_asDocument {s n : Schema} (h : s.asDocument.HasNode n) :
    n = s.asDocument ∨ s.HasNode n := by
  cases h with
  | self => exact Or.inl rfl
  | items hi hn => exact Or.inr (.items hi hn)
  | property he hn => exact Or.inr (.property he hn)

/-- It holds everywhere in a document when it holds of the root with its marker. -/
theorem Everywhere.asDocument {s : Schema} (h : s.Everywhere P) (hroot : P s.asDocument) :
    s.asDocument.Everywhere P := by
  intro n hn
  rcases hn.of_asDocument with rfl | hn
  · exact hroot
  · exact h n hn

end Schema

/-! ## Properties

The properties of a message are a sorted table. What is needed of it is where its entries come from
and that its names ascend.
-/

/-- An entry of the table is the one that was put in, or was there before. -/
theorem mem_insertSorted {α : Type} {name : String} {entry : α} {t : List (String × α)}
    {e : String × α} (h : e ∈ insertSorted name entry t) : e = (name, entry) ∨ e ∈ t := by
  induction t with
  | nil => exact Or.inl (List.mem_singleton.mp h)
  | cons head rest ih =>
    obtain ⟨n, a⟩ := head
    rw [insertSorted] at h
    split at h
    · exact (List.mem_cons.mp h).imp_right (List.mem_cons_of_mem _)
    · split at h
      · exact List.mem_cons.mp h
      · rcases List.mem_cons.mp h with he | he
        · exact Or.inr (he ▸ List.mem_cons_self)
        · exact (ih he).imp_right (List.mem_cons_of_mem _)

theorem mem_sortedTable {α : Type} {entries : List (String × α)} {e : String × α}
    (h : e ∈ sortedTable entries) : e ∈ entries := by
  refine sortedTable_induction (motive := fun t => ∀ e ∈ t, e ∈ entries) entries ?_ ?_ e h
  · exact fun e he => absurd he List.not_mem_nil
  · intro t entry hentry ih e he
    rcases mem_insertSorted he with rfl | he
    · exact hentry
    · exact ih e he

/-- Inserting keeps the names ascending. -/
theorem ascending_insertSorted {α : Type} {t : List (String × α)}
    (h : t.Pairwise fun a b => a.1 < b.1) (name : String) (entry : α) :
    (insertSorted name entry t).Pairwise fun a b => a.1 < b.1 := by
  induction t with
  | nil => exact List.pairwise_singleton _ _
  | cons head rest ih =>
    obtain ⟨n, a⟩ := head
    obtain ⟨hhead, hrest⟩ := List.pairwise_cons.mp h
    rw [insertSorted]
    split
    · next hn =>
      -- the entry comes in place of the one that had the name
      subst hn
      exact .cons hhead hrest
    · next hn =>
      split
      · next hlt =>
        -- the name is less than the first, and so than all
        refine .cons (fun e he => ?_) h
        rcases List.mem_cons.mp he with rfl | he
        · exact hlt
        · exact String.lt_trans hlt (hhead e he)
      · next hle =>
        -- the first name stays the least
        refine .cons (fun e he => ?_) (ih hrest)
        rcases mem_insertSorted he with rfl | he
        · exact Std.lt_of_le_of_ne (String.not_lt.mp hle) hn
        · exact hhead e he

/-- The names of a sorted table ascend. -/
theorem ascending_sortedTable {α : Type} (entries : List (String × α)) :
    (sortedTable entries).Pairwise fun a b => a.1 < b.1 :=
  sortedTable_induction entries .nil fun _ e _ ht => ascending_insertSorted ht e.1 e.2

theorem nodup_sortedTable {α : Type} (entries : List (String × α)) :
    ((sortedTable entries).map (·.1)).Nodup := by
  rw [List.Nodup, List.pairwise_map]
  exact (ascending_sortedTable entries).imp fun h => Std.ne_of_lt h

/-- A property of a message is the schema of one of its fields. -/
theorem Message.mem_of_mem_propertyTable {m : Message} {schemas : List Schema}
    {e : String × Schema} (h : e ∈ m.propertyTable schemas) : e.2 ∈ schemas := by
  have hentry := mem_sortedTable h
  rw [← List.map_uncurry_zip_eq_zipWith] at hentry
  obtain ⟨⟨f, s⟩, hfs, rfl⟩ := List.mem_map.mp hentry
  exact (List.of_mem_zip hfs).2

/-! ## What a policy writes

Four functions write nodes, and the conversion calls no others. The structure has a field for each.
-/

/-- All nodes that the policy writes have the property, as long as the enums that they are written
from meet the condition. -/
structure Policy.WritesNodes (p : Policy) (E : EnumType → Prop) (P : Schema → Prop) : Prop where
  /-- the nodes of a field that embeds no message -/
  element : ∀ (f : Field) (scope : List EnumType) (kind : FieldKind) (a : Schema),
    (∀ e ∈ scope, E e) → f.element? p scope kind = some a → (f.ofElement p a).Everywhere P
  /-- the node around a message -/
  embedded : ∀ (f : Field) (message : Schema), P (f.ofMessage p message)
  /-- the node of a message -/
  message : ∀ properties : List (String × Schema), P (p.messageSchema properties)
  /-- the nodes of an enum -/
  enumeration : ∀ e : EnumType, E e → (p.enumSchema e).Everywhere P

theorem Policy.WritesNodes.imp {p : Policy} {E : EnumType → Prop} {P Q : Schema → Prop}
    (h : p.WritesNodes E P) (hPQ : ∀ n, P n → Q n) : p.WritesNodes E Q where
  element f scope kind a hscope ha := (h.element f scope kind a hscope ha).imp hPQ
  embedded f message := hPQ _ (h.embedded f message)
  message properties := hPQ _ (h.message properties)
  enumeration e he := (h.enumeration e he).imp hPQ

/-- It holds everywhere in an array of plain elements when it holds of the array and its items. -/
theorem Policy.everywhere_arrayOf {P : Schema → Prop} {p : Policy} {a : Schema} (ha : a.IsPlain)
    (harray : P (p.arrayOf a)) (hitems : P a.bareElement.dropNull) :
    (p.arrayOf a).Everywhere P := by
  rw [Schema.everywhere_iff]
  refine ⟨harray, ?_, ?_⟩
  · intro i hi
    obtain rfl := Option.some.inj hi
    exact ha.bareElement.dropNull.everywhere hitems
  · intro e he
    rw [arrayOf_eq] at he
    simp only [(p.isLeaf_scalar .array).properties] at he
    cases he

namespace Conversion

section

variable {c : Conversion} {E : EnumType → Prop} {P : Schema → Prop}

/-- It holds everywhere in the schema of a field, when it does in that of the message that the field
embeds. -/
theorem everywhere_fieldSchema (h : c.policy.WritesNodes E P) {path : List Declaration}
    {scope : List EnumType} (hscope : ∀ e ∈ scope, E e) {f : Field} {s : Schema}
    (hs : (c.fieldSchema path scope f).result = .ok s)
    (ih : ∀ target t, c.Embeds f target → target ∉ path →
      (c.messageSchema path (target.message.scopeWithin scope) target).result = .ok t →
      t.Everywhere P) : s.Everywhere P := by
  rcases fieldSchema_eq_ok_iff.mp hs with
    ⟨kind, a, -, ha, rfl⟩ | ⟨target, t, hf, hpath, ht, rfl⟩
  · exact h.element f scope kind a hscope ha
  · have hmessage := ih target t hf hpath ht
    obtain ⟨-, -, hproperties⟩ := Schema.everywhere_iff.mp hmessage
    rw [Schema.everywhere_iff]
    refine ⟨h.embedded f t, ?_, ?_⟩
    · intro i hi
      rw [Field.ofMessage] at hi
      split at hi
      · obtain rfl := Option.some.inj hi
        exact hmessage
      · cases hi
    · intro e he
      rw [Field.ofMessage] at he
      split at he
      · cases he
      · exact hproperties e he

/-- The enums in scope inside a message meet the condition when those around it and its own do. -/
theorem scopeWithin_meets {scope : List EnumType} (hscope : ∀ e ∈ scope, E e) {m : Message}
    (hm : ∀ e ∈ m.enums, E e) : ∀ e ∈ m.scopeWithin scope, E e := by
  rw [Message.scopeWithin]
  split
  · exact hscope
  · exact hm

/-- **Every node** of a message has what all nodes have that the policy writes. The induction is
that of the conversion, with the scope open: the enums in scope meet the condition at the beginning,
and those of the messages on the way do, as they are registered. -/
theorem everywhere_messageSchema (h : c.policy.WritesNodes E P)
    (hE : ∀ d ∈ c.registry.declarations, ∀ e ∈ d.message.enums, E e) (path : List Declaration)
    (d : Declaration) :
    ∀ scope, (∀ e ∈ scope, E e) → ∀ s, (c.messageSchema path scope d).result = .ok s →
      s.Everywhere P := by
  refine c.induction (motive := fun path d => ∀ scope, (∀ e ∈ scope, E e) → ∀ s,
    (c.messageSchema path scope d).result = .ok s → s.Everywhere P) ?_ path d
  intro path d ih scope hscope s hs
  obtain ⟨ts, hts, rfl⟩ := messageSchema_eq_ok_iff.mp hs
  rw [Schema.everywhere_iff]
  refine ⟨h.message _, ?_, ?_⟩
  · intro i hi
    rw [Policy.messageSchema] at hi
    simp only [(c.policy.isLeaf_scalar .object).items] at hi
    cases hi
  · intro e he
    obtain ⟨f, -, hf⟩ := exists_left_of_mem hts (Message.mem_of_mem_propertyTable he)
    apply everywhere_fieldSchema h hscope hf
    intro target t hembeds hpath ht
    have henums := hE target (Registry.mem_declarations_of_lookupType hembeds.2)
    exact ih f target hembeds hpath _ (scopeWithin_meets hscope henums) t ht

end

/-- Every node of a message by itself, and of a field, has what all nodes have that the policy
writes, whatever the enums are. -/
theorem everywhere_message {c : Conversion} {P : Schema → Prop}
    (h : c.policy.WritesNodes (fun _ => True) P) {d : Declaration} {visible : List EnumType}
    {s : Schema} (hs : (c.message d visible).result = .ok s) : s.Everywhere P :=
  everywhere_messageSchema h (fun _ _ _ _ => trivial) [] d _ (fun _ _ => trivial) s hs

theorem everywhere_field {c : Conversion} {P : Schema → Prop}
    (h : c.policy.WritesNodes (fun _ => True) P) {enclosing : Declaration} {f : Field}
    {visible : List EnumType} {s : Schema} (hs : (c.field enclosing f visible).result = .ok s) :
    s.Everywhere P := by
  apply everywhere_fieldSchema h (fun _ _ => trivial) hs
  intro target t _ _ ht
  exact everywhere_messageSchema h (fun _ _ _ _ => trivial) _ target _ (fun _ _ => trivial) t ht

end Conversion

/-! ## What a session writes -/

/-- Every enum that the files declare, at the top or inside a message at any depth. -/
def Session.declaredEnums (s : Session) : List EnumType :=
  s.enums ++ (forestMessages s.forest).flatMap fun m => m.2.all.flatMap (·.message.enums)

/-- An enum inside a message is declared in the files, however deep the message is. -/
theorem Session.mem_declaredEnums {s : Session} {m : String × Declaration}
    (hm : m ∈ forestMessages s.forest) {d : Declaration} (hd : d ∈ m.2.all) {e : EnumType}
    (he : e ∈ d.message.enums) : e ∈ s.declaredEnums := by
  rw [declaredEnums, List.mem_append, List.mem_flatMap]
  exact Or.inr ⟨m, hm, List.mem_flatMap.mpr ⟨d, hd, he⟩⟩

/-- **Every node of every document** of a session has what all nodes have that the policy writes
from enums of the files, as long as the marker of the root has no part in it. -/
theorem Session.everywhere_generate {s : Session} {P : Schema → Prop}
    (h : s.policy.WritesNodes (· ∈ s.declaredEnums) P) (hroot : ∀ n, P n → P n.asDocument)
    {targets : List String} {documents : List Document}
    (hdocuments : (s.generate targets).result = .ok documents) :
    ∀ document ∈ documents, document.schema.Everywhere P := by
  have hmarked : ∀ t : Schema, t.Everywhere P → t.asDocument.Everywhere P := by
    intro t ht
    exact ht.asDocument (hroot t (ht t (.self t)))
  intro document hmem
  rcases source_of_mem_generate hdocuments hmem with ⟨e, he, rfl⟩ | ⟨m, hm, id, t, -, ht, rfl⟩
  · exact hmarked _ (h.enumeration e (List.mem_append_left _ he))
  · apply hmarked
    refine Conversion.everywhere_messageSchema h ?_ [] m.2 _ ?_ t ht
    · intro d hd e he
      obtain ⟨m', hm', hd'⟩ := mem_declarations hd
      exact mem_declaredEnums hm' hd' he
    · intro e he
      rw [Message.outerScope, List.mem_append] at he
      rcases he with he | he
      · exact mem_declaredEnums hm m.2.mem_all_self he
      · exact List.mem_append_left _ he

end ProtoSchema
