import ProtoSchema.Proofs.Embedding

/-!
# Chains of fields

From a message a chain of fields leads inwards: each field embeds the message that the next field
belongs to (`Conversion.Chain`). A conversion that succeeds goes along every chain that begins at
its message, and it takes two things along: the messages that it is inside of, and the enums in
scope (`scopeAlong`). So every field at the end of a chain is converted with what was taken along,
and unless later fields have its name or the names before it, what it comes to stands in the schema,
at the place that the chain leads to (`Conversion.comesTo_of_chain`).

The proof is by induction on the chain. The step has two sides, one for each thing that is said: a
field that converts has its message converted inside it, which gives the call at which the rest of
the chain begins, and the schema of that message stands around or below the node of the field
(`Field.Surrounds`), which gives the rest of the place.
-/

namespace ProtoSchema

/-! ## Places

A place is a list of steps, each to a property of that name or to the items of an array. Fields
leave both kinds behind: a field with many values has one step more than another.
-/

/-- The node one step below. -/
def Schema.below? (s : Schema) : Step → Option Schema
  | .items => s.items
  | .property name => s.properties.lookup name

/-- The node at the place. -/
def Schema.nodeAt? (s : Schema) (place : List Step) : Option Schema :=
  place.foldlM Schema.below? s

/-- The steps from the node of a message to that of the message which its field embeds. -/
def Field.steps (f : Field) : List Step :=
  .property f.propertyName :: if f.label = .repeated then [.items] else []

/-- The place of a field at the end of a chain of fields. -/
def placeOf (fields : List Field) (f : Field) : List Step :=
  fields.flatMap Field.steps ++ [.property f.propertyName]

theorem Schema.nodeAt?_cons (s : Schema) (step : Step) (place : List Step) :
    s.nodeAt? (step :: place) = s.below? step >>= fun n => n.nodeAt? place :=
  List.foldlM_cons

/-- The place at the end of a longer chain begins with the property of the first field. -/
theorem placeOf_cons (f g : Field) (fields : List Field) :
    placeOf (f :: fields) g = .property f.propertyName ::
      ((if f.label = .repeated then [.items] else []) ++ placeOf fields g) := by
  rw [placeOf, List.flatMap_cons, Field.steps, placeOf, List.append_assoc, List.cons_append]

/-- Nodes with the same properties have the same nodes below their properties. -/
theorem nodeAt?_placeOf_congr {s t : Schema} (h : s.properties = t.properties)
    (fields : List Field) (f : Field) :
    s.nodeAt? (placeOf fields f) = t.nodeAt? (placeOf fields f) := by
  cases fields with
  | nil =>
    change s.nodeAt? [.property f.propertyName] = t.nodeAt? [.property f.propertyName]
    rw [Schema.nodeAt?_cons, Schema.nodeAt?_cons, Schema.below?, Schema.below?, h]
  | cons g fields =>
    rw [placeOf_cons, Schema.nodeAt?_cons, Schema.nodeAt?_cons, Schema.below?, Schema.below?, h]

/-- What is below the message that a field embeds is below the field. -/
theorem Field.Surrounds.nodeAt? {f : Field} {n t : Schema} (h : f.Surrounds n t)
    (fields : List Field) (g : Field) :
    n.nodeAt? ((if f.label = .repeated then [.items] else []) ++ placeOf fields g) =
      t.nodeAt? (placeOf fields g) := by
  rw [Field.Surrounds] at h
  split at h
  · next hlabel =>
    rw [if_pos hlabel, List.singleton_append, Schema.nodeAt?_cons, Schema.below?, h]
    rfl
  · next hlabel =>
    rw [if_neg hlabel, List.nil_append]
    exact nodeAt?_placeOf_congr h fields g

/-! ## Enums in scope

On the way inwards the scope changes at each message that declares enums of its own, and stays as it
is at the others.
-/

/-- The enums in scope, passed on from message to message. -/
def scopeAlong (scope : List EnumType) (messages : List Declaration) : List EnumType :=
  messages.foldl (fun scope m => m.message.scopeWithin scope) scope

/-! ## Chains

A chain names the messages as well as the fields, so that what is taken along can be said without
looking anything up again. Two fields of one message may have the same JSON name, and then the later
one stands in the schema. This is what `Message.Keeps` is about.
-/

/-- The field becomes a property of its message: no later field has its name. -/
def Message.Keeps (m : Message) (f : Field) : Prop := m.fieldNamed f.propertyName = some f

namespace Conversion

/-- The fields lead from the first declaration to the last, through the messages that they embed. -/
inductive Chain (c : Conversion) :
    Declaration → List Field → List Declaration → Declaration → Prop where
  /-- no fields lead nowhere else -/
  | nil (d : Declaration) : Chain c d [] [] d
  /-- a field of the first declaration, and on from the message that it embeds -/
  | cons {d target e : Declaration} {f : Field} {fields : List Field}
    {messages : List Declaration} (hmem : f ∈ d.message.fields) (hf : c.Embeds f target)
    (h : Chain c target fields messages e) : Chain c d (f :: fields) (target :: messages) e

/-- Each field of the chain becomes a property of its message. -/
def KeepsAll (c : Conversion) : Declaration → List Field → Prop
  | _, [] => True
  | d, f :: fields => d.message.Keeps f ∧ ∀ target, c.Embeds f target → c.KeepsAll target fields

/-- Where a successful conversion of a message comes to a field along a chain, it comes to the
node. -/
structure ComesTo (c : Conversion) (d : Declaration) (visible : List EnumType) (s : Schema)
    (fields : List Field) (messages : List Declaration) (f : Field) (n : Schema) : Prop where
  /-- the field is converted inside the messages of the chain, with the enums passed on along it -/
  result_eq : (c.fieldSchema (d :: messages).reverse
    (scopeAlong (d.message.outerScope visible) messages) f).result = .ok n
  /-- unless later fields come in its place, the node stands in the schema of the message -/
  nodeAt?_eq : c.KeepsAll d (fields ++ [f]) → s.nodeAt? (placeOf fields f) = some n

variable {c : Conversion} {path : List Declaration} {scope : List EnumType} {d e : Declaration}
  {f : Field} {s n : Schema}

/-- What is kept along a chain is kept along the beginning of it. -/
theorem KeepsAll.of_append {fields gs : List Field} (h : c.KeepsAll d (fields ++ gs)) :
    c.KeepsAll d fields := by
  induction fields generalizing d with
  | nil => trivial
  | cons f fields ih => exact ⟨h.1, fun target hf => ih (h.2 target hf)⟩

/-- All fields of a message that converts convert. -/
theorem exists_fieldSchema (hs : (c.messageSchema path scope d).result = .ok s)
    (hf : f ∈ d.message.fields) : ∃ n, (c.fieldSchema (d :: path) scope f).result = .ok n := by
  rw [result_messageSchema, map_eq_ok_iff] at hs
  obtain ⟨ts, hts, -⟩ := hs
  exact exists_mapM_eq_ok_iff.mp ⟨ts, hts⟩ f hf

/-- A field that is not replaced is the property of its name. -/
theorem lookup_of_keeps (hs : (c.messageSchema path scope d).result = .ok s)
    (hf : d.message.Keeps f) (hn : (c.fieldSchema (d :: path) scope f).result = .ok n) :
    s.properties.lookup f.propertyName = some n := by
  obtain ⟨ts, hts, rfl⟩ := messageSchema_eq_ok_iff.mp hs
  change (d.message.propertyTable ts).lookup f.propertyName = some n
  have hlookup := Message.lookup_propertyTable hts f.propertyName
  rw [hf] at hlookup
  rcases hfound : (d.message.propertyTable ts).lookup f.propertyName with _ | n'
  · rw [hfound] at hlookup
    cases hlookup
  · rw [hfound] at hlookup
    obtain ⟨hn'⟩ := hlookup
    rw [Except.ok.inj (hn.symm.trans hn')]

/-- **Along a chain** every field is converted with what was taken along. The path, the scope and
the schema are open in the induction: the path and the scope grow with each message of the chain,
and the schema is that of the message at which the rest of it begins. -/
theorem Chain.exists_fieldSchema {fields : List Field} {messages : List Declaration}
    (h : c.Chain d fields messages e) (hf : f ∈ e.message.fields) :
    ∀ {path scope s}, (c.messageSchema path scope d).result = .ok s →
      ∃ n, (c.fieldSchema ((d :: messages).reverse ++ path) (scopeAlong scope messages) f).result =
          .ok n ∧
        (c.KeepsAll d (fields ++ [f]) → s.nodeAt? (placeOf fields f) = some n) := by
  induction h with
  | nil d =>
    intro path scope s hs
    obtain ⟨n, hn⟩ := Conversion.exists_fieldSchema hs hf
    refine ⟨n, hn, fun hkeeps => ?_⟩
    change s.nodeAt? [.property f.propertyName] = some n
    rw [Schema.nodeAt?_cons, Schema.below?, lookup_of_keeps hs hkeeps.1 hn]
    rfl
  | @cons d target e g fields messages hmem hg _ ih =>
    intro path scope s hs
    obtain ⟨m, hm⟩ := Conversion.exists_fieldSchema hs hmem
    -- the rest of the chain begins where the message of the field is converted inside this one
    obtain ⟨-, t, ht, rfl⟩ := exists_messageSchema_of_embeds hg hm
    obtain ⟨n, hn, hplace⟩ := ih hf ht
    refine ⟨n, ?_, fun hkeeps => ?_⟩
    · rw [List.reverse_cons, List.append_assoc]
      exact hn
    · obtain ⟨hkeep, hrest⟩ := hkeeps
      rw [placeOf_cons, Schema.nodeAt?_cons, Schema.below?, lookup_of_keeps hs hkeep hm]
      exact ((g.surrounds_ofMessage c.policy t).nodeAt? fields f).trans (hplace (hrest target hg))

/-- **A successful conversion** comes to every field at the end of a chain. -/
theorem comesTo_of_chain {visible : List EnumType} (hs : (c.message d visible).result = .ok s)
    {fields : List Field} {messages : List Declaration} (h : c.Chain d fields messages e)
    (hf : f ∈ e.message.fields) : ∃ n, c.ComesTo d visible s fields messages f n := by
  obtain ⟨n, hn, hplace⟩ := h.exists_fieldSchema hf hs
  rw [List.append_nil] at hn
  exact ⟨n, hn, hplace⟩

end Conversion

/-! ### A wardrobe -/

namespace Wardrobe

/-- The colours of socks. -/
def colours : EnumType := { name := "Colour", values := [{ name := "RED", number := 1 }] }

/-- A field for the drawers of a wardrobe. -/
def drawers : Field :=
  { name := "drawers", label := .repeated, typeNumber := 11, typeName := ".home.Drawer" }

/-- A field for the sock in a drawer. -/
def sockField : Field := { name := "sock", typeNumber := 11, typeName := ".home.Sock" }

/-- A field for the colour of a sock. -/
def colour : Field := { name := "colour", typeNumber := 14, typeName := ".home.Drawer.Colour" }

/-- A wardrobe with drawers, which declares these enums. -/
def wardrobe (enums : List EnumType) : Declaration :=
  ⟨[0, 0], { name := "Wardrobe", fields := [drawers], enums := enums }⟩

/-- A drawer with a sock, which declares the colours. -/
def drawer : Declaration :=
  ⟨[0, 1], { name := "Drawer", fields := [sockField], enums := [colours] }⟩

/-- A sock has a colour, and declares nothing. -/
def sock : Declaration := ⟨[0, 2], { name := "Sock", fields := [colour] }⟩

/-- The messages of the home. -/
def messages (enums : List EnumType) : List (String × Declaration) :=
  [("home", wardrobe enums), ("home", drawer), ("home", sock)]

/-- The conversion of the messages under the policy that allows all but null. -/
def conversion (enums : List EnumType) : Conversion where
  registry := Registry.empty.registerAll (messages enums)
  package := 1
  policy := .allButNull

theorem embeds_drawer (enums : List EnumType) : (conversion enums).Embeds drawers drawer :=
  ⟨⟨rfl, by decide⟩, rfl⟩

theorem embeds_sock (enums : List EnumType) : (conversion enums).Embeds sockField sock :=
  ⟨⟨rfl, by decide⟩, rfl⟩

/-- The drawers lead from the wardrobe to a drawer. -/
theorem chain_drawers (enums : List EnumType) :
    (conversion enums).Chain (wardrobe enums) [drawers] [drawer] drawer :=
  .cons List.mem_cons_self (embeds_drawer enums) (.nil drawer)

/-- The drawers and the sock lead from the wardrobe to a sock. -/
theorem chain_sock (enums : List EnumType) :
    (conversion enums).Chain (wardrobe enums) [drawers, sockField] [drawer, sock] sock :=
  .cons List.mem_cons_self (embeds_drawer enums)
    (.cons List.mem_cons_self (embeds_sock enums) (.nil sock))

/-- No other field comes in the place of one of these. -/
theorem keepsAll_colour (enums : List EnumType) :
    (conversion enums).KeepsAll (wardrobe enums) [drawers, sockField, colour] := by
  refine ⟨rfl, fun target hf => ?_⟩
  obtain rfl := hf.unique (embeds_drawer enums)
  refine ⟨rfl, fun target hf => ?_⟩
  obtain rfl := hf.unique (embeds_sock enums)
  exact ⟨rfl, fun _ _ => trivial⟩

/-- The wardrobe converts, and so do the drawers in it with their socks. -/
theorem wardrobe_converts (enums visible : List EnumType) :
    ∃ s, ((conversion enums).message (wardrobe enums) visible).result = .ok s := by
  have hsock : sock ∉ [drawer, wardrobe enums] := by simp [sock, drawer, wardrobe]
  have hdrawer : drawer ∉ [wardrobe enums] := by simp [drawer, wardrobe]
  obtain ⟨t, ht⟩ : ∃ t, ((conversion enums).messageSchema [drawer, wardrobe enums] [colours]
      sock).result = .ok t :=
    ⟨_, Conversion.messageSchema_eq_ok_iff.mpr ⟨_, .cons rfl .nil, rfl⟩⟩
  have hsockField := Conversion.fieldSchema_eq_ok_iff.mpr
    (Or.inr ⟨sock, t, embeds_sock enums, hsock, ht, rfl⟩)
  obtain ⟨u, hu⟩ : ∃ u, ((conversion enums).messageSchema [wardrobe enums] [colours]
      drawer).result = .ok u :=
    ⟨_, Conversion.messageSchema_eq_ok_iff.mpr ⟨_, .cons hsockField .nil, rfl⟩⟩
  have hdrawers : ((conversion enums).fieldSchema [wardrobe enums] (enums ++ visible)
      drawers).result = .ok (drawers.ofMessage (conversion enums).policy u) :=
    Conversion.fieldSchema_eq_ok_iff.mpr
      (Or.inr ⟨drawer, u, embeds_drawer enums, hdrawer, hu, rfl⟩)
  exact ⟨_, Conversion.messageSchema_eq_ok_iff.mpr ⟨_, .cons hdrawers .nil, rfl⟩⟩

end Wardrobe

end ProtoSchema
