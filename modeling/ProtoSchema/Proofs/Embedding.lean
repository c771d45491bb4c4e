import ProtoSchema.Proofs.Places
import ProtoSchema.Proofs.QualifiedNames
import ProtoSchema.Proofs.Registration
import ProtoSchema.Proofs.Targets

/-!
# Embedded messages

The schema of a message does not depend on the messages around it, and where no field holds an enum
it does not depend on the enums in scope either. What it does depend on is the package from which
the names inside are read, and that is the package of the outermost message all the way inwards.

So a message that is embedded in one of another package comes to the schema that it has by itself
exactly when its names mean the same from both packages, as far as its schema can tell
(`Session.embedded_alike_iff`). They do when they are absolute (`Session.readsAlike_of_absolute`); a
relative name may mean a namesake in the other package (`Crates.crate_holds_namesake`).

The argument is `Conversion.messageSchema_unique`: two conversions of one message that both succeed
come to one schema, whatever is around it, by induction on the conversion. Together with
`exists_message_of_messageSchema`, which takes a message out of its surroundings, it tells what
stands below a field that embeds the message. The converse needs that a node holds the schema of one
message only (`eq_of_surrounds`).
-/

namespace ProtoSchema

namespace Conversion

/-! ## Names that mean the same

The three conditions are on all messages within reach, the message itself among them, and each is
passed on to the messages that it refers to.
-/

/-- The names of the messages within reach mean the same for both conversions. -/
def ReadsAlike (c c' : Conversion) (d : Declaration) : Prop :=
  ∀ e, c.Reaches d e → ∀ f ∈ e.message.fields, f.HoldsMessage →
    c.registry.lookupType c.package f.typeName = c'.registry.lookupType c'.package f.typeName

/-- The names of the messages within reach begin with a dot. -/
def NamesAbsolutely (c : Conversion) (d : Declaration) : Prop :=
  ∀ e, c.Reaches d e → ∀ f ∈ e.message.fields, f.HoldsMessage → ∃ tail, f.typeName = "." ++ tail

/-- No field within reach holds an enum. -/
def LacksEnumFields (c : Conversion) (d : Declaration) : Prop :=
  ∀ e, c.Reaches d e → ∀ f ∈ e.message.fields, f.kind ≠ .ok .enumeration

variable {c c' : Conversion} {d target : Declaration}

theorem ReadsAlike.refers (h : c.ReadsAlike c' d) (ht : c.Refers d target) :
    c.ReadsAlike c' target :=
  fun e he => h e (.head ht he)

/-- Absolute names mean the same from every package. -/
theorem NamesAbsolutely.readsAlike (h : c.NamesAbsolutely d) (package : PackageId) :
    c.ReadsAlike ⟨c.registry, package, c.policy⟩ d := by
  intro e he f hf hholds
  obtain ⟨tail, htail⟩ := h e he f hf hholds
  rw [htail, Registry.lookupType_dot, Registry.lookupType_dot]

theorem LacksEnumFields.refers (h : c.LacksEnumFields d) (ht : c.Refers d target) :
    c.LacksEnumFields target :=
  fun e he => h e (.head ht he)

/-! ## One message, twice

Both conversions succeed, so that the second need not be shown to do what the first does: it is
enough that they cannot come to different schemas. This is why the paths may differ in any way.
-/

/-- What is not an enum does not look at the scope. -/
theorem element?_eq_of_ne_enumeration (f : Field) (p : Policy) (scope scope' : List EnumType)
    {kind : FieldKind} (hkind : kind ≠ .enumeration) :
    f.element? p scope kind = f.element? p scope' kind := by
  cases kind with
  | enumeration => exact absurd rfl hkind
  | _ => rfl

/-- A field comes to one schema in two conversions, if the message that it embeds does. -/
theorem fieldSchema_unique (hpolicy : c'.policy = c.policy) {path path' : List Declaration}
    {scope scope' : List EnumType} {f : Field} {s s' : Schema}
    (hplain : f.kind ≠ .ok .enumeration)
    (hnames : f.HoldsMessage → c.registry.lookupType c.package f.typeName =
      c'.registry.lookupType c'.package f.typeName)
    (ih : ∀ target, c.Embeds f target → target ∉ path → ∀ scope scope' t t',
      (c.messageSchema path scope target).result = .ok t →
      (c'.messageSchema path' scope' target).result = .ok t' → t = t')
    (hs : (c.fieldSchema path scope f).result = .ok s)
    (hs' : (c'.fieldSchema path' scope' f).result = .ok s') : s = s' := by
  rcases fieldSchema_eq_ok_iff.mp hs with
      ⟨kind, a, hkind, ha, rfl⟩ | ⟨target, t, hf, hpath, ht, rfl⟩ <;>
    rcases fieldSchema_eq_ok_iff.mp hs' with
      ⟨kind', a', hkind', ha', rfl⟩ | ⟨target', t', hf', -, ht', rfl⟩
  · obtain rfl := Except.ok.inj (hkind.symm.trans hkind')
    have hne : kind ≠ .enumeration := fun heq => hplain (heq ▸ hkind)
    rw [hpolicy, element?_eq_of_ne_enumeration f _ _ scope hne, ha] at ha'
    rw [hpolicy, Option.some.inj ha']
  · exact absurd hf'.1 (not_holdsMessage_of_element hkind ha)
  · exact absurd hf.1 (not_holdsMessage_of_element hkind' ha')
  · have hlookup := hf.2.symm.trans ((hnames hf.1).trans hf'.2)
    obtain rfl := Except.ok.inj hlookup
    rw [hpolicy, ih target hf hpath _ _ t t' ht ht']

/-- **A message comes to one schema**, whatever messages are around it and whatever enums are in
scope, as long as its names mean the same and no field holds an enum. The induction is that of the
first conversion. The second has a path and a scope of its own at each step, and nothing is asked of
these, since it succeeds. -/
theorem messageSchema_unique (hpolicy : c'.policy = c.policy) (path : List Declaration)
    (d : Declaration) : c.ReadsAlike c' d → c.LacksEnumFields d →
      ∀ path' scope scope' s s', (c.messageSchema path scope d).result = .ok s →
        (c'.messageSchema path' scope' d).result = .ok s' → s = s' := by
  refine c.induction (motive := fun path d => c.ReadsAlike c' d → c.LacksEnumFields d →
    ∀ path' scope scope' s s', (c.messageSchema path scope d).result = .ok s →
      (c'.messageSchema path' scope' d).result = .ok s' → s = s')
    (fun path d ih hreads hplain path' scope scope' s s' hs hs' => ?_) path d
  obtain ⟨ts, hts, rfl⟩ := messageSchema_eq_ok_iff.mp hs
  obtain ⟨ts', hts', rfl⟩ := messageSchema_eq_ok_iff.mp hs'
  have heq : ts = ts' := by
    refine eq_of_forall₂_of_unique hts hts' fun f hf t t' ht ht' => ?_
    refine fieldSchema_unique hpolicy (hplain d .refl f hf) (hreads d .refl f hf) ?_ ht ht'
    intro target hembeds hpath scope scope' t t'
    have hrefers : c.Refers d target := ⟨f, hf, hembeds⟩
    exact ih f target hembeds hpath (hreads.refers hrefers) (hplain.refers hrefers) _ _ _ t t'
  rw [heq, hpolicy]

/-- Where nothing offends inside some messages, nothing offends by itself. -/
theorem Sound.outermost {path : List Declaration} (h : c.Sound path d) : c.Sound [] d := by
  rw [sound_nil_iff]
  intro e he
  obtain ⟨path', h'⟩ := h.reaches he
  exact ⟨h'.wellFormed, fun hcycle => Sound.not_mem hcycle h' List.mem_cons_self⟩

/-- What converts inside some messages converts by itself. -/
theorem exists_message_of_messageSchema {path : List Declaration} {scope : List EnumType}
    {s : Schema} (hs : (c.messageSchema path scope d).result = .ok s) (visible : List EnumType) :
    ∃ t, (c.message d visible).result = .ok t := by
  have hsound : c.Sound path d := (c.messageSchema_succeeds_iff path scope d).mp ⟨s, hs⟩
  exact (c.messageSchema_succeeds_iff [] _ d).mpr hsound.outermost

end Conversion

/-! ## Around an embedded message

A field with many values has its message as the items of an array, and any other has it as its own
node, to which a nullable policy adds a union. Either way the properties are found again.
-/

/-- The node of the field holds the schema of a message: it is the items of an array, or else the
node has its properties. -/
def Field.Surrounds (f : Field) (n s : Schema) : Prop :=
  if f.label = .repeated then n.items = some s else n.properties = s.properties

/-- What is written for a field holds the schema that it is written around. -/
theorem Field.surrounds_ofMessage (f : Field) (p : Policy) (s : Schema) :
    f.Surrounds (f.ofMessage p s) s := by
  rw [Surrounds, ofMessage]
  split
  · rfl
  · rfl

namespace Conversion

variable {c : Conversion} {d : Declaration}

/-- The schema of a message is known by its properties. -/
theorem messageSchema_properties {path : List Declaration} {scope : List EnumType} {s : Schema}
    (hs : (c.messageSchema path scope d).result = .ok s) :
    s = c.policy.messageSchema s.properties := by
  obtain ⟨ts, -, rfl⟩ := messageSchema_eq_ok_iff.mp hs
  rfl

/-- A node holds the schema of one message. -/
theorem eq_of_surrounds {path path' : List Declaration} {scope scope' : List EnumType}
    {c' : Conversion} {e : Declaration} {f : Field} {n s t : Schema}
    (hpolicy : c'.policy = c.policy)
    (hs : (c.messageSchema path scope d).result = .ok s)
    (ht : (c'.messageSchema path' scope' e).result = .ok t)
    (hns : f.Surrounds n s) (hnt : f.Surrounds n t) : s = t := by
  rw [Field.Surrounds] at hns hnt
  split at hns
  · next hlabel =>
    rw [if_pos hlabel] at hnt
    exact Option.some.inj (hns.symm.trans hnt)
  · next hlabel =>
    rw [if_neg hlabel] at hnt
    rw [messageSchema_properties hs, messageSchema_properties ht, hpolicy, ← hns, hnt]

/-- Where a field embeds a message, its node holds what the message comes to by itself, when the
names are read from the same package. -/
theorem surrounds_message {f : Field} {n : Schema} (hn : c.Writes (.field f) n)
    (hf : c.Embeds f d) (hplain : c.LacksEnumFields d) (visible : List EnumType) :
    ∃ t, (c.message d visible).result = .ok t ∧ f.Surrounds n t := by
  cases hn with
  | field hs =>
    obtain ⟨-, s, hmessage, rfl⟩ := exists_messageSchema_of_embeds hf hs
    obtain ⟨t, ht⟩ := exists_message_of_messageSchema hmessage visible
    obtain rfl :=
      messageSchema_unique rfl _ d (fun _ _ _ _ _ => rfl) hplain _ _ _ s t hmessage ht
    exact ⟨s, ht, f.surrounds_ofMessage c.policy s⟩

end Conversion

/-! ## Sessions

In a session the conversions of all packages share the registry, which holds the messages of the
files and no others.
-/

namespace Session

/-- No message of the files, however deep inside another one, has a field that holds an enum. -/
def LacksEnumFields (s : Session) : Prop :=
  ∀ m ∈ forestMessages s.forest, ∀ d ∈ m.2.all, ∀ f ∈ d.message.fields, f.kind ≠ .ok .enumeration

/-- What is within reach of a message of the files is declared in the files. -/
theorem declared_of_reaches {s : Session} {package : PackageId} {m : String × Declaration}
    (hm : m ∈ forestMessages s.forest) {e : Declaration}
    (he : (s.conversion package).Reaches m.2 e) : ∃ m ∈ forestMessages s.forest, e ∈ m.2.all := by
  cases he with
  | refl => exact ⟨m, hm, m.2.mem_all_self⟩
  | tail _ hstep =>
    obtain ⟨f, -, hf⟩ := hstep
    exact s.mem_declarations (Registry.mem_declarations_of_lookupType hf.2)

theorem LacksEnumFields.conversion {s : Session} (h : s.LacksEnumFields) (package : PackageId)
    {m : String × Declaration} (hm : m ∈ forestMessages s.forest) :
    (s.conversion package).LacksEnumFields m.2 := by
  intro e he
  obtain ⟨m', hm', he'⟩ := declared_of_reaches hm he
  exact h m' hm' e he'

/-- Where all names are absolute, they mean the same from every package. -/
theorem readsAlike_of_absolute {s : Session}
    (h : ∀ m ∈ forestMessages s.forest, ∀ d ∈ m.2.all, ∀ f ∈ d.message.fields, f.HoldsMessage →
      ∃ tail, f.typeName = "." ++ tail)
    {m : String × Declaration} (hm : m ∈ forestMessages s.forest) (i j : PackageId) :
    (s.conversion i).ReadsAlike (s.conversion j) m.2 := by
  refine Conversion.NamesAbsolutely.readsAlike (fun e he => ?_) j
  obtain ⟨m', hm', he'⟩ := declared_of_reaches hm he
  exact h m' hm' e he'

/-- **Embedded messages.** Where no field holds an enum, let a message convert with its names read
from one package, and let a message of the files convert by itself with its names read from another.
At every place of the first where a field embeds the second, the node of the field holds the schema
of the second exactly when that is also what the second comes to with its names read from the first
package. It is so when the names within reach mean the same from both packages. -/
theorem embedded_alike_iff {s : Session} (hplain : s.LacksEnumFields) {i j : PackageId}
    {m : Declaration} {visible : List EnumType} {outer : Schema}
    (houter : ((s.conversion i).message m visible).result = .ok outer)
    {t : String × Declaration} (ht : t ∈ forestMessages s.forest) {visible' : List EnumType}
    {own : Schema} (hown : ((s.conversion j).message t.2 visible').result = .ok own)
    {place : List Step} {n : Schema} (hn : outer.HasNodeAt place n) {f : Field}
    (hplace : (s.conversion i).subjectAt (.message m) place = some (.field f))
    (hf : (s.conversion i).Embeds f t.2) :
    (f.Surrounds n own ↔ ((s.conversion i).message t.2 visible').result = .ok own) ∧
    ((s.conversion i).ReadsAlike (s.conversion j) t.2 → f.Surrounds n own) := by
  have hlacks := hplain.conversion i ht
  have hpolicy : (s.conversion j).policy = (s.conversion i).policy := rfl
  obtain ⟨subject, hsubject, hwrites⟩ := Conversion.Writes.at hn (.message houter)
  obtain rfl := Option.some.inj (hplace.symm.trans hsubject)
  obtain ⟨inner, hinner, hsurrounds⟩ := Conversion.surrounds_message hwrites hf hlacks visible'
  have heq : f.Surrounds n own ↔ inner = own := by
    refine ⟨Conversion.eq_of_surrounds hpolicy hinner hown hsurrounds, ?_⟩
    rintro rfl
    exact hsurrounds
  refine ⟨?_, fun hreads => heq.mpr ?_⟩
  · rw [heq, hinner]
    exact ⟨congrArg Except.ok, Except.ok.inj⟩
  · exact Conversion.messageSchema_unique hpolicy [] t.2 hreads hlacks [] _ _ inner own hinner hown

end Session

/-! ### Crates -/

namespace Crates

/-- A field that holds a crate of the other package. -/
def crateField : Field := { name := "crate", typeNumber := 11, typeName := ".depot.Crate" }

/-- A field for the label of a crate, whose type is given by this name. -/
def labelField (labelName : String) : Field :=
  { name := "label", typeNumber := 11, typeName := labelName }

/-- An order holds a crate. -/
def order : Declaration := ⟨[0, 0], { name := "Order", fields := [crateField] }⟩

/-- A crate has a label. -/
def crate (labelName : String) : Declaration :=
  ⟨[1, 0], { name := "Crate", fields := [labelField labelName] }⟩

/-- The file of the orders. Its labels have numbers. -/
def shop : File :=
  { name := "shop.proto"
    package := "shop"
    messages :=
      [order.message, { name := "Label", fields := [{ name := "number", typeNumber := 5 }] }] }

/-- The file of the crates. Its labels have texts. -/
def depot (labelName : String) : File :=
  { name := "depot.proto"
    package := "depot"
    messages :=
      [(crate labelName).message,
       { name := "Label", fields := [{ name := "text", typeNumber := 9 }] }] }

/-- A session with both files, under the policy that allows all but null. -/
def session (labelName : String) : Session :=
  ⟨[shop, depot labelName], .allButNull⟩

/-- The schema of a crate whose labels have this property. -/
def crateSchema (p : Policy) (name : String) (ty : JsonType) : Schema :=
  p.messageSchema
    [("label", (labelField "").ofMessage p (p.messageSchema [(name, p.scalar ty)]))]

/-- The schema of an order around that of a crate. -/
def orderSchema (p : Policy) (crate : Schema) : Schema :=
  p.messageSchema [("crate", crateField.ofMessage p crate)]

theorem hasNodeAt_crate (p : Policy) (crate : Schema) :
    (orderSchema p crate).HasNodeAt [.property "crate"] (crateField.ofMessage p crate) := by
  have hcrate : ("crate", crateField.ofMessage p crate) ∈ (orderSchema p crate).properties :=
    List.mem_cons_self
  exact .step (.property hcrate) (.here _)

/-- When the name of the label is absolute, so are all names of the session. -/
theorem absolute_session : ∀ m ∈ forestMessages (session ".depot.Label").forest, ∀ d ∈ m.2.all,
    ∀ f ∈ d.message.fields, f.HoldsMessage → ∃ tail, f.typeName = "." ++ tail := by
  have hnames : ∀ m ∈ forestMessages (session ".depot.Label").forest, ∀ d ∈ m.2.all,
      ∀ f ∈ d.message.fields, f.kind = .ok .message →
        f.typeName = "." ++ "depot.Crate" ∨ f.typeName = "." ++ "depot.Label" := by
    decide +kernel
  intro m hm d hd f hf hholds
  rcases hnames m hm d hd f hf hholds.1 with hname | hname
  · exact ⟨_, hname⟩
  · exact ⟨_, hname⟩

/-- The labels of crates have an absolute name, so that the crate in an order is as it is by
itself. -/
theorem embedded_crate_alike :
    ∃ outer own n, (((session ".depot.Label").conversion 1).message order []).result = .ok outer ∧
      (((session ".depot.Label").conversion 2).message (crate ".depot.Label") []).result =
        .ok own ∧
      outer.HasNodeAt [.property "crate"] n ∧ crateField.Surrounds n own := by
  let p := (session ".depot.Label").policy
  have hplain : (session ".depot.Label").LacksEnumFields := by
    rw [Session.LacksEnumFields]
    decide +kernel
  have houter : (((session ".depot.Label").conversion 1).message order []).result =
      .ok (orderSchema p (crateSchema p "text" .string)) := by
    with_unfolding_all rfl
  have hown : (((session ".depot.Label").conversion 2).message (crate ".depot.Label") []).result =
      .ok (crateSchema p "text" .string) := by
    with_unfolding_all rfl
  have hcrate : ("depot", crate ".depot.Label") ∈
      forestMessages (session ".depot.Label").forest := by
    decide +kernel
  have hn := hasNodeAt_crate p (crateSchema p "text" .string)
  have hf : ((session ".depot.Label").conversion 1).Embeds crateField (crate ".depot.Label") :=
    ⟨⟨rfl, by decide⟩, rfl⟩
  have hreads := Session.readsAlike_of_absolute absolute_session hcrate 1 2
  obtain ⟨-, halike⟩ := Session.embedded_alike_iff hplain houter hcrate hown hn rfl hf
  exact ⟨_, _, _, houter, hown, hn, halike hreads⟩

/-- The labels of crates have a relative name, and in an order it means the label of the shop: the
crate in an order has a number where a crate by itself has a text. -/
theorem crate_holds_namesake :
    (session "Label").LacksEnumFields ∧
    ("shop", order) ∈ forestMessages (session "Label").forest ∧
    ("depot", crate "Label") ∈ forestMessages (session "Label").forest ∧
    (session "Label").registry.lookupPackage "shop" = .ok 1 ∧
    (session "Label").registry.lookupPackage "depot" = .ok 2 ∧
    ∃ outer own n, (((session "Label").conversion 1).message order []).result = .ok outer ∧
      (((session "Label").conversion 2).message (crate "Label") []).result = .ok own ∧
      outer.HasNodeAt [.property "crate"] n ∧
      ((session "Label").conversion 1).subjectAt (.message order) [.property "crate"] =
        some (.field crateField) ∧
      ((session "Label").conversion 1).Embeds crateField (crate "Label") ∧
      ¬ crateField.Surrounds n own := by
  let p := (session "Label").policy
  refine ⟨?_, by decide +kernel, by decide +kernel, rfl, rfl,
    orderSchema p (crateSchema p "number" .integer), crateSchema p "text" .string,
    crateField.ofMessage p (crateSchema p "number" .integer), by with_unfolding_all rfl,
    by with_unfolding_all rfl, hasNodeAt_crate p _, rfl, ⟨⟨rfl, by decide⟩, rfl⟩, ?_⟩
  · rw [Session.LacksEnumFields]
    decide +kernel
  · intro h
    have hnames := congrArg (List.map fun e : String × Schema => e.2.properties.map Prod.fst) h
    have hlabels : [["number"]] = [["text"]] := hnames
    exact absurd hlabels (by decide)

end Crates

end ProtoSchema
