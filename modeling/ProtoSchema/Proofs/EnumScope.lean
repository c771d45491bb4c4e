import ProtoSchema.Proofs.Chains
import ProtoSchema.Proofs.Simulation

/-!
# The enums of the nearest message

The enum of a field is looked for among the enums of one message only: of those that the chain of
fields leads through, the nearest that declares any. Where none of them does, it is looked for among
the enums of the outermost message and those visible to it (`scopeAlong_eq`).

So a message that declares enums keeps out those around it. Whatever is visible to the outermost
message, and whatever enums this one declares, the node of a message with enums is the same
(`Conversion.enums_of_nearest`).

Other visible enums are easily put in their place, as they are an argument of the conversion. Other
enums of the outermost message are not: the message is registered too, so that to change it is to
change the registry and every name that leads to it. The two registries are compared by a simulation
whose relation leaves out the enums of this one message (`Declaration.AlikeBut`). It turns out that
the enums which the outermost message declares matter to its conversion in no other way than as
enums in scope (`Conversion.AlikeBut.result_message`), since its registered declaration is on the
path and is never entered again.
-/

namespace ProtoSchema

/-! ## Along a chain

The scope is passed on message by message, and the function that does it is a fold. What it comes to
is put without the fold here.
-/

/-- The enums of the last of the messages that declares any, or else those in scope around them. -/
def nearestEnums (scope : List EnumType) (messages : List Declaration) : List EnumType :=
  match messages.findRev? (·.message.enums ≠ []) with
  | some m => m.message.enums
  | none => scope

/-- The enums passed on along a chain are those of the nearest message that declares any. -/
theorem scopeAlong_eq (scope : List EnumType) (messages : List Declaration) :
    scopeAlong scope messages = nearestEnums scope messages := by
  induction messages generalizing scope with
  | nil => rfl
  | cons m messages ih =>
    have hcons : scopeAlong scope (m :: messages) =
        scopeAlong (m.message.scopeWithin scope) messages := rfl
    rw [hcons, ih, nearestEnums, nearestEnums, List.findRev?]
    generalize messages.findRev? _ = nearest
    cases nearest with
    | some _ => rfl
    | none => by_cases hnone : m.message.enums = [] <;> simp [Message.scopeWithin, hnone]

namespace Conversion

variable {c : Conversion} {path : List Declaration} {scope scope' : List EnumType}
  {d : Declaration} {f : Field} {s s' : Schema}

/-- The enum of a field at the end of a chain is that of the nearest message. -/
theorem comesTo_enumField {visible : List EnumType} (hs : (c.message d visible).result = .ok s)
    {fields : List Field} {messages : List Declaration} {e : Declaration}
    (h : c.Chain d fields messages e) (hmem : f ∈ e.message.fields)
    (hkind : f.kind = .ok .enumeration) :
    c.ComesTo d visible s fields messages f (f.ofElement c.policy (c.policy.enumField
      (matchEnum (nearestEnums (d.message.enums ++ visible) messages) f.typeName))) := by
  obtain ⟨n, hn⟩ := comesTo_of_chain hs h hmem
  have helement : (c.fieldSchema (d :: messages).reverse
      (scopeAlong (d.message.outerScope visible) messages) f).result = .ok (f.ofElement c.policy
        (c.policy.enumField (matchEnum (scopeAlong (d.message.outerScope visible) messages)
          f.typeName))) :=
    result_fieldSchema_of_element hkind rfl
  rw [hn.result_eq, scopeAlong_eq] at helement
  exact Except.ok.inj helement ▸ hn

/-! ## What a message with enums keeps out -/

/-- A field that embeds a message with enums does not look at those in scope. -/
theorem fieldSchema_eq_of_enums {target : Declaration} (hf : c.Embeds f target)
    (henums : target.message.enums ≠ []) :
    (c.fieldSchema path scope f).result = (c.fieldSchema path scope' f).result := by
  rw [result_fieldSchema_of_holdsMessage hf.1, result_fieldSchema_of_holdsMessage hf.1,
    result_embed, result_embed, hf.2]
  simp only [Message.scopeWithin, henums, if_false]

/-- Wherever a chain of fields leads to a message that declares enums, both schemas have the same
node, if it has not been replaced. -/
def SameWithEnums (c : Conversion) (d : Declaration) (s s' : Schema) : Prop :=
  ∀ fields messages e, c.Chain d fields messages e → ∀ f ∈ e.message.fields, ∀ target,
    c.Embeds f target → target.message.enums ≠ [] → c.KeepsAll d (fields ++ [f]) →
      ∃ n, s.nodeAt? (placeOf fields f) = some n ∧ s'.nodeAt? (placeOf fields f) = some n

/-- Two conversions of one message, with different enums in scope, have the same nodes for messages
with enums. -/
theorem sameWithEnums_of_scopes (hs : (c.messageSchema path scope d).result = .ok s)
    (hs' : (c.messageSchema path scope' d).result = .ok s') : c.SameWithEnums d s s' := by
  intro fields messages e hchain f hmem target hf henums hkeeps
  obtain ⟨n, hn, hplace⟩ := hchain.exists_fieldSchema hmem hs
  obtain ⟨n', hn', hplace'⟩ := hchain.exists_fieldSchema hmem hs'
  rw [fieldSchema_eq_of_enums hf henums, hn'] at hn
  obtain rfl := Except.ok.inj hn
  exact ⟨n', hplace hkeeps, hplace' hkeeps⟩

/-- Whether a message converts does not depend on the enums in scope. -/
theorem exists_messageSchema_of_scope (hs : (c.messageSchema path scope d).result = .ok s)
    (scope' : List EnumType) : ∃ s', (c.messageSchema path scope' d).result = .ok s' :=
  (c.messageSchema_succeeds_iff path scope' d).mpr
    ((c.messageSchema_succeeds_iff path scope d).mp ⟨s, hs⟩)

end Conversion

/-! ## Messages that differ in the enums of one

Nothing asks whether the message is registered, at the top of a file or inside another message.
Where it is not, the relation says no more than that the declarations are equal.
-/

/-- The declarations are alike, but for the enums of one message: it is `d₀` on the one side and
`d₀'` on the other. -/
inductive Declaration.AlikeBut (d₀ d₀' : Declaration) : Declaration → Declaration → Prop where
  /-- all is the same, and inside it is so again -/
  | mk {d d' : Declaration} (hposition : d.position = d'.position)
    (hname : d.message.name = d'.message.name) (hfields : d.message.fields = d'.message.fields)
    (hnested : List.Forall₂ (Declaration.AlikeBut d₀ d₀') d.nested d'.nested)
    (hself : d = d₀ ↔ d' = d₀') (henums : d ≠ d₀ → d.message.enums = d'.message.enums) :
    Declaration.AlikeBut d₀ d₀' d d'

namespace Declaration

variable {d₀ d₀' d d' e : Declaration}

/-- Declarations of one place with the same parts are the same. -/
theorem eq_of_parts (hposition : d.position = e.position)
    (hname : d.message.name = e.message.name) (hfields : d.message.fields = e.message.fields)
    (hnested : d.nested = e.nested) (henums : d.message.enums = e.message.enums) : d = e := by
  have hmessages := congrArg (List.map (·.message)) hnested
  rw [nested, nested, map_message_declarationsAt, map_message_declarationsAt] at hmessages
  obtain ⟨position, ⟨name, fields, nested, enums⟩⟩ := d
  obtain ⟨position', ⟨name', fields', nested', enums'⟩⟩ := e
  obtain rfl : position = position' := hposition
  obtain rfl : name = name' := hname
  obtain rfl : fields = fields' := hfields
  obtain rfl : nested = nested' := hmessages
  obtain rfl : enums = enums' := henums
  rfl

/-- A relation between declarations that says all but the enums pairs each with only one, if it says
enough of these. -/
theorem rightUnique_of_parts {R : Declaration → Declaration → Prop}
    (hparts : ∀ d d', R d d' → d.position = d'.position ∧ d.message.name = d'.message.name ∧
      d.message.fields = d'.message.fields ∧ List.Forall₂ R d.nested d'.nested)
    (henums : ∀ d a b, R d a → R d b → a.message.enums = b.message.enums) {d a b : Declaration}
    (ha : R d a) (hb : R d b) : a = b := by
  obtain ⟨hposition, hname, hfields, hnested⟩ := hparts d a ha
  obtain ⟨hposition', hname', hfields', hnested'⟩ := hparts d b hb
  have hinside : a.nested = b.nested :=
    eq_of_forall₂_of_unique hnested hnested' fun e he x y hx hy =>
      have := sizeOf_lt_of_mem_nested he
      rightUnique_of_parts hparts henums hx hy
  exact eq_of_parts (hposition.symm.trans hposition') (hname.symm.trans hname')
    (hfields.symm.trans hfields') hinside (henums d a b ha hb)
termination_by sizeOf d.message

/-- No two declarations are like one, and what is alike has one name inside and out. -/
theorem isPairing_alikeBut : IsPairing (AlikeBut d₀ d₀') where
  name h := by
    obtain ⟨-, hname, -⟩ := h
    exact hname
  nested h := by
    obtain ⟨-, -, -, hnested⟩ := h
    exact hnested
  unique := by
    -- the enums are those of the one message or, of any other, those of the partner
    refine ⟨fun d e d' hd he => ?_, fun d d' e' hd he => ?_⟩
    · refine rightUnique_of_parts (R := flip (AlikeBut d₀ d₀')) ?_ ?_ hd he
      · rintro d' d ⟨hposition, hname, hfields, hnested, -⟩
        exact ⟨hposition.symm, hname.symm, hfields.symm, hnested.flip⟩
      · rintro d' d e ⟨-, -, -, -, hself, henums⟩ ⟨-, -, -, -, hself', henums'⟩
        by_cases hd' : d' = d₀'
        · rw [hself.mpr hd', hself'.mpr hd']
        · rw [henums (mt hself.mp hd'), henums' (mt hself'.mp hd')]
    · refine rightUnique_of_parts ?_ ?_ hd he
      · rintro d d' ⟨hposition, hname, hfields, hnested, -⟩
        exact ⟨hposition, hname, hfields, hnested⟩
      · rintro d d' e' ⟨-, -, -, -, hself, henums⟩ ⟨-, -, -, -, hself', henums'⟩
        by_cases hd : d = d₀
        · rw [hself.mp hd, hself'.mp hd]
        · rw [← henums hd, ← henums' hd]

end Declaration

/-! ## Conversions that differ in the enums of one message

The path of a conversion has the outermost message at its far end from the first step on. So
whatever is entered is another message, and of another message the enums are the same on both sides.
-/

namespace Conversion

/-- The conversions have the same policy and package, and their messages are alike but for the enums
of one, which is `d` for the first conversion and `d'` for the second. -/
structure AlikeBut (d d' : Declaration) (c c' : Conversion) : Prop where
  /-- the two are alike but for their enums -/
  self : Declaration.AlikeBut d d' d d'
  /-- the registered messages are alike, and under the same packages -/
  registered : ∃ messages messages', c.registry = Registry.empty.registerAll messages ∧
    c'.registry = Registry.empty.registerAll messages' ∧
    List.Forall₂ (fun m m' => m.1 = m'.1 ∧ Declaration.AlikeBut d d' m.2 m'.2) messages messages'
  /-- the names are read from packages of one name -/
  package : c.registry.Alike c'.registry c.package c'.package
  /-- the policy is the same -/
  policy_eq : c.policy = c'.policy

variable {c c' : Conversion} {d d' : Declaration}

/-- **The enums of the outermost message** matter only as enums in scope. The two registries
simulate each other, but for the enums of this message; and these are not asked for on the way
inwards, as the message is on the path from the beginning. -/
theorem AlikeBut.result_message (h : AlikeBut d d' c c') (visible : List EnumType) :
    (c'.message d' visible).result =
      (c.messageSchema [] (d'.message.outerScope visible) d).result := by
  obtain ⟨hself, ⟨messages, messages', hr, hr', hmessages⟩, hpackage, hpolicy⟩ := h
  obtain ⟨r, id, p⟩ := c
  obtain ⟨r', id', p'⟩ := c'
  obtain rfl : p = p' := hpolicy
  obtain rfl : r = Registry.empty.registerAll messages := hr
  obtain rfl : r' = Registry.empty.registerAll messages' := hr'
  have hsimulates := Registry.Holds.simulates Declaration.isPairing_alikeBut hmessages
    (Registry.holds_registerAll messages) (Registry.holds_registerAll messages')
  refine (hsimulates.result_messageSchema hpackage p .nil ?_ ?_ _ hself
    (List.Subset.refl [d])).symm
  · rintro e e' ⟨-, -, hfields, -⟩
    exact hfields
  · rintro e e' ⟨-, -, -, -, -, henums⟩ he
    exact henums fun heq => he (List.mem_singleton.mpr heq)

/-- **Enums in scope.** Let a message convert. The fields at the end of a chain are converted with
the enums of the nearest message of the chain that declares any, or else with those of the outermost
message and those visible to it, and the enum of a field that holds one is chosen among these. Let
other enums be visible, or let the outermost message declare others: it converts too, and to the
same node wherever a message that declares enums is embedded. -/
theorem enums_of_nearest {visible : List EnumType} {s : Schema}
    (hs : (c.message d visible).result = .ok s) :
    (∀ fields messages e, c.Chain d fields messages e →
      scopeAlong (d.message.outerScope visible) messages =
          nearestEnums (d.message.enums ++ visible) messages ∧
        (∀ f ∈ e.message.fields, ∃ n, c.ComesTo d visible s fields messages f n) ∧
        ∀ f ∈ e.message.fields, f.kind = .ok .enumeration →
          c.ComesTo d visible s fields messages f (f.ofElement c.policy (c.policy.enumField
            (matchEnum (nearestEnums (d.message.enums ++ visible) messages) f.typeName)))) ∧
    (∀ visible', ∃ s', (c.message d visible').result = .ok s' ∧ c.SameWithEnums d s s') ∧
    ∀ c' d', AlikeBut d d' c c' → ∀ visible', ∃ s',
      (c'.message d' visible').result = .ok s' ∧ c.SameWithEnums d s s' := by
  refine ⟨fun fields messages e hchain => ⟨scopeAlong_eq _ messages,
    fun f hmem => comesTo_of_chain hs hchain hmem,
    fun f hmem => comesTo_enumField hs hchain hmem⟩, fun visible' => ?_,
    fun c' d' h visible' => ?_⟩
  · obtain ⟨s', hs'⟩ := exists_messageSchema_of_scope hs (d.message.outerScope visible')
    exact ⟨s', hs', sameWithEnums_of_scopes hs hs'⟩
  · obtain ⟨s', hs'⟩ := exists_messageSchema_of_scope hs (d'.message.outerScope visible')
    exact ⟨s', (h.result_message visible').trans hs', sameWithEnums_of_scopes hs hs'⟩

end Conversion

/-! ### Grey socks -/

namespace Wardrobe

/-- Other colours. -/
def greys : EnumType := { name := "Colour", values := [{ name := "GREY", number := 1 }] }

/-- It does not matter which wardrobe it is: each of the three messages is alike. -/
theorem alikeBut_wardrobe (enums enums' : List EnumType) : Conversion.AlikeBut (wardrobe enums)
    (wardrobe enums') (conversion enums) (conversion enums') := by
  have hself : Declaration.AlikeBut (wardrobe enums) (wardrobe enums') (wardrobe enums)
      (wardrobe enums') :=
    .mk rfl rfl rfl .nil (iff_of_true rfl rfl) fun h => absurd rfl h
  -- a wardrobe is told from the other messages by its place
  have hother : ∀ d : Declaration, d.position ≠ [0, 0] → d.nested = [] →
      Declaration.AlikeBut (wardrobe enums) (wardrobe enums') d d := by
    intro d hposition hnested
    have hne : ∀ es, d ≠ wardrobe es := fun es h => hposition (h ▸ rfl)
    exact .mk rfl rfl rfl (hnested ▸ .nil) (iff_of_false (hne _) (hne _)) fun _ => rfl
  have hpackage : ∀ es, 1 < (conversion es).registry.nodes.size ∧
      (conversion es).registry.path 1 = ["home"] := fun es =>
    (Registry.holds_registerAll (messages es)).tree.descend_root_iff.mp rfl
  refine ⟨hself, ⟨messages enums, messages enums', rfl, rfl, ?_⟩, ⟨?_, ?_, ?_⟩, rfl⟩
  · exact .cons ⟨rfl, hself⟩ (.cons ⟨rfl, hother drawer (by decide) rfl⟩
      (.cons ⟨rfl, hother sock (by decide) rfl⟩ .nil))
  · exact (hpackage enums).1
  · exact (hpackage enums').1
  · exact (hpackage enums).2.trans (hpackage enums').2.symm

end Wardrobe

open Wardrobe in
/-- A wardrobe without enums and one that declares other colours hold the same drawers, and the
socks in them have the colours that drawers declare. -/
theorem Conversion.enums_of_nearest_socks : ∃ s s' n,
    ((conversion []).message (wardrobe []) []).result = .ok s ∧
    ((conversion [greys]).message (wardrobe [greys]) []).result = .ok s' ∧
    s.nodeAt? [.property "drawers"] = some n ∧ s'.nodeAt? [.property "drawers"] = some n ∧
    s.nodeAt? [.property "drawers", .items, .property "sock", .property "colour"] =
      some ((conversion []).policy.enumField (some colours)) := by
  obtain ⟨s, hs⟩ := wardrobe_converts [] []
  obtain ⟨hchains, -, hothers⟩ := Conversion.enums_of_nearest hs
  obtain ⟨s', hs', hsame⟩ := hothers _ _ (alikeBut_wardrobe [] [greys]) []
  have hdrawers : (conversion []).KeepsAll (wardrobe []) [drawers] :=
    (keepsAll_colour []).of_append
  obtain ⟨n, hn, hn'⟩ := hsame [] [] _ (.nil _) drawers List.mem_cons_self drawer
    (embeds_drawer []) (List.cons_ne_nil _ _) hdrawers
  obtain ⟨-, -, hcolour⟩ := hchains _ _ _ (chain_sock [])
  exact ⟨s, s', n, hs, hs', hn, hn',
    (hcolour colour List.mem_cons_self rfl).nodeAt?_eq (keepsAll_colour [])⟩

end ProtoSchema
