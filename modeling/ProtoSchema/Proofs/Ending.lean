import Mathlib.Data.List.Dedup
import Mathlib.Data.List.Perm.Subperm
import Mathlib.Logic.Relation
import Mathlib.Order.WellFounded
import ProtoSchema.Proofs.Steps

/-!
# Conversion ends

The recursion of a conversion does not follow the messages inward as they are declared. It jumps, by
name, from a field to any message that is registered, so that a forest in which messages refer to
each other in circles gives it no end of its own. What ends it is the path: a message is entered
only when it is not on the path, and then it is.

`Conversion.Calls` are the calls that a conversion can make, each with the path it carries. Each of
them lowers a rank (`Conversion.rank_lt_of_calls`), so that no chain of calls goes on for ever, and
along every chain from an entry point the path stays a path of different messages that are all
registered but for the first (`Conversion.IsWay.of_leads`). So it is never longer than there are
messages.

How deep the recursion goes is also seen in what it comes to. `Conversion.messageWithin` unrolls it
to a depth and leaves the messages below to any function at all. From the depth of one more than
there are messages on, this function is never asked (`Conversion.conversion_ends`).
-/

namespace ProtoSchema

/-! ## Calls

There is a call for each of the four functions that are declared together. `Calls` says which call
each of them makes under which guard, and the enums in scope are told as well, so that a call has
all the arguments of the function.
-/

/-- A call in the course of a conversion: what is converted, inside which messages and with which
enums in scope. -/
inductive Call where
  /-- convert a message inside the messages of the path -/
  | message (path : List Declaration) (scope : List EnumType) (d : Declaration)
  /-- convert the fields of the message, which is on the path now -/
  | properties (path : List Declaration) (scope : List EnumType) (d : Declaration)
  /-- convert a field of the message at the head of the path -/
  | field (path : List Declaration) (scope : List EnumType) (f : Field)
  /-- convert the message of that name inside the messages of the path -/
  | embed (path : List Declaration) (scope : List EnumType) (typeName : String)

/-- The messages that are open during the call, the nearest first. -/
def Call.path : Call → List Declaration
  | .message path _ d => d :: path
  | .properties path _ _ => path
  | .field path _ _ => path
  | .embed path _ _ => path

/-- Fields that are converted alike make the same properties. -/
theorem Message.properties_congr {m : Message}
    {convert convert' : Field → Logged ConversionError Schema}
    (h : ∀ f ∈ m.fields, convert f = convert' f) :
    m.properties convert = m.properties convert' := by
  have hfields : List.Forall₂ (fun f g => f = g ∧ convert f = convert' f) m.fields m.fields :=
    List.forall₂_same.mpr fun f hf => ⟨rfl, h f hf⟩
  rw [properties, properties]
  congr 1
  refine mapM_eq_of_forall₂ hfields ?_
  rintro f _ ⟨rfl, hf⟩
  rw [hf]

/-- How many messages are registered, those counted that are declared inside others. -/
def Registry.messageCount (r : Registry) : Nat := r.declarations.dedup.length

namespace Conversion

/-- One call can make another. -/
inductive Calls (c : Conversion) : Call → Call → Prop where
  /-- a message is put on the path, and then its fields are converted -/
  | properties {path : List Declaration} {scope : List EnumType} {d : Declaration} :
    Calls c (.message path scope d) (.properties (d :: path) scope d)
  /-- each field of a message -/
  | field {path : List Declaration} {scope : List EnumType} {d : Declaration} {f : Field}
    (hf : f ∈ d.message.fields) : Calls c (.properties path scope d) (.field path scope f)
  /-- the message that a field holds -/
  | embed {path : List Declaration} {scope : List EnumType} {f : Field} (hf : f.HoldsMessage) :
    Calls c (.field path scope f) (.embed path scope f.typeName)
  /-- what a name resolves to, unless it is on the path -/
  | message {path : List Declaration} {scope : List EnumType} {typeName : String}
    {target : Declaration} (h : c.registry.lookupType c.package typeName = .ok target)
    (hpath : target ∉ path) :
    Calls c (.embed path scope typeName)
      (.message path (target.message.scopeWithin scope) target)

/-- One call leads to another, by any number of calls. -/
def Leads (c : Conversion) : Call → Call → Prop := Relation.ReflTransGen c.Calls

variable {c : Conversion} {path : List Declaration} {scope : List EnumType}
  {d first target : Declaration} {f : Field}

/-- A field leads to the message that it embeds. -/
theorem leads_of_embeds (hf : c.Embeds f target) (hpath : target ∉ path) :
    c.Leads (.field path scope f) (.message path (target.message.scopeWithin scope) target) :=
  .tail (.single (.embed hf.1)) (.message hf.2 hpath)

/-- A message leads to each of its fields. -/
theorem leads_of_mem (hf : f ∈ d.message.fields) :
    c.Leads (.message path scope d) (.field (d :: path) scope f) :=
  .tail (.single .properties) (.field hf)

/-! ## No endless chain

The rank is the measure by which the functions are seen to end, put in terms of calls.
-/

/-- What is left of a conversion at a call: the messages that can still be entered, and in each of
them the three calls before the next one is. -/
def rank (c : Conversion) (call : Call) : Nat :=
  4 * (c.unvisited call.path).length +
    match call with
    | .message _ _ _ => 3
    | .properties _ _ _ => 2
    | .field _ _ _ => 1
    | .embed _ _ _ => 0

/-- **Each call** lowers the rank. Inside a message the calls come in one order, and a call that
enters another message takes it off those that can still be entered. -/
theorem rank_lt_of_calls {call call' : Call} (h : c.Calls call call') :
    c.rank call' < c.rank call := by
  cases h with
  | properties => simp [rank, Call.path]
  | field hf => simp [rank, Call.path]
  | embed hf => simp [rank, Call.path]
  | message h hpath =>
    have := unvisited_cons (Registry.mem_declarations_of_lookupType h) hpath
    simp only [rank, Call.path]
    omega

/-- Calls are well-founded, as their ranks are natural numbers. -/
theorem wellFounded_calls (c : Conversion) : WellFounded fun call' call => c.Calls call call' :=
  Subrelation.wf (fun h => rank_lt_of_calls h) (measure c.rank).wf

/-! ## The path

How long a path can be is a matter of counting: it has no message twice, and all but the first are
from the registry.
-/

/-- The path leads from the first message to the current one, which is its head: no message is on it
twice, and all but the first are registered or declared inside registered ones. -/
structure IsWay (c : Conversion) (first : Declaration) (path : List Declaration) : Prop where
  /-- no message is on it twice -/
  nodup : path.Nodup
  /-- behind the first message all are registered -/
  registered : ∃ inner, path = inner ++ [first] ∧ ∀ e ∈ inner, e ∈ c.registry.declarations

theorem isWay_singleton (c : Conversion) (first : Declaration) : c.IsWay first [first] :=
  ⟨List.nodup_singleton first, [], rfl, fun _ he => absurd he List.not_mem_nil⟩

theorem IsWay.cons (h : c.IsWay first path) (htarget : target ∈ c.registry.declarations)
    (hpath : target ∉ path) : c.IsWay first (target :: path) := by
  obtain ⟨hnodup, inner, rfl, hinner⟩ := h
  refine ⟨hnodup.cons hpath, target :: inner, rfl, fun e he => ?_⟩
  rcases List.mem_cons.mp he with rfl | he
  · exact htarget
  · exact hinner e he

/-- **The length of the path**: there are no more messages on it than are registered, and the first.
The messages behind the first are different ones and all registered, so that they can be counted
there. -/
theorem IsWay.length_le (h : c.IsWay first path) :
    path.length ≤ 1 + c.registry.messageCount := by
  obtain ⟨hnodup, inner, rfl, hinner⟩ := h
  have hsubset : inner ⊆ c.registry.declarations.dedup := fun e he =>
    List.mem_dedup.mpr (hinner e he)
  have hlength := (hnodup.of_append_left.subperm hsubset).length_le
  rw [List.length_append, List.length_singleton, Registry.messageCount]
  omega

/-- A call keeps the path a way from the first message. -/
theorem IsWay.of_calls {call call' : Call} (h : c.Calls call call')
    (hway : c.IsWay first call.path) : c.IsWay first call'.path := by
  cases h with
  | properties => exact hway
  | field hf => exact hway
  | embed hf => exact hway
  | message h hpath => exact hway.cons (Registry.mem_declarations_of_lookupType h) hpath

/-- **Along every chain of calls** the path stays a way from the first message. -/
theorem IsWay.of_leads {call call' : Call} (h : c.Leads call call')
    (hway : c.IsWay first call.path) : c.IsWay first call'.path := by
  induction h with
  | refl => exact hway
  | tail _ hcall ih => exact ih.of_calls hcall

/-! ## Unrolled

That the calls are all there are is not a matter of their definition, which could have left one out.
It is said here by an unrolled conversion that asks a function for the messages at its end: this
function may be anything, as long as it is right about the messages that the calls lead to.
-/

/-- The schema of the message of that name inside the messages of the path, if this is how messages
are converted. -/
def embedBy (c : Conversion)
    (convert : List Declaration → List EnumType → Declaration → Logged ConversionError Schema)
    (path : List Declaration) (scope : List EnumType) (typeName : String) :
    Logged ConversionError Schema :=
  match c.registry.lookupType c.package typeName with
  | .error e => .fail (.unresolvedType typeName e)
  | .ok target =>
    if target ∈ path then .fail (.recursiveMessage typeName)
    else convert path (target.message.scopeWithin scope) target

/-- The schema of a field of the message at the head of the path, if this is how messages are
converted. -/
def fieldBy (c : Conversion)
    (convert : List Declaration → List EnumType → Declaration → Logged ConversionError Schema)
    (path : List Declaration) (scope : List EnumType) (f : Field) :
    Logged ConversionError Schema :=
  f.schema c.policy scope (c.embedBy convert path scope)

/-- The conversion of messages, unrolled so many times: messages that lie deeper are converted by
the function given. -/
def messageWithin (c : Conversion)
    (deeper : List Declaration → List EnumType → Declaration → Logged ConversionError Schema) :
    Nat → List Declaration → List EnumType → Declaration → Logged ConversionError Schema
  | 0, path, scope, d => deeper path scope d
  | n + 1, path, scope, d =>
    c.policy.messageSchema <$>
      d.message.properties (c.fieldBy (c.messageWithin deeper n) (d :: path) scope)

/-- The conversion itself is how messages are converted. -/
theorem fieldBy_messageSchema (c : Conversion) (path : List Declaration) (scope : List EnumType)
    (f : Field) : c.fieldBy c.messageSchema path scope f = c.fieldSchema path scope f := rfl

variable {convert convert' deeper :
  List Declaration → List EnumType → Declaration → Logged ConversionError Schema} {n : Nat}

/-- A field asks for the message that it embeds, if it is off the path, and for nothing else. -/
theorem fieldBy_congr (h : ∀ target, c.Embeds f target → target ∉ path →
      convert path (target.message.scopeWithin scope) target =
        convert' path (target.message.scopeWithin scope) target) :
    c.fieldBy convert path scope f = c.fieldBy convert' path scope f := by
  rw [fieldBy, fieldBy, Field.schema, Field.schema]
  rcases hkind : f.kind with e | kind
  · rfl
  · cases kind with
    | message =>
      rcases hwell : wellKnown f.typeName with _ | s
      · -- only here another message is asked for
        have hf : f.HoldsMessage := ⟨hkind, wellKnown_eq_none_iff.mp hwell⟩
        have hembed : c.embedBy convert path scope f.typeName =
            c.embedBy convert' path scope f.typeName := by
          rw [embedBy, embedBy]
          rcases hl : c.registry.lookupType c.package f.typeName with e | target
          · rfl
          · by_cases hpath : target ∈ path
            · simp only [hpath, if_true]
            · simp only [hpath, if_false, h target ⟨hf, hl⟩ hpath]
        simp only [hembed]
      · rfl
    | _ => rfl

/-- **Unrolled** so many times, the conversion asks for the messages that it leads to at that depth,
and for nothing else. -/
theorem messageWithin_eq : ∀ {n : Nat} {path : List Declaration} {scope : List EnumType}
    {d : Declaration},
    (∀ path' scope' e, c.Leads (.message path scope d) (.message path' scope' e) →
      path'.length = path.length + n → deeper path' scope' e = c.messageSchema path' scope' e) →
    c.messageWithin deeper n path scope d = c.messageSchema path scope d := by
  intro n
  induction n with
  | zero =>
    intro path scope d h
    exact h path scope d .refl rfl
  | succ n ih =>
    intro path scope d h
    rw [messageWithin, messageSchema_eq]
    congr 1
    refine Message.properties_congr fun f hmem => ?_
    rw [← fieldBy_messageSchema]
    refine fieldBy_congr fun target hf hpath => ih fun path' scope' e hleads hlength => ?_
    -- what a message inside leads to, this one leads to, and there the path is one longer
    have hinside : c.Leads (.message path scope d) (.message (d :: path)
        (target.message.scopeWithin scope) target) :=
      (leads_of_mem hmem).trans (leads_of_embeds hf hpath)
    refine h path' scope' e (hinside.trans hleads) ?_
    rw [hlength, List.length_cons]
    omega

/-- A message that a way leads to is not deeper than there are messages registered. -/
theorem IsWay.length_le_of_leads {call : Call} (hway : c.IsWay first call.path)
    {path' : List Declaration} {scope' : List EnumType} {e : Declaration}
    (h : c.Leads call (.message path' scope' e)) : path'.length ≤ c.registry.messageCount := by
  have hlength : (e :: path').length ≤ 1 + c.registry.messageCount :=
    (hway.of_leads h).length_le
  rw [List.length_cons] at hlength
  omega

/-! ## The theorem -/

/-- **Conversion ends**, however the messages refer to each other. No chain of calls goes on for
ever. Along every chain of calls from one of the two entry points no message is on the path twice,
all messages on it but the first are registered or declared inside registered ones, and its length
is at most one more than the number of these. These are all calls that there are: unrolled to a
depth, the conversion of a message asks only for the messages that it leads to at that depth. So
when it is unrolled more often than there are messages registered, it comes to what it comes to
whatever is put in below; and so does the conversion of a field, unrolled once less. -/
theorem conversion_ends (c : Conversion) :
    (¬ ∃ calls : Nat → Call, ∀ i, c.Calls (calls i) (calls (i + 1))) ∧
    (∀ first scope start, (start = .message [] scope first ∨ ∃ f, start = .field [first] scope f) →
      ∀ call, c.Leads start call →
        call.path.Nodup ∧
        (∃ inner, call.path = inner ++ [first] ∧ ∀ e ∈ inner, e ∈ c.registry.declarations) ∧
        call.path.length ≤ 1 + c.registry.messageCount) ∧
    (∀ deeper n path scope d,
      (∀ path' scope' e, c.Leads (.message path scope d) (.message path' scope' e) →
        path'.length = path.length + n → deeper path' scope' e = c.messageSchema path' scope' e) →
      c.messageWithin deeper n path scope d = c.messageSchema path scope d) ∧
    (∀ deeper n scope d, c.registry.messageCount < n →
      c.messageWithin deeper n [] scope d = c.messageSchema [] scope d) ∧
    ∀ deeper n scope enclosing f, c.registry.messageCount ≤ n →
      c.fieldBy (c.messageWithin deeper n) [enclosing] scope f =
        c.fieldSchema [enclosing] scope f := by
  refine ⟨?_, fun first scope start hstart call hleads => ?_,
    fun deeper n path scope d => messageWithin_eq, fun deeper n scope d hn => ?_,
    fun deeper n scope enclosing f hn => ?_⟩
  · rintro ⟨calls, hcalls⟩
    exact (wellFounded_iff_isEmpty_descending_chain.mp c.wellFounded_calls).false ⟨calls, hcalls⟩
  · have hpath : start.path = [first] := by
      rcases hstart with rfl | ⟨f, rfl⟩ <;> rfl
    have hway : c.IsWay first call.path :=
      IsWay.of_leads hleads (hpath ▸ c.isWay_singleton first)
    exact ⟨hway.nodup, hway.registered, hway.length_le⟩
  · -- no message lies so deep
    refine messageWithin_eq fun path' scope' e hleads hlength => ?_
    have hway : c.IsWay d (Call.message [] scope d).path := c.isWay_singleton d
    have := hway.length_le_of_leads hleads
    rw [List.length_nil] at hlength
    omega
  · refine fieldBy_congr fun target hf hpath => messageWithin_eq
      fun path' scope' e hleads hlength => ?_
    have hway : c.IsWay enclosing (Call.field [enclosing] scope f).path :=
      c.isWay_singleton enclosing
    have := hway.length_le_of_leads ((leads_of_embeds hf hpath).trans hleads)
    rw [List.length_singleton] at hlength
    omega

end Conversion

/-! ### Hen and egg -/

namespace Farm

/-- A field for an egg. -/
def lays : Field := { name := "lays", typeNumber := 11, typeName := ".Egg" }

/-- A field for what comes of an egg. -/
def becomes : Field := { name := "becomes", typeNumber := 11, typeName := ".Hen" }

/-- A field for a hen. -/
def stock : Field := { name := "stock", typeNumber := 11, typeName := ".Hen" }

/-- A hen lays an egg. -/
def hen : Declaration := ⟨[0, 0], { name := "Hen", fields := [lays] }⟩

/-- An egg becomes a hen. -/
def egg : Declaration := ⟨[0, 1], { name := "Egg", fields := [becomes] }⟩

/-- A farm has a hen. It is not registered. -/
def farm : Declaration := ⟨[1], { name := "Farm", fields := [stock] }⟩

/-- The conversion of hens and eggs under the policy that allows all but null. -/
def conversion : Conversion where
  registry := Registry.empty.registerAll [("", hen), ("", egg)]
  package := Registry.root
  policy := .allButNull

end Farm

open Farm in
/-- The path from a farm is as long as it may be: with both messages on it the egg asks for the hen
again, and the conversion ends there, three messages deep. -/
theorem Conversion.conversion_ends_farm :
    (∃ call, conversion.Leads (.message [] [] farm) call ∧ call.path = [egg, hen, farm] ∧
      call.path.Nodup ∧ call.path.length = 1 + conversion.registry.messageCount) ∧
    (conversion.message farm []).result = .error (.recursiveMessage ".Hen") ∧
    ∀ deeper, conversion.messageWithin deeper 3 [] [] farm = conversion.message farm [] := by
  obtain ⟨-, hways, -, hunrolled, -⟩ := conversion.conversion_ends
  have hcount : conversion.registry.messageCount = 2 := by decide +kernel
  have hhen : conversion.Embeds stock hen := ⟨⟨rfl, by decide⟩, rfl⟩
  have hegg : conversion.Embeds lays egg := ⟨⟨rfl, by decide⟩, rfl⟩
  have hleads : conversion.Leads (.message [] [] farm) (.message [hen, farm] [] egg) :=
    (leads_of_mem List.mem_cons_self).trans <| (leads_of_embeds hhen (by decide)).trans <|
      (leads_of_mem List.mem_cons_self).trans <| leads_of_embeds hegg (by decide)
  obtain ⟨hnodup, -, -⟩ := hways farm [] _ (Or.inl rfl) _ hleads
  refine ⟨⟨_, hleads, rfl, hnodup, ?_⟩, ?_, fun deeper => ?_⟩
  · rw [hcount]
    rfl
  · -- unrolled it can be evaluated, whatever is put in below
    have hfarm := hunrolled (fun _ _ _ => .fail (.recursiveMessage "")) 3 [] farm (by omega)
    change (conversion.messageSchema [] [] farm).result = _
    rw [← hfarm]
    rfl
  · exact hunrolled deeper 3 [] farm (by omega)

end ProtoSchema
