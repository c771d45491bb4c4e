import ProtoSchema.FieldSchema
import ProtoSchema.PropertyName
import ProtoSchema.Registry.Lookup

/-!
# Messages as schemas

A message is an object with a property for each field. The messages that its fields hold are found
by name and converted inside it, and so on inwards; the declarations on the way from the outermost
message to the current one are the *path*. A message on the path cannot be converted inside itself,
and a field that asks for it fails.

This is also why conversion ends. What a name resolves to is registered, and a message that is
entered is not on the path, so that each step inwards takes one declaration from the registered
ones that are not on the path yet (`Conversion.unvisited_cons`).

The enums in scope are passed inwards: a message that declares enums is seen with these alone, and
one that declares none is seen with those in scope around it. The outermost message is seen with
its own enums first and then with those its caller makes visible.
-/

namespace ProtoSchema

/-- What stays fixed while a message is converted. -/
structure Conversion where
  /-- where names are resolved -/
  registry : Registry
  /-- the package from which names are resolved -/
  package : PackageId
  /-- what may be written -/
  policy : Policy

/-! ## The pieces of a message -/

/-- The schema of a message with these properties. -/
def Policy.messageSchema (p : Policy) (properties : List (String × Schema)) : Schema :=
  { p.scalar .object with
    properties := properties
    additionalProperties := some p.additionalProperties }

/-- The properties of a message, given how its fields are converted. Of two fields with one
property name the later stays; the first field that fails ends the conversion. -/
def Message.properties (m : Message) (convert : Field → Logged ConversionError Schema) :
    Logged ConversionError (List (String × Schema)) := do
  let entries ← m.fields.mapM fun f => do
    let s ← (convert f).onFailure (.fieldFailed f.name m.name)
    pure (f.propertyName, s)
  pure (sortedTable entries)

/-- The enums that a message is seen with inside others: its own, or else those around it. -/
def Message.scopeWithin (m : Message) (scope : List EnumType) : List EnumType :=
  if m.enums = [] then scope else m.enums

/-- The enums that an outermost message is seen with. -/
def Message.outerScope (m : Message) (visible : List EnumType) : List EnumType :=
  m.enums ++ visible

/-! ## Ending -/

/-- Leaving out more leaves fewer, when what is left out more was there. -/
theorem length_filter_lt {α : Type} {p q : α → Bool} {a : α} {xs : List α}
    (hpq : ∀ x ∈ xs, p x = true → q x = true) (ha : a ∈ xs) (hq : q a = true)
    (hp : p a = false) : (xs.filter p).length < (xs.filter q).length := by
  induction xs with
  | nil => simp at ha
  | cons x xs ih =>
    have hle : ∀ ys : List α, (∀ y ∈ ys, p y = true → q y = true) →
        (ys.filter p).length ≤ (ys.filter q).length := by
      intro ys hys
      induction ys with
      | nil => simp
      | cons y ys ihy =>
        have hrest := ihy fun z hz => hys z (List.mem_cons_of_mem _ hz)
        have hhead := hys y List.mem_cons_self
        by_cases hpy : p y = true
        · simp [hpy, hhead hpy, hrest]
        · by_cases hqy : q y = true <;> simp [hpy, hqy] <;> omega
    have hrest : ∀ y ∈ xs, p y = true → q y = true := fun y hy =>
      hpq y (List.mem_cons_of_mem _ hy)
    rcases List.mem_cons.mp ha with hax | hax
    · subst hax
      have := hle xs hrest
      simp [hp, hq]
      omega
    · have hlt := ih hrest hax
      have hhead := hpq x List.mem_cons_self
      by_cases hpx : p x = true
      · simp [hpx, hhead hpx, hlt]
      · by_cases hqx : q x = true <;> simp [hpx, hqx] <;> omega

namespace Conversion

/-- The registered declarations that are not on the path. -/
def unvisited (c : Conversion) (path : List Declaration) : List Declaration :=
  c.registry.declarations.filter fun d => decide (d ∉ path)

/-- Entering a message that is not on the path leaves fewer that are not. -/
theorem unvisited_cons {c : Conversion} {path : List Declaration} {d : Declaration}
    (hd : d ∈ c.registry.declarations) (hpath : d ∉ path) :
    (c.unvisited (d :: path)).length < (c.unvisited path).length := by
  refine length_filter_lt (fun x _ hx => ?_) hd (by simpa using hpath) (by simp)
  simp only [decide_eq_true_eq, List.mem_cons, not_or] at hx ⊢
  exact hx.2

/-! ## Messages -/

/-- The schema of a declared message; `path` are the messages around it, the nearest first, and
`scope` are the enums it is seen with. -/
def messageSchema (c : Conversion) (path : List Declaration) (scope : List EnumType)
    (d : Declaration) : Logged ConversionError Schema :=
  c.policy.messageSchema <$> d.message.properties fun f =>
    f.schema c.policy scope fun typeName =>
      match h : c.registry.lookupType c.package typeName with
      | .error e => .fail (.unresolvedType typeName e)
      | .ok target =>
        if seen : target ∈ d :: path then .fail (.recursiveMessage typeName)
        else
          -- entering the target leaves one declaration fewer to enter
          have := unvisited_cons (Registry.mem_declarations_of_lookupType h) seen
          c.messageSchema (d :: path) (target.message.scopeWithin scope) target
termination_by (c.unvisited (d :: path)).length

/-- The schema of the message of that name, inside the messages of the path. -/
def embed (c : Conversion) (path : List Declaration) (scope : List EnumType)
    (typeName : String) : Logged ConversionError Schema :=
  match c.registry.lookupType c.package typeName with
  | .error e => .fail (.unresolvedType typeName e)
  | .ok target =>
    if target ∈ path then .fail (.recursiveMessage typeName)
    else c.messageSchema path (target.message.scopeWithin scope) target

/-- The schema of a field of the message at the head of the path. -/
def fieldSchema (c : Conversion) (path : List Declaration) (scope : List EnumType) (f : Field) :
    Logged ConversionError Schema :=
  f.schema c.policy scope (c.embed path scope)

/-- The schema of a message is made of the schemas of its fields. -/
theorem messageSchema_eq (c : Conversion) (path : List Declaration) (scope : List EnumType)
    (d : Declaration) :
    c.messageSchema path scope d =
      c.policy.messageSchema <$> d.message.properties (c.fieldSchema (d :: path) scope) := by
  rw [messageSchema]
  congr 2
  funext f
  unfold fieldSchema
  congr 1
  funext typeName
  unfold embed
  split <;> split <;> simp_all

/-! ## Entry points -/

/-- The schema of a message by itself; `visible` are the enums it sees beside its own. -/
def message (c : Conversion) (d : Declaration) (visible : List EnumType) :
    Logged ConversionError Schema :=
  c.messageSchema [] (d.message.outerScope visible) d

/-- The schema of one field, as converting the message around it would make it. -/
def field (c : Conversion) (enclosing : Declaration) (f : Field) (visible : List EnumType) :
    Logged ConversionError Schema :=
  c.fieldSchema [enclosing] (enclosing.message.outerScope visible) f

end Conversion

end ProtoSchema
