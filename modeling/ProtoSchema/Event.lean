import ProtoSchema.Failure

/-!
# The log

A conversion tells what it does. `Event` lists what can be told, and `level`, `message` and
`details` give the words. A `Logged` computation is a result or a failure together with the events
up to there; a failure keeps the events that came before it.

The events never steer the result: `result_bind` says that the result of a sequence is the sequence
of the results.
-/

namespace ProtoSchema

/-! ## Events -/

/-- How serious an event is. -/
inductive Level where
  /-- a step of the work -/
  | info
  /-- something was left out -/
  | warn
  /-- something failed -/
  | error
  deriving DecidableEq, Repr

/-- Something that the log tells. -/
inductive Event where
  /-- an entry of the parameter string names no switch -/
  | unknownParameter (parameter : String)
  /-- no enum in scope fits the type name of an enum field -/
  | enumNotMatched (field typeName : String)
  /-- a field could not be converted -/
  | fieldFailed (field message : String) (error : ConversionError)
  /-- a file has more than one message -/
  | severalMessages (count : Nat) (file : String)
  /-- a file sees more than one enum -/
  | severalEnums (count : Nat) (file : String)
  /-- an enum is converted to a document of its own -/
  | convertingEnum (name file document : String)
  /-- a message is converted to a document -/
  | convertingMessage (name file document : String)
  /-- a file could not be converted -/
  | fileFailed (file : String) (error : ConversionError)
  /-- a request could not be answered with documents -/
  | requestFailed (error : SessionError)
  deriving DecidableEq, Repr

namespace Event

/-- How serious the event is. -/
def level : Event → Level
  | unknownParameter _ => .warn
  | enumNotMatched _ _ => .warn
  | fieldFailed _ _ _ => .error
  | severalMessages _ _ => .info
  | severalEnums _ _ => .info
  | convertingEnum _ _ _ => .info
  | convertingMessage _ _ _ => .info
  | fileFailed _ _ => .error
  | requestFailed _ => .error

/-- What the event says. -/
def message : Event → String
  | unknownParameter _ => "ignoring unknown plugin parameter"
  | enumNotMatched _ _ => "could not find matching enum"
  | fieldFailed _ _ _ => "failed to convert field"
  | severalMessages _ _ => "file declares several messages, each gets its own schema"
  | severalEnums _ _ => "file sees several enums, each gets its own schema"
  | convertingEnum _ _ _ => "generating schema for stand-alone enum"
  | convertingMessage _ _ _ => "generating schema for message"
  | fileFailed _ _ => "failed to convert"
  | requestFailed _ => "conversion failed"

/-- The named details of the event. -/
def details : Event → List (String × String)
  | unknownParameter parameter => [("parameter", parameter)]
  | enumNotMatched field typeName => [("field", field), ("type_name", typeName)]
  | fieldFailed field message error =>
    [("field", field), ("message_name", message), ("error", error.message)]
  | severalMessages count file => [("count", decimalText count), ("file", file)]
  | severalEnums count file => [("count", decimalText count), ("file", file)]
  | convertingEnum name file document =>
    [("enum_name", name), ("file", file), ("document", document)]
  | convertingMessage name file document =>
    [("message_name", name), ("file", file), ("document", document)]
  | fileFailed file error => [("file", file), ("error", error.message)]
  | requestFailed error => [("error", error.message)]

end Event

/-! ## Logged computations -/

/-- A result or a failure, and the events on the way to it. -/
structure Logged (ε α : Type) where
  /-- the events, in order -/
  events : List Event
  /-- the result -/
  result : Except ε α

namespace Logged

variable {ε ε' α β : Type}

/-- A result without events. -/
protected def pure (a : α) : Logged ε α := ⟨[], .ok a⟩

/-- A failure without events. -/
def fail (e : ε) : Logged ε α := ⟨[], .error e⟩

/-- What is known already, without events. -/
def ofExcept (r : Except ε α) : Logged ε α := ⟨[], r⟩

/-- First one computation, then what its result asks for. -/
protected def bind (x : Logged ε α) (f : α → Logged ε β) : Logged ε β :=
  match x.result with
  | .ok a =>
    let y := f a
    ⟨x.events ++ y.events, y.result⟩
  | .error e => ⟨x.events, .error e⟩

instance : Monad (Logged ε) where
  pure := Logged.pure
  bind := Logged.bind

/-- An event. -/
def tell (event : Event) : Logged ε Unit := ⟨[event], .ok ()⟩

/-- Add an event when the computation fails. -/
def onFailure (x : Logged ε α) (event : ε → Event) : Logged ε α :=
  match x.result with
  | .ok a => ⟨x.events, .ok a⟩
  | .error e => ⟨x.events ++ [event e], .error e⟩

/-- Say a failure in other words. -/
def mapError (f : ε → ε') (x : Logged ε α) : Logged ε' α := ⟨x.events, x.result.mapError f⟩

/-! ### Results -/

@[simp] theorem result_pure (a : α) : (pure a : Logged ε α).result = .ok a := rfl

@[simp] theorem events_pure (a : α) : (pure a : Logged ε α).events = [] := rfl

@[simp] theorem result_fail (e : ε) : (fail e : Logged ε α).result = .error e := rfl

@[simp] theorem events_fail (e : ε) : (fail e : Logged ε α).events = [] := rfl

@[simp] theorem result_ofExcept (r : Except ε α) : (ofExcept r).result = r := rfl

@[simp] theorem events_ofExcept (r : Except ε α) : (ofExcept r).events = [] := rfl

@[simp] theorem result_tell (event : Event) : (tell event : Logged ε Unit).result = .ok () := rfl

@[simp] theorem events_tell (event : Event) : (tell event : Logged ε Unit).events = [event] := rfl

@[simp] theorem result_mapError (f : ε → ε') (x : Logged ε α) :
    (x.mapError f).result = x.result.mapError f := rfl

@[simp] theorem events_mapError (f : ε → ε') (x : Logged ε α) :
    (x.mapError f).events = x.events := rfl

theorem bind_eq (x : Logged ε α) (f : α → Logged ε β) : x >>= f = Logged.bind x f := rfl

/-- The result of a sequence is the sequence of the results. -/
@[simp] theorem result_bind (x : Logged ε α) (f : α → Logged ε β) :
    (x >>= f).result = x.result >>= fun a => (f a).result := by
  rw [bind_eq]
  unfold Logged.bind
  cases x.result <;> rfl

@[simp] theorem result_map (f : α → β) (x : Logged ε α) :
    (f <$> x).result = f <$> x.result := by
  change (x >>= fun a => pure (f a)).result = _
  rw [result_bind]
  cases x.result <;> rfl

@[simp] theorem result_onFailure (x : Logged ε α) (event : ε → Event) :
    (x.onFailure event).result = x.result := by
  unfold onFailure
  cases h : x.result <;> rfl

theorem ext {x y : Logged ε α} (he : x.events = y.events) (hr : x.result = y.result) : x = y := by
  cases x
  cases y
  simp_all

/-! ### Laws -/

theorem id_map (x : Logged ε α) : id <$> x = x := by
  change Logged.bind x (fun a => pure (id a)) = x
  unfold Logged.bind
  apply ext
  · cases h : x.result <;> simp
  · cases h : x.result <;> rfl

theorem pure_bind (a : α) (f : α → Logged ε β) : pure a >>= f = f a := by
  change Logged.bind (Logged.pure a) f = f a
  simp [Logged.bind, Logged.pure]

theorem bind_assoc {γ : Type} (x : Logged ε α) (f : α → Logged ε β) (g : β → Logged ε γ) :
    x >>= f >>= g = x >>= fun a => f a >>= g := by
  change Logged.bind (Logged.bind x f) g = Logged.bind x fun a => Logged.bind (f a) g
  unfold Logged.bind
  cases x.result with
  | error e => rfl
  | ok a => cases h : (f a).result <;> simp [h]

instance : LawfulMonad (Logged ε) := LawfulMonad.mk' (Logged ε) id_map pure_bind bind_assoc

end Logged

end ProtoSchema
