import ProtoSchema.Text.Pieces
import ProtoSchema.Text.Blank

/-!
# Options and the policy they resolve to

Six switches steer the output. They are named on the command line and in the parameter string of a
request; either way a switch is only ever turned on, so the options are the set of the switches
named anywhere (`Options.has_apply`).

A `Policy` is what the conversion reads. It can be had from options only when they do not ask for
nullable values and forbid unions at once, since a nullable value is written as a union; that a
policy with nullable values allows unions is part of its type.
-/

namespace ProtoSchema

/-! ## Switches -/

/-- A switch of the output. -/
inductive Switch where
  /-- scalars, objects and arrays may be null -/
  | allowNullValues
  /-- enum values are names only -/
  | disallowEnumOneOf
  /-- no unions at all -/
  | disallowOneOf
  /-- objects have no members beyond their properties -/
  | disallowAdditionalProperties
  /-- 64-bit integers are not written as strings -/
  | disallowBigintsAsStrings
  /-- debug messages are logged -/
  | debug
  deriving DecidableEq, Repr

/-- Every switch, in the order in which they are listed to the user. -/
def Switch.all : List Switch :=
  [.allowNullValues, .disallowEnumOneOf, .disallowOneOf, .disallowAdditionalProperties,
   .disallowBigintsAsStrings, .debug]

/-- The name of a switch in a parameter string. -/
def Switch.name : Switch → String
  | .allowNullValues => "allow_null_values"
  | .disallowEnumOneOf => "disallow_enum_one_of"
  | .disallowOneOf => "disallow_one_of"
  | .disallowAdditionalProperties => "disallow_additional_properties"
  | .disallowBigintsAsStrings => "disallow_bigints_as_strings"
  | .debug => "debug"

/-- The switch of that name, if there is one. -/
def Switch.ofName? (name : String) : Option Switch :=
  Switch.all.find? (·.name = name)

theorem Switch.mem_all (s : Switch) : s ∈ Switch.all := by
  cases s <;> decide

theorem Switch.ofName?_name (s : Switch) : Switch.ofName? s.name = some s := by
  cases s <;> decide

theorem Switch.name_of_ofName? {name : String} {s : Switch} (h : Switch.ofName? name = some s) :
    s.name = name := by
  simpa using List.find?_some h

/-! ## Options -/

/-- Which switches are on. -/
structure Options where
  /-- scalars, objects and arrays may be null -/
  allowNullValues : Bool := false
  /-- enum values are names only -/
  disallowEnumOneOf : Bool := false
  /-- no unions at all -/
  disallowOneOf : Bool := false
  /-- objects have no members beyond their properties -/
  disallowAdditionalProperties : Bool := false
  /-- 64-bit integers are not written as strings -/
  disallowBigintsAsStrings : Bool := false
  /-- debug messages are logged -/
  debug : Bool := false
  deriving DecidableEq, Repr

namespace Options

/-- Whether a switch is on. -/
def has (o : Options) : Switch → Bool
  | .allowNullValues => o.allowNullValues
  | .disallowEnumOneOf => o.disallowEnumOneOf
  | .disallowOneOf => o.disallowOneOf
  | .disallowAdditionalProperties => o.disallowAdditionalProperties
  | .disallowBigintsAsStrings => o.disallowBigintsAsStrings
  | .debug => o.debug

/-- The options with one more switch on. -/
def turnOn (o : Options) : Switch → Options
  | .allowNullValues => { o with allowNullValues := true }
  | .disallowEnumOneOf => { o with disallowEnumOneOf := true }
  | .disallowOneOf => { o with disallowOneOf := true }
  | .disallowAdditionalProperties => { o with disallowAdditionalProperties := true }
  | .disallowBigintsAsStrings => { o with disallowBigintsAsStrings := true }
  | .debug => { o with debug := true }

/-- The options with all of these switches on as well. -/
def turnOnAll (o : Options) (switches : List Switch) : Options :=
  switches.foldl turnOn o

theorem has_turnOn (o : Options) (s t : Switch) :
    (o.turnOn s).has t = (o.has t || decide (t = s)) := by
  cases s <;> cases t <;> simp [turnOn, has]

theorem has_turnOnAll (o : Options) (switches : List Switch) (t : Switch) :
    (o.turnOnAll switches).has t = (o.has t || decide (t ∈ switches)) := by
  induction switches generalizing o with
  | nil => simp [turnOnAll]
  | cons s rest ih =>
    have := ih (o.turnOn s)
    simp only [turnOnAll, List.foldl_cons] at this ⊢
    rw [this, has_turnOn]
    by_cases h : t = s <;> simp [h]

/-- Options are the set of the switches that are on. -/
theorem ext_has {o p : Options} (h : ∀ s, o.has s = p.has s) : o = p := by
  have h1 := h .allowNullValues
  have h2 := h .disallowEnumOneOf
  have h3 := h .disallowOneOf
  have h4 := h .disallowAdditionalProperties
  have h5 := h .disallowBigintsAsStrings
  have h6 := h .debug
  cases o
  cases p
  simp_all [has]

end Options

/-! ## Parameter strings -/

/-- The entries of a parameter string: what stands between the commas, trimmed, empty entries left
out. -/
def parameterEntries (parameter : String) : List String :=
  ((pieces ',' parameter.toList).map fun entry => String.ofList (trim entry)).filter (· ≠ "")

/-- The entries that name no switch. -/
def unknownEntries (parameter : String) : List String :=
  (parameterEntries parameter).filter fun entry => (Switch.ofName? entry).isNone

/-- The options with the switches on that the parameter string names. -/
def Options.apply (o : Options) (parameter : String) : Options :=
  o.turnOnAll ((parameterEntries parameter).filterMap Switch.ofName?)

/-- After a parameter string those switches are on that were on or are named in it. -/
theorem Options.has_apply (o : Options) (parameter : String) (s : Switch) :
    (o.apply parameter).has s = (o.has s || decide (s.name ∈ parameterEntries parameter)) := by
  have key : s ∈ (parameterEntries parameter).filterMap Switch.ofName? ↔
      s.name ∈ parameterEntries parameter := by
    rw [List.mem_filterMap]
    constructor
    · rintro ⟨name, hmem, hname⟩
      rwa [Switch.name_of_ofName? hname]
    · intro hmem
      exact ⟨s.name, hmem, Switch.ofName?_name s⟩
  rw [apply, has_turnOnAll]
  simp only [key]

/-! ## Policies -/

/-- Why options resolve to no policy. -/
inductive OptionConflict where
  /-- nullable values are asked for, but not the unions they are written as -/
  | nullWithoutOneOf
  deriving DecidableEq, Repr

/-- The text of a conflict. -/
def OptionConflict.message : OptionConflict → String
  | .nullWithoutOneOf => "flags 'allow_null_values' and 'disallow_one_of' cannot both be on"

/-- What the conversion is allowed to write. -/
structure Policy where
  /-- unions may be written -/
  oneOf : Bool
  /-- scalars, objects and arrays may be null -/
  nullable : Bool
  /-- enum fields list the number of each value behind its name -/
  enumNumbers : Bool
  /-- 64-bit integers may be strings -/
  bigintsAsStrings : Bool
  /-- objects may have members beyond their properties -/
  additionalProperties : Bool
  /-- a nullable value is a union -/
  oneOf_of_nullable : nullable = true → oneOf = true

/-- Whether an enum is a union of names and numbers. -/
def Policy.enumOneOf (p : Policy) : Bool := p.enumNumbers && p.oneOf

/-- The policy that the options stand for, unless they are in conflict. -/
def Options.resolve (o : Options) : Except OptionConflict Policy :=
  if h : o.allowNullValues = true ∧ o.disallowOneOf = true then
    .error .nullWithoutOneOf
  else
    .ok
      { oneOf := !o.disallowOneOf
        nullable := o.allowNullValues
        enumNumbers := !o.disallowEnumOneOf
        bigintsAsStrings := !o.disallowBigintsAsStrings
        additionalProperties := !o.disallowAdditionalProperties
        oneOf_of_nullable := by
          intro hn
          simpa using fun hd => h ⟨hn, hd⟩ }

/-- The policy of the options with nothing on: all may be written but null. -/
def Policy.allButNull : Policy where
  oneOf := true
  nullable := false
  enumNumbers := true
  bigintsAsStrings := true
  additionalProperties := true
  oneOf_of_nullable := fun _ => rfl

/-- The policy of the options with null values alone: all may be written. -/
def Policy.everything : Policy :=
  { Policy.allButNull with nullable := true, oneOf_of_nullable := fun _ => rfl }

/-- These are the policies that the options resolve to. -/
theorem Options.resolve_allButNull :
    ({} : Options).resolve = .ok .allButNull ∧
      ({ allowNullValues := true } : Options).resolve = .ok .everything :=
  ⟨rfl, rfl⟩

end ProtoSchema
