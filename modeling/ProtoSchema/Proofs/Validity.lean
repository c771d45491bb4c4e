import ProtoSchema.Schema

/-!
# Validity

What a schema document says about JSON values, after the rules of draft-04 for the keywords that the
documents use. Every keyword asks for something by itself, and a value is valid when it passes all
of them (`Schema.accepts_iff`). A keyword that holds nothing is not written and asks for nothing;
`format` is a hint and asks for nothing either. `items` speaks of arrays only, and `properties` and
`additionalProperties` speak of objects only.

The values are those of any JSON document, so that their numbers may have a fraction; `Json` has
only what a schema document itself is made of. An object may hold two members of one name here, and
then both have to be valid.

The function is recursive on the schema, through items, properties and the members of a union.
`Schema.accepts_iff` is its equation without the recursion, and the only place where it is opened.
-/

namespace ProtoSchema

/-! ## Values -/

/-- A JSON value. -/
inductive Value where
  /-- the null value -/
  | null
  /-- true or false -/
  | boolean (b : Bool)
  /-- a number written without a fraction and without an exponent -/
  | integer (n : Int)
  /-- a number written with one of them: the digits over that power of ten -/
  | decimal (digits : Int) (places : Nat)
  /-- a string -/
  | string (s : String)
  /-- an array -/
  | array (items : List Value)
  /-- an object -/
  | object (members : List (String × Value))
  deriving Inhabited, Repr

namespace Value

/-- The items of an array; nothing else has any. -/
def items : Value → List Value
  | array vs => vs
  | _ => []

/-- The members of an object; nothing else has any. -/
def members : Value → List (String × Value)
  | object ms => ms
  | _ => []

end Value

/-- Whether a value is of a type. Of the numbers only those without a fraction and an exponent are
integers. -/
def JsonType.admits : JsonType → Value → Bool
  | .null, .null => true
  | .boolean, .boolean _ => true
  | .integer, .integer _ => true
  | .number, .integer _ => true
  | .number, .decimal _ _ => true
  | .string, .string _ => true
  | .array, .array _ => true
  | .object, .object _ => true
  | _, _ => false

/-- Whether a value equals a literal; numbers are equal by what they denote. -/
def Literal.equals : Literal → Value → Bool
  | .name s, .string t => s == t
  | .number n, .integer m => n == m
  | .number n, .decimal digits places => n * Int.pow 10 places == digits
  | _, _ => false

theorem Literal.name_equals_iff {s t : String} :
    (Literal.name s).equals (.string t) = true ↔ s = t :=
  beq_iff_eq

theorem Literal.number_equals_iff {n m : Int} :
    (Literal.number n).equals (.integer m) = true ↔ n = m :=
  beq_iff_eq

/-! ## Nodes

What each keyword asks for is a function of its own, since the recursion goes through lists.
-/

mutual

/-- Whether a value is valid against a node. -/
def Schema.accepts : Schema → Value → Bool
  | ⟨_, items, properties, additionalProperties, literals, type, oneOf, _⟩, v =>
    type.all (·.admits v) &&
      (literals.isEmpty || literals.any (·.equals v)) &&
      (oneOf.isEmpty || countAccepting oneOf v == 1) &&
      itemsAccept items v.items &&
      v.members.all fun m =>
        propertyAccepts properties (additionalProperties != some false) m.1 m.2

/-- Whether the items of a value are valid against an `items` keyword. -/
def itemsAccept : Option Schema → List Value → Bool
  | none, _ => true
  | some s, vs => vs.all fun v => s.accepts v

/-- Whether a member of that name is valid against a `properties` keyword; `more` says whether
members beyond the properties are allowed. -/
def propertyAccepts : List (String × Schema) → Bool → String → Value → Bool
  | [], more, _, _ => more
  | (n, s) :: rest, more, name, v =>
    if name = n then s.accepts v else propertyAccepts rest more name v

/-- How many nodes a value is valid against. -/
def countAccepting : List Schema → Value → Nat
  | [], _ => 0
  | s :: rest, v => (if s.accepts v then 1 else 0) + countAccepting rest v

end

/-- The member is valid against the property of its name, or there is none and more members are
allowed. -/
def MemberAllowed (properties : List (String × Schema)) (more : Bool) (member : String × Value) :
    Prop :=
  match properties.lookup member.1 with
  | some s => s.accepts member.2 = true
  | none => more = true

/-- Every member is allowed. -/
def MembersAllowed (properties : List (String × Schema)) (more : Bool)
    (members : List (String × Value)) : Prop :=
  ∀ m ∈ members, MemberAllowed properties more m

theorem countAccepting_eq (ss : List Schema) (v : Value) :
    countAccepting ss v = ss.countP (·.accepts v) := by
  induction ss with
  | nil => rfl
  | cons s rest ih =>
    rw [countAccepting, List.countP_cons, ih]
    exact Nat.add_comm _ _

/-- Of two properties of one name the first counts, as in a table that is looked up. -/
theorem propertyAccepts_iff {properties : List (String × Schema)} {more : Bool} {name : String}
    {v : Value} :
    propertyAccepts properties more name v = true ↔ MemberAllowed properties more (name, v) := by
  induction properties with
  | nil => exact Iff.rfl
  | cons head rest ih =>
    obtain ⟨n, s⟩ := head
    rw [propertyAccepts, MemberAllowed, lookup_cons]
    by_cases h : name = n
    · rw [if_pos h, if_pos h]
    · rw [if_neg h, if_neg h]
      exact ih

/-- A value is valid exactly when it passes each keyword of the node. -/
theorem Schema.accepts_iff {s : Schema} {v : Value} :
    s.accepts v = true ↔
      (∀ ty, s.type = some ty → ty.admits v = true) ∧
      (s.literals ≠ [] → ∃ l ∈ s.literals, l.equals v = true) ∧
      (s.oneOf ≠ [] → s.oneOf.countP (·.accepts v) = 1) ∧
      (∀ i, s.items = some i → ∀ w ∈ v.items, i.accepts w = true) ∧
      MembersAllowed s.properties (s.additionalProperties != some false) v.members := by
  obtain ⟨root, items, properties, additionalProperties, literals, type, oneOf, format⟩ := s
  have htype : type.all (·.admits v) = true ↔ ∀ ty, type = some ty → ty.admits v = true := by
    cases type <;> simp
  have hliterals : (literals.isEmpty || literals.any (·.equals v)) = true ↔
      (literals ≠ [] → ∃ l ∈ literals, l.equals v = true) := by
    cases literals <;> simp
  have honeOf : (oneOf.isEmpty || countAccepting oneOf v == 1) = true ↔
      (oneOf ≠ [] → oneOf.countP (·.accepts v) = 1) := by
    rw [countAccepting_eq]
    cases oneOf <;> simp
  have hitems : itemsAccept items v.items = true ↔
      ∀ i, items = some i → ∀ w ∈ v.items, i.accepts w = true := by
    cases items <;> simp [itemsAccept]
  have hmembers : (v.members.all fun m =>
      propertyAccepts properties (additionalProperties != some false) m.1 m.2) = true ↔
      MembersAllowed properties (additionalProperties != some false) v.members := by
    simp only [List.all_eq_true, propertyAccepts_iff, MembersAllowed]
  rw [Schema.accepts, Bool.and_eq_true, Bool.and_eq_true, Bool.and_eq_true, Bool.and_eq_true,
    htype, hliterals, honeOf, hitems, hmembers]
  simp only [and_assoc]

/-! ## Nodes of one type -/

namespace Schema

/-- A node that asks for a type alone accepts the values of the type. -/
@[simp] theorem accepts_ofType (ty : JsonType) (v : Value) :
    (ofType ty).accepts v = ty.admits v := by
  simp [ofType, accepts, itemsAccept, propertyAccepts]

/-- An array node accepts the arrays whose items are valid. -/
theorem accepts_array_iff {s i : Schema} (htype : s.type = some .array) (hone : s.oneOf = [])
    (hliterals : s.literals = []) (hitems : s.items = some i) (v : Value) :
    s.accepts v = true ↔ ∃ vs, v = .array vs ∧ ∀ w ∈ vs, i.accepts w = true := by
  rw [accepts_iff, htype, hone, hliterals, hitems]
  refine ⟨?_, ?_⟩
  · rintro ⟨hty, -, -, hi, -⟩
    cases v with
    | array vs => exact ⟨vs, rfl, hi i rfl⟩
    | _ => exact absurd (hty .array rfl) Bool.false_ne_true
  · rintro ⟨vs, rfl, hvs⟩
    refine ⟨fun ty h => ?_, fun h => absurd rfl h, fun h => absurd rfl h, fun j h => ?_, ?_⟩
    · obtain rfl := Option.some.inj h
      rfl
    · obtain rfl := Option.some.inj h
      exact hvs
    · exact fun m hm => absurd hm List.not_mem_nil

/-- An object node accepts the objects whose members are allowed. -/
theorem accepts_object_iff {s : Schema} (htype : s.type = some .object) (hone : s.oneOf = [])
    (hliterals : s.literals = []) (hitems : s.items = none) (v : Value) :
    s.accepts v = true ↔ ∃ ms, v = .object ms ∧
      MembersAllowed s.properties (s.additionalProperties != some false) ms := by
  rw [accepts_iff, htype, hone, hliterals, hitems]
  refine ⟨?_, ?_⟩
  · rintro ⟨hty, -, -, -, hms⟩
    cases v with
    | object ms => exact ⟨ms, rfl, hms⟩
    | _ => exact absurd (hty .object rfl) Bool.false_ne_true
  · rintro ⟨ms, rfl, hms⟩
    refine ⟨fun ty h => ?_, fun h => absurd rfl h, fun h => absurd rfl h, fun j h => ?_, hms⟩
    · obtain rfl := Option.some.inj h
      rfl
    · cases h

end Schema

end ProtoSchema
