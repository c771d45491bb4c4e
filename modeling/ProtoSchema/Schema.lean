import ProtoSchema.Json
import ProtoSchema.Table

/-!
# Draft-04 schema nodes

A schema is a node with the eight keywords that the documents use, each of which may be missing.
`Schema.toJson` writes the keywords that are there in one fixed order, and `Schema.text` is the
text of the document.

A node is nullable when one member of its union is the bare null type; a node whose own type is
null does not count, since nothing is a union there (`Schema.admitsNull`).
-/

namespace ProtoSchema

/-! ## Nodes -/

/-- The seven primitive types. -/
inductive JsonType where
  /-- the type of null -/
  | null
  /-- the type of true and false -/
  | boolean
  /-- the type of whole numbers -/
  | integer
  /-- the type of all numbers -/
  | number
  /-- the type of strings -/
  | string
  /-- the type of arrays -/
  | array
  /-- the type of objects -/
  | object
  deriving DecidableEq, Repr

/-- The name of a type, as the `type` keyword has it. -/
def JsonType.name : JsonType → String
  | .null => "null"
  | .boolean => "boolean"
  | .integer => "integer"
  | .number => "number"
  | .string => "string"
  | .array => "array"
  | .object => "object"

/-- A value that an `enum` keyword allows. -/
inductive Literal where
  /-- the name of an enum value -/
  | name (s : String)
  /-- the number of an enum value -/
  | number (n : Int)
  deriving DecidableEq, Repr

/-- A schema node. A keyword that holds nothing (`none`, an empty list, `false` for the version
marker) is not written. -/
structure Schema where
  /-- whether the node carries the draft-04 marker of a document root -/
  isRoot : Bool := false
  /-- what the items of an array have to be -/
  items : Option Schema := none
  /-- what the members of an object have to be, in ascending order of their names -/
  properties : List (String × Schema) := []
  /-- whether an object may have members beyond its properties -/
  additionalProperties : Option Bool := none
  /-- the only values allowed, when there are any -/
  literals : List Literal := []
  /-- the type of the value -/
  type : Option JsonType := none
  /-- the alternatives of which exactly one has to hold, when there are any -/
  oneOf : List Schema := []
  /-- a hint at the form of the value -/
  format : Option String := none
  deriving Inhabited, Repr

namespace Schema

/-- The node that asks for a type and nothing else. -/
def ofType (ty : JsonType) : Schema := { type := some ty }

/-- The union of null and a type. -/
def nullable (ty : JsonType) : Schema := { oneOf := [ofType .null, ofType ty] }

/-- Whether the node's own type is the given one. -/
def isType (s : Schema) (ty : JsonType) : Bool := s.type == some ty

/-- Whether the node's union has null as a member. -/
def admitsNull (s : Schema) : Bool := s.oneOf.any (·.isType .null)

/-- The node as the root of a document. -/
def asDocument (s : Schema) : Schema := { s with isRoot := true }

end Schema

/-! ## Writing -/

/-- The address that marks a document as draft-04. -/
def draft04 : String := "http://json-schema.org/draft-04/schema#"

/-- A literal as a JSON value. -/
def Literal.toJson : Literal → Json
  | .name s => .string s
  | .number n => .integer n

/-- The member of a keyword that may be missing. -/
def keyword {α : Type} (key : String) (value : Option α) (write : α → Json) :
    List (String × Json) :=
  match value with
  | none => []
  | some v => [(key, write v)]

/-- The member of a keyword whose list of values may be empty. -/
def listKeyword (key : String) : List Json → List (String × Json)
  | [] => []
  | v :: vs => [(key, .array (v :: vs))]

/-- The `properties` member, missing when there are none. -/
def propertiesKeyword : List (String × Json) → List (String × Json)
  | [] => []
  | p :: ps => [("properties", .object (p :: ps))]

mutual

/-- A schema as a JSON object, its keywords in their fixed order. -/
def Schema.toJson : Schema → Json
  | ⟨isRoot, items, properties, additionalProperties, literals, type, oneOf, format⟩ =>
    .object
      (keyword "$schema" (if isRoot then some draft04 else none) .string ++
        itemsToJson items ++
        propertiesKeyword (propertiesToJson properties) ++
        keyword "additionalProperties" additionalProperties .boolean ++
        listKeyword "enum" (literals.map Literal.toJson) ++
        keyword "type" (type.map JsonType.name) .string ++
        listKeyword "oneOf" (membersToJson oneOf) ++
        keyword "format" format .string)

/-- The `items` member. -/
def itemsToJson : Option Schema → List (String × Json)
  | none => []
  | some s => [("items", s.toJson)]

/-- The members of the `properties` object. -/
def propertiesToJson : List (String × Schema) → List (String × Json)
  | [] => []
  | (name, s) :: rest => (name, s.toJson) :: propertiesToJson rest

/-- The items of the `oneOf` array. -/
def membersToJson : List Schema → List Json
  | [] => []
  | s :: rest => s.toJson :: membersToJson rest

end

/-- The text of a schema. -/
def Schema.text (s : Schema) : String := s.toJson.text

end ProtoSchema
