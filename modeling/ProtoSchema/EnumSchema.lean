import ProtoSchema.Descriptor
import ProtoSchema.Options
import ProtoSchema.Schema

/-!
# Enums as schemas

An enum is written as the list of its values under a type: names alone, or names and numbers. An
enum field names its enum, and the enum is looked for among those in scope by its local name: the
first enum whose name ends the field's type name is taken, whatever stands before that ending.
-/

namespace ProtoSchema

/-- The schema of a type, nullable when the policy says so. -/
def Policy.scalar (p : Policy) (ty : JsonType) : Schema :=
  if p.nullable then .nullable ty else .ofType ty

/-- The type of an enum's values: strings, or the union of strings, integers and perhaps null. -/
def Policy.enumBase (p : Policy) (withNull : Bool) : Schema :=
  if p.enumOneOf then
    { oneOf := [.ofType .string, .ofType .integer] ++ if withNull then [.ofType .null] else [] }
  else
    .ofType .string

/-- The values of an enum in declaration order: each name, perhaps followed by its number. -/
def EnumType.literals (e : EnumType) (withNumbers : Bool) : List Literal :=
  e.values.flatMap fun v => .name v.name :: if withNumbers then [.number v.number] else []

/-- The schema of an enum by itself. -/
def Policy.enumSchema (p : Policy) (e : EnumType) : Schema :=
  { p.enumBase false with literals := e.literals p.enumOneOf }

/-- Whether the enum's name ends the type name. -/
def EnumType.fits (e : EnumType) (typeName : String) : Bool :=
  e.name.toList.isSuffixOf typeName.toList

/-- The enum that the type name stands for: the first in scope that fits. -/
def matchEnum (scope : List EnumType) (typeName : String) : Option EnumType :=
  scope.find? (·.fits typeName)

end ProtoSchema
