import ProtoSchema.Descriptor
import ProtoSchema.Text.UpperCase

/-!
# Property names

A field is a property under its JSON name. A field without one gets its declared name in lower
camel case: the underscores go, and the character behind one goes to upper case, which may make it
several characters.
-/

namespace ProtoSchema

/-- Drop the underscores, and put each character behind one in upper case; `raised` says whether an
underscore stands before the text. -/
def camelCase (raised : Bool) : List Char → List Char
  | [] => []
  | c :: cs =>
    if c = '_' then camelCase true cs
    else if raised then upperCase c ++ camelCase false cs
    else c :: camelCase false cs

/-- A name in lower camel case. -/
def lowerCamelCase (name : String) : String :=
  String.ofList (camelCase false name.toList)

/-- The property that a field becomes. -/
def Field.propertyName (f : Field) : String :=
  if f.jsonName = "" then lowerCamelCase f.name else f.jsonName

end ProtoSchema
