import ProtoSchema.Json

/-!
# Failures

What can go wrong between a descriptor and its document, each failure with its text. A failure that
wraps another one holds it: a session fails at a file, a file at a type name, a type name at a
lookup. `causes` lists the texts of what is wrapped, from the outside inwards.
-/

namespace ProtoSchema

/-- Why a name of a type or package could not be resolved. -/
inductive LookupError where
  /-- the name is empty, or ends in an empty part where a message name should stand -/
  | emptyName
  /-- a part of the name is neither a package nor a message of the package reached -/
  | noSuchPackageOrMessage (segment package : String)
  /-- a part of the name is no message declared inside the message reached -/
  | noSuchNestedMessage (component message : String)
  /-- there is no package of that full name -/
  | noSuchPackage (name : String)
  /-- no message of that name can be seen from the package -/
  | notFound (name context : String)
  deriving DecidableEq, Repr

/-- The text of a failed lookup. -/
def LookupError.message : LookupError → String
  | .emptyName => "empty message name"
  | .noSuchPackageOrMessage segment package =>
    "no such package nor message `" ++ segment ++ "` in `" ++ package ++ "`"
  | .noSuchNestedMessage component message =>
    "no such nested message `" ++ component ++ "` in `" ++ message ++ "`"
  | .noSuchPackage name => "no such package `" ++ name ++ "`"
  | .notFound name context => "`" ++ name ++ "` is not visible from package `" ++ context ++ "`"

/-- Why a field, message or file could not be converted. -/
inductive ConversionError where
  /-- the message type of a field does not resolve -/
  | unresolvedType (name : String) (source : LookupError)
  /-- the number of a field's type is the number of no type -/
  | unrecognizedFieldType (field : String) (typeNumber : Int)
  /-- a message holds itself -/
  | recursiveMessage (name : String)
  /-- the package of a file does not resolve -/
  | unknownPackage (name : String) (source : LookupError)
  deriving DecidableEq, Repr

/-- The text of a failed conversion. -/
def ConversionError.message : ConversionError → String
  | .unresolvedType name source => "no such message type named " ++ name ++ ": " ++ source.message
  | .unrecognizedFieldType field typeNumber =>
    "unrecognized field type " ++ decimalText typeNumber ++ " on field `" ++ field ++ "`"
  | .recursiveMessage name => "message type " ++ name ++ " refers back to itself"
  | .unknownPackage name _ => "no such package found: " ++ name

/-- The texts of the failures inside a failed conversion. -/
def ConversionError.causes : ConversionError → List String
  | .unresolvedType _ source => [source.message]
  | .unknownPackage _ source => [source.message]
  | _ => []

/-- Why a session produced no documents. -/
inductive SessionError where
  /-- a requested file could not be converted -/
  | file (name : String) (source : ConversionError)
  /-- a requested file is not there -/
  | unknownFile (name : String)
  deriving DecidableEq, Repr

/-- The text of a failed session. -/
def SessionError.message : SessionError → String
  | .file name source => "failed to convert " ++ name ++ ": " ++ source.message
  | .unknownFile name => "file " ++ name ++ " was requested but is not part of the descriptor set"

/-- The texts of the failures inside a failed session. -/
def SessionError.causes : SessionError → List String
  | .file _ source => source.message :: source.causes
  | .unknownFile _ => []

end ProtoSchema
