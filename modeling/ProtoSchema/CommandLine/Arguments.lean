import ProtoSchema.Options

/-!
# Arguments

The program is run as a plugin, or with the command `convert` and its own arguments. The switches
of the output are accepted before the command and behind it, each once on either side.

An option takes its value from the same argument (`-ix`, `-i=x`, `--input=x`) or from the next one;
`--input` goes on taking words until an argument starts with a dash. An option that is written out
is complete only when the next one begins or the arguments end, so that a missing value is found
there. A lone dash is a word.
-/

namespace ProtoSchema

/-! ## What is asked for -/

/-- Why the arguments are not carried out. -/
inductive UsageError where
  /-- an argument that does not belong here -/
  | unknownArgument
  /-- a word where a command should stand -/
  | invalidSubcommand
  /-- no input is named -/
  | missingRequiredArgument
  /-- an option without its value, or with an empty one that it does not take -/
  | invalidValue
  /-- a value for a switch -/
  | tooManyValues
  /-- what may be given once is given twice -/
  | argumentConflict
  /-- the user asks for help -/
  | displayHelp
  deriving DecidableEq, Repr

/-- How the program is used. -/
def usage : String :=
  "Usage: proto-schema [SWITCHES]\n" ++
  "       proto-schema [SWITCHES] convert " ++
  "--input <INPUT>... [--file <FILE>]... [--out <OUT>]\n\n" ++
  "Without a command, answers the plugin request on the standard input.\n\n" ++
  "Switches:\n" ++
  "  --allow-null-values               allow null values in every scalar, object and array\n" ++
  "  --disallow-enum-one-of            enums are strings only\n" ++
  "  --disallow-one-of                 never emit oneOf (conflicts with --allow-null-values)\n" ++
  "  --disallow-additional-properties  objects reject properties they do not declare\n" ++
  "  --disallow-bigints-as-strings     64-bit integers are integers only, never strings\n" ++
  "  --debug                           debug logging\n"

/-- The text of a usage error. -/
def UsageError.message : UsageError → String
  | .unknownArgument => "unexpected argument"
  | .invalidSubcommand => "unrecognized subcommand"
  | .missingRequiredArgument => "the option '--input' is required"
  | .invalidValue => "an option lacks its value"
  | .tooManyValues => "a switch takes no value"
  | .argumentConflict => "an argument cannot be used multiple times"
  | .displayHelp => usage

/-- What `convert` is to do. -/
structure ConvertSettings where
  /-- paths of descriptor sets, or patterns for them -/
  inputs : List String := []
  /-- the files to convert; all of them when none is named -/
  files : List String := []
  /-- the directory for the documents; the standard output when none is named -/
  out : Option String := none
  deriving DecidableEq, Repr

/-- What the program is to do. -/
inductive Command where
  /-- answer a request -/
  | plugin
  /-- convert descriptor sets -/
  | convert (settings : ConvertSettings)
  deriving DecidableEq, Repr

/-- A command with the options it is given. -/
structure Invocation where
  /-- the switches that are on -/
  options : Options
  /-- the command -/
  command : Command
  deriving DecidableEq, Repr

/-! ## Words, switches and options -/

/-- The forms of an argument. -/
inductive ArgumentForm where
  /-- a word -/
  | word
  /-- a long name behind two dashes, perhaps with a value behind an equals sign -/
  | long (name : String) (value : Option String)
  /-- a short name behind a dash, and what follows it -/
  | short (name : Char) (rest : List Char)
  /-- two dashes alone, behind which everything is a word -/
  | escape

/-- The form of an argument. -/
def ArgumentForm.of (argument : String) : ArgumentForm :=
  match argument.toList with
  | ['-', '-'] => .escape
  | '-' :: '-' :: rest =>
    let name := String.ofList (rest.takeWhile (· ≠ '='))
    match rest.dropWhile (· ≠ '=') with
    | [] => .long name none
    | _ :: value => .long name (some (String.ofList value))
  | '-' :: c :: rest => .short c rest
  | _ => .word

/-- The long name of a switch: its name in a parameter string with dashes for underscores. -/
def Switch.longName (s : Switch) : String :=
  String.ofList (s.name.toList.map fun c => if c = '_' then '-' else c)

/-- The switch of that long name. -/
def Switch.ofLongName? (name : String) : Option Switch :=
  Switch.all.find? (·.longName = name)

/-- Turn one more switch on. -/
def addSwitch (s : Switch) (value : Option String) (on : List Switch) :
    Except UsageError (List Switch) :=
  if value.isSome then .error .tooManyValues
  else if s ∈ on then .error .argumentConflict
  else .ok (on ++ [s])

/-- The options of `convert`. -/
inductive ConvertOption where
  /-- where the descriptor sets are -/
  | input
  /-- a file to convert -/
  | file
  /-- where the documents go -/
  | out
  deriving DecidableEq, Repr

/-- The option of that long name. -/
def ConvertOption.ofLongName? (name : String) : Option ConvertOption :=
  if name = "input" then some .input
  else if name = "file" then some .file
  else if name = "out" then some .out
  else none

/-- The option of that short name. -/
def ConvertOption.ofShortName? (name : Char) : Option ConvertOption :=
  if name = 'i' then some .input
  else if name = 'f' then some .file
  else if name = 'o' then some .out
  else none

/-! ## The arguments of the convert command -/

/-- What the arguments of `convert` have said so far. -/
structure ConvertReading where
  /-- the switches that are on -/
  switches : List Switch := []
  /-- the complete options -/
  settings : ConvertSettings := {}
  /-- the option that is written out but not complete, with its values so far -/
  pending : Option (ConvertOption × List String) := none
  /-- whether a word is a value of the pending option -/
  taking : Bool := false

namespace ConvertReading

/-- Add a complete option with its values. -/
def addOption (r : ConvertReading) (option : ConvertOption) (values : List String) :
    Except UsageError ConvertReading :=
  match option, values with
  | _, [] => .error .invalidValue
  | .input, values => .ok { r with settings.inputs := r.settings.inputs ++ values }
  | .file, values => .ok { r with settings.files := r.settings.files ++ values }
  | .out, value :: _ =>
    if r.settings.out.isSome then .error .argumentConflict
    else if value = "" then .error .invalidValue
    else .ok { r with settings.out := some value }

/-- Complete the pending option. -/
def complete (r : ConvertReading) : Except UsageError ConvertReading :=
  match r.pending with
  | some (option, values) =>
    { r with pending := none, taking := false }.addOption option values
  | none => .ok r

/-- Take a word as a value of the pending option, if there is one that takes it. -/
def addWord (r : ConvertReading) (word : String) : Except UsageError ConvertReading :=
  match r.taking, r.pending with
  | true, some (option, values) =>
    .ok { r with pending := some (option, values ++ [word]), taking := option = .input }
  | _, _ => .error .unknownArgument

/-- Begin an option, which is complete at once when its value is attached. -/
def beginOption (r : ConvertReading) (option : ConvertOption) (value : Option String) :
    Except UsageError ConvertReading := do
  let r ← r.complete
  match value with
  | some v => r.addOption option [v]
  | none => return { r with pending := some (option, []), taking := true }

/-- The value attached to a short name: what follows it, less an equals sign. -/
def attachedValue : List Char → Option String
  | [] => none
  | '=' :: value => some (String.ofList value)
  | value => some (String.ofList value)

/-- Read an argument with a long name. -/
def addLong (r : ConvertReading) (name : String) (value : Option String) :
    Except UsageError ConvertReading :=
  match ConvertOption.ofLongName? name, Switch.ofLongName? name with
  | some option, _ => r.beginOption option value
  | none, some s =>
    -- a value too many is found before a value that is missing
    if value.isSome then .error .tooManyValues
    else do
      let r ← r.complete
      return { r with switches := ← addSwitch s none r.switches }
  | none, none =>
    if name = "help" then
      if value.isSome then .error .tooManyValues
      else do
        let _ ← r.complete
        .error .displayHelp
    else .error .unknownArgument

/-- Read an argument with a short name. -/
def addShort (r : ConvertReading) (name : Char) (rest : List Char) :
    Except UsageError ConvertReading :=
  match ConvertOption.ofShortName? name with
  | some option => r.beginOption option (attachedValue rest)
  | none =>
    if name = 'h' then do
      let _ ← r.complete
      .error .displayHelp
    else .error .unknownArgument

/-- Read the arguments of `convert`. -/
def addAll (r : ConvertReading) : List String → Except UsageError ConvertReading
  | [] => r.complete
  | argument :: rest =>
    match ArgumentForm.of argument with
    | .word => do (← r.addWord argument).addAll rest
    | .long name value => do (← r.addLong name value).addAll rest
    | .short name more => do (← r.addShort name more).addAll rest
    | .escape => if rest = [] then r.complete else .error .unknownArgument

end ConvertReading

/-- The invocation of `convert` with these arguments; `before` are the switches that stand before
the command. -/
def parseConvert (before : List Switch) (arguments : List String) :
    Except UsageError Invocation := do
  let r ← ({} : ConvertReading).addAll arguments
  if r.settings.inputs = [] then .error .missingRequiredArgument
  else
    return { options := Options.turnOnAll {} (before ++ r.switches)
             command := .convert r.settings }

/-! ## All arguments -/

/-- What the word `help` is followed by: nothing, or one of the commands. -/
def parseHelp (arguments : List String) : Except UsageError Invocation :=
  if arguments = [] ∨ arguments = ["convert"] ∨ arguments = ["help"] then .error .displayHelp
  else .error .invalidSubcommand

/-- Read the arguments; `on` are the switches so far. -/
def parseFrom (on : List Switch) : List String → Except UsageError Invocation
  | [] => .ok { options := Options.turnOnAll {} on, command := .plugin }
  | argument :: rest =>
    match ArgumentForm.of argument with
    | .word =>
      if argument = "convert" then parseConvert on rest
      else if argument = "help" then parseHelp rest
      else .error .invalidSubcommand
    | .long name value =>
      match Switch.ofLongName? name with
      | some s => do parseFrom (← addSwitch s value on) rest
      | none =>
        if name = "help" then
          .error (if value.isSome then .tooManyValues else .displayHelp)
        else .error .unknownArgument
    | .short name _ => .error (if name = 'h' then .displayHelp else .unknownArgument)
    | .escape =>
      match rest with
      | [] => .ok { options := Options.turnOnAll {} on, command := .plugin }
      | word :: _ =>
        .error (if word = "convert" ∨ word = "help" then .unknownArgument else .invalidSubcommand)

/-- What the arguments ask for. -/
def parseArguments (arguments : List String) : Except UsageError Invocation :=
  parseFrom [] arguments

end ProtoSchema
