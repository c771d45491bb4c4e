import ProtoSchema.CommandLine.Convert
import ProtoSchema.Plugin

/-!
# Running a command

What a run leaves behind: the bytes on its standard output, the files, and the text of what went
wrong. As a plugin the program always prints a response and touches no files.
-/

namespace ProtoSchema

/-- What a run leaves behind. -/
structure Outcome where
  /-- the bytes on the standard output -/
  output : Bytes
  /-- the files after the run -/
  files : FileSystem
  /-- the text of what went wrong -/
  failure : Option String

/-- Run `convert`. -/
def runConvert (settings : ConvertSettings) (o : Options) (fs : FileSystem) : Outcome :=
  match settings.delivery o fs with
  | .error e => ⟨[], fs, some e.message⟩
  | .ok delivery =>
    let (files, failed) := applyChanges fs delivery.changes
    ⟨delivery.printed.toUTF8.data.toList, files, failed.map fun change => change.failure.message⟩

/-- Run as a plugin. -/
def runPlugin (o : Options) (input : Input) (fs : FileSystem) : Outcome :=
  let served := serve o input
  ⟨served.response.encode, fs, served.failure⟩

/-- Carry out what the arguments asked for. -/
def Invocation.run (i : Invocation) (fs : FileSystem) (input : Input) : Outcome :=
  match i.command with
  | .plugin => runPlugin i.options input fs
  | .convert settings => runConvert settings i.options fs

end ProtoSchema
