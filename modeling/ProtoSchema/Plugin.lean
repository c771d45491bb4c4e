import ProtoSchema.Session
import ProtoSchema.Wire.Request
import ProtoSchema.Wire.Response

/-!
# Answering requests

A request is read to its end and decoded, its parameter is added to the options given beforehand,
and the documents of its targets, or the text of what went wrong, are the response. Every input
gets a response, also one that is no request; only then is the failure reported to the caller.
-/

namespace ProtoSchema

/-! ## Failures -/

/-- What can go wrong around a request. -/
inductive PluginError where
  /-- the input broke off -/
  | read (cause : String)
  /-- the input is no request, for the reason that the decoder gives -/
  | decode (cause : String)
  /-- the output broke off -/
  | write (cause : String)
  deriving DecidableEq, Repr

/-- The text of a failure around a request. -/
def PluginError.message : PluginError → String
  | .read cause => "failed to read request: " ++ cause
  | .decode cause => "can't unmarshal input: " ++ cause
  | .write cause => "failed to write response: " ++ cause

/-- The texts of the failures inside a failure around a request. -/
def PluginError.causes : PluginError → List String
  | .read cause => [cause]
  | .decode cause => [cause]
  | .write cause => [cause]

/-! ## Input and output -/

/-- What an input yields: its bytes, why it broke off behind them if it did, and what the decoder
says of them if they are no request. The last two are told in words of the system and of the
decoder, and are passed on as they are. -/
structure Input where
  /-- the bytes -/
  bytes : Bytes
  /-- why the input broke off -/
  broken : Option String := none
  /-- what is wrong with bytes that are no request -/
  complaint : String := ""

/-- The request that an input holds. -/
def readRequest (input : Input) : Except PluginError Request :=
  match input.broken with
  | some cause => .error (.read cause)
  | none =>
    match Request.decode? input.bytes with
    | some request => .ok request
    | none => .error (.decode input.complaint)

/-- What an output takes: everything, or so many bytes until it breaks off. -/
inductive Output where
  /-- takes all bytes -/
  | unlimited
  /-- takes so many bytes, and then breaks off for that cause -/
  | limited (room : Nat) (cause : String)

/-- The bytes of a response, once they are all written. -/
def writeResponse (output : Output) (response : Response) : Except PluginError Bytes :=
  match output with
  | .unlimited => .ok response.encode
  | .limited room cause =>
    if response.encode.length ≤ room then .ok response.encode else .error (.write cause)

/-! ## Responses -/

/-- The options of a run: those given beforehand and those that the request asks for. -/
def Request.options (r : Request) (given : Options) : Options :=
  given.apply r.parameter

/-- The file to write for a document. -/
def Document.toResponseFile (d : Document) : ResponseFile := ⟨d.name, d.content⟩

/-- The response to a request under these options, with the events of the conversion. -/
def Request.answer (r : Request) (o : Options) : List Event × Response :=
  match o.resolve with
  | .error conflict => ([], .failure conflict.message)
  | .ok policy =>
    let run := (Session.mk r.forest policy).generate r.targets
    match run.result with
    | .ok documents => (run.events, { files := documents.map Document.toResponseFile })
    | .error e => (run.events ++ [.requestFailed e], .failure e.message)

/-- The response to a request under these options. -/
def Request.respond (r : Request) (o : Options) : Response := (r.answer o).2

/-- The events of a request, from reading its parameter on. -/
def Request.events (r : Request) (given : Options) : List Event :=
  (unknownEntries r.parameter).map .unknownParameter ++ (r.answer (r.options given)).1

/-! ## Serving -/

/-- A request served: the response, and the failure that the caller is told. -/
structure Served where
  /-- the response, which is always written -/
  response : Response
  /-- the text of the failure -/
  failure : Option String

/-- Serve the request of an input. -/
def serve (given : Options) (input : Input) : Served :=
  match readRequest input with
  | .error e => ⟨.failure ("Failed to read input: " ++ e.message), some e.message⟩
  | .ok request =>
    let response := request.respond (request.options given)
    ⟨response, response.error⟩

end ProtoSchema
