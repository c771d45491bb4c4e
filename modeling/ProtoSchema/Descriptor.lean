/-!
# Descriptors

What the compiler of protocol buffers says about the types of a file: messages with their fields,
nested messages and enums, enums with their values, and files with a package. Only what a schema
can depend on is kept. Text that a descriptor leaves out is the empty text, a number that it leaves
out is zero.

Two messages that look alike are still two messages. A `Declaration` is a message together with
the place where it is written, and declarations are what names resolve to and what a conversion
keeps track of.
-/

namespace ProtoSchema

/-! ## Fields, enums, messages, files -/

/-- How often a field may occur. -/
inductive Label where
  /-- at most once -/
  | optional
  /-- exactly once -/
  | required
  /-- any number of times -/
  | repeated
  deriving DecidableEq, Repr

/-- The label with that number; a field without a known label is optional. -/
def Label.ofNumber : Int → Label
  | 2 => .required
  | 3 => .repeated
  | _ => .optional

/-- A field of a message. -/
structure Field where
  /-- the declared name -/
  name : String := ""
  /-- the name in JSON, empty when it is to be derived from the declared name -/
  jsonName : String := ""
  /-- how often the field may occur -/
  label : Label := .optional
  /-- the number of the declared type, which need not be the number of any type -/
  typeNumber : Int := 0
  /-- the name of the message or enum that the field holds -/
  typeName : String := ""
  deriving DecidableEq, Repr, Inhabited

/-- A value of an enum. -/
structure EnumValue where
  /-- the name of the value -/
  name : String := ""
  /-- the number of the value -/
  number : Int := 0
  deriving DecidableEq, Repr, Inhabited

/-- An enum. -/
structure EnumType where
  /-- the local name -/
  name : String := ""
  /-- the values in declaration order -/
  values : List EnumValue := []
  deriving DecidableEq, Repr, Inhabited

/-- A message. -/
structure Message where
  /-- the local name -/
  name : String := ""
  /-- the fields in declaration order -/
  fields : List Field := []
  /-- the messages declared inside -/
  nested : List Message := []
  /-- the enums declared inside -/
  enums : List EnumType := []
  deriving Repr, Inhabited

mutual

/-- Whether two messages are alike, all that is declared inside them included. -/
def Message.decideEq : (a b : Message) → Decidable (a = b)
  | ⟨name, fields, nested, enums⟩, ⟨name', fields', nested', enums'⟩ =>
    if same : name = name' ∧ fields = fields' ∧ enums = enums' then
      match decideEqMessages nested nested' with
      | isTrue h => isTrue (by rw [same.1, same.2.1, same.2.2, h])
      | isFalse h => isFalse fun he => h (congrArg Message.nested he)
    else
      isFalse fun he => same
        ⟨congrArg Message.name he, congrArg Message.fields he, congrArg Message.enums he⟩

/-- Whether two rows of messages are alike. -/
def decideEqMessages : (as bs : List Message) → Decidable (as = bs)
  | [], [] => isTrue rfl
  | [], _ :: _ => isFalse (by simp)
  | _ :: _, [] => isFalse (by simp)
  | a :: as, b :: bs =>
    match Message.decideEq a b with
    | isTrue h =>
      match decideEqMessages as bs with
      | isTrue hs => isTrue (by rw [h, hs])
      | isFalse hs => isFalse fun he => hs (List.cons.inj he).2
    | isFalse h => isFalse fun he => h (List.cons.inj he).1

end

instance : DecidableEq Message := Message.decideEq

/-- A file. -/
structure File where
  /-- the path under which the file is known -/
  name : String := ""
  /-- the dotted package that the file's types belong to -/
  package : String := ""
  /-- the top-level messages in declaration order -/
  messages : List Message := []
  /-- the top-level enums in declaration order -/
  enums : List EnumType := []
  deriving DecidableEq, Repr, Inhabited

/-! ## Declarations -/

/-- Where something is written: the index of what holds it, and so on inwards. -/
abbrev Position := List Nat

/-- A message at the place where it is written. -/
structure Declaration where
  /-- the place -/
  position : Position
  /-- the message -/
  message : Message
  deriving DecidableEq, Repr, Inhabited

/-- The messages at successive places inside one place. -/
def declarationsAt (position : Position) (messages : List Message) : List Declaration :=
  messages.zipIdx.map fun (m, i) => ⟨position ++ [i], m⟩

theorem map_message_declarationsAt (position : Position) (messages : List Message) :
    (declarationsAt position messages).map (·.message) = messages := by
  rw [declarationsAt, List.map_map]
  exact List.zipIdx_map_fst 0 messages

/-- The messages declared inside a declared message. -/
def Declaration.nested (d : Declaration) : List Declaration :=
  declarationsAt d.position d.message.nested

/-- The top-level messages of the file that stands at the position. -/
def File.declarations (position : Position) (file : File) : List Declaration :=
  declarationsAt position file.messages

mutual

/-- A message at its place, and all that is declared inside it at any depth. -/
def Message.declarations (position : Position) : Message → List Declaration
  | ⟨name, fields, nested, enums⟩ =>
    ⟨position, ⟨name, fields, nested, enums⟩⟩ :: nestedDeclarations position 0 nested

/-- Messages at successive places, and all that is declared inside them at any depth. -/
def nestedDeclarations (position : Position) (i : Nat) : List Message → List Declaration
  | [] => []
  | m :: ms => m.declarations (position ++ [i]) ++ nestedDeclarations position (i + 1) ms

end

/-- A declaration, and all that is declared inside it at any depth. -/
def Declaration.all (d : Declaration) : List Declaration :=
  d.message.declarations d.position

theorem Declaration.all_eq (d : Declaration) :
    d.all = d :: nestedDeclarations d.position 0 d.message.nested := by
  obtain ⟨position, ⟨name, fields, nested, enums⟩⟩ := d
  simp [Declaration.all, Message.declarations]

theorem Declaration.mem_all_self (d : Declaration) : d ∈ d.all := by
  rw [d.all_eq]
  exact List.mem_cons_self

theorem mem_nestedDeclarations {position : Position} {ms : List Message} {i j : Nat} {m : Message}
    (h : (m, j) ∈ ms.zipIdx i) {e : Declaration}
    (he : e ∈ m.declarations (position ++ [j])) : e ∈ nestedDeclarations position i ms := by
  induction ms generalizing i with
  | nil => simp at h
  | cons m' ms ih =>
    simp only [nestedDeclarations, List.mem_append]
    rw [List.zipIdx_cons, List.mem_cons] at h
    rcases h with h | h
    · injection h with hm hj
      subst hm
      subst hj
      exact Or.inl he
    · exact Or.inr (ih h)

/-- What is declared directly inside a message is among what is declared inside it. -/
theorem nestedDeclarations_self {d e : Declaration} (h : e ∈ d.nested) :
    e ∈ nestedDeclarations d.position 0 d.message.nested := by
  obtain ⟨⟨m, j⟩, hmem, rfl⟩ := List.mem_map.mp h
  exact mem_nestedDeclarations hmem (Declaration.mem_all_self ⟨d.position ++ [j], m⟩)

mutual

theorem nested_mem_of_mem_declarations {d e : Declaration} (he : e ∈ d.nested) :
    ∀ {position : Position} (m : Message), d ∈ m.declarations position →
      e ∈ m.declarations position
  | position, ⟨name, fields, nested, enums⟩, hd => by
    simp only [Message.declarations, List.mem_cons] at hd ⊢
    rcases hd with hd | hd
    · subst hd
      exact Or.inr (nestedDeclarations_self he)
    · exact Or.inr (nested_mem_of_mem_nestedDeclarations he nested hd)

theorem nested_mem_of_mem_nestedDeclarations {d e : Declaration} (he : e ∈ d.nested) :
    ∀ {position : Position} {i : Nat} (ms : List Message),
      d ∈ nestedDeclarations position i ms → e ∈ nestedDeclarations position i ms
  | _, _, [], hd => by simp [nestedDeclarations] at hd
  | _, _, m :: ms, hd => by
    simp only [nestedDeclarations, List.mem_append] at hd ⊢
    rcases hd with hd | hd
    · exact Or.inl (nested_mem_of_mem_declarations he m hd)
    · exact Or.inr (nested_mem_of_mem_nestedDeclarations he ms hd)

end

/-- The declarations inside a declaration are closed under going inwards. -/
theorem Declaration.mem_all_of_nested {d e f : Declaration} (he : e ∈ d.all) (hf : f ∈ e.nested) :
    f ∈ d.all :=
  nested_mem_of_mem_declarations hf d.message he

end ProtoSchema
