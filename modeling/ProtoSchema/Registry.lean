import ProtoSchema.Descriptor
import ProtoSchema.Table
import ProtoSchema.Text.Pieces

/-!
# The tree of packages

Registering a message under a dotted package makes a node for each segment of the package that has
none yet, and puts the message into the last node under its local name. A node is known by a
number: the root is the first, and every other node is newer than its parent. Nodes are never
taken away, and a message type only when another of the same name is registered in its place.
-/

namespace ProtoSchema

/-! ## Nodes -/

/-- The number of a package node. -/
abbrev PackageId := Nat

/-- A package, with its child packages and its message types, both in the order of their first
registration. -/
structure PackageNode where
  /-- the full dotted name, empty for the root -/
  name : String := ""
  /-- the package around this one -/
  parent : Option PackageId := none
  /-- the packages inside, by segment -/
  children : List (String × PackageId) := []
  /-- the message types, by local name -/
  types : List (String × Declaration) := []
  deriving Repr, Inhabited

/-- All packages that messages were registered under. -/
structure Registry where
  /-- the nodes, the root first -/
  nodes : Array PackageNode
  deriving Repr, Inhabited

namespace Registry

/-- The package that holds all others. -/
def root : PackageId := 0

/-- The registry without messages: the root alone. -/
def empty : Registry := ⟨#[{}]⟩

/-- The node with that number; a number that is not given out has a node without anything. -/
def node (r : Registry) (id : PackageId) : PackageNode := r.nodes.getD id {}

/-- The child package for a segment. -/
def child? (r : Registry) (id : PackageId) (segment : String) : Option PackageId :=
  (r.node id).children.lookup segment

/-- The message type of that local name. -/
def type? (r : Registry) (id : PackageId) (name : String) : Option Declaration :=
  (r.node id).types.lookup name

/-! ## Registration -/

/-- The full name of the child for a segment. -/
def childName (r : Registry) (id : PackageId) (segment : String) : String :=
  (r.node id).name ++ "." ++ segment

/-- Go to the child for a segment, making it first when it is not there. -/
def enter (r : Registry) (id : PackageId) (segment : String) : Registry × PackageId :=
  match r.child? id segment with
  | some child => (r, child)
  | none =>
    let child := r.nodes.size
    let node : PackageNode := { name := r.childName id segment, parent := some id }
    let extended := r.nodes.modify id fun n => { n with children := put segment child n.children }
    (⟨extended.push node⟩, child)

/-- Go down along the segments, making the nodes that are not there. -/
def enterAll (r : Registry) (id : PackageId) (segments : List String) : Registry × PackageId :=
  segments.foldl (fun (r, id) segment => r.enter id segment) (r, id)

/-- Put a message type into a node under its local name. -/
def addType (r : Registry) (id : PackageId) (d : Declaration) : Registry :=
  ⟨r.nodes.modify id fun n => { n with types := put d.message.name d n.types }⟩

/-- Register a message under a package; the package's number comes with the registry. -/
def register (r : Registry) (package : String) (d : Declaration) : Registry × PackageId :=
  let (r, id) := r.enterAll root (segments package)
  (r.addType id d, id)

/-- Register messages one after the other, each under its package. -/
def registerAll (r : Registry) (messages : List (String × Declaration)) : Registry :=
  messages.foldl (fun r (package, d) => (r.register package d).1) r

/-! ## What is registered -/

/-- All messages that are registered, and all that are declared inside them. -/
def declarations (r : Registry) : List Declaration :=
  r.nodes.toList.flatMap fun n => n.types.flatMap fun (_, d) => d.all

/-- A message type of a node is registered. -/
theorem mem_declarations_of_type? {r : Registry} {id : PackageId} {name : String}
    {d : Declaration} (h : r.type? id name = some d) : d ∈ r.declarations := by
  have hmem := mem_of_lookup h
  unfold declarations
  rw [List.mem_flatMap]
  by_cases hid : id < r.nodes.size
  · refine ⟨r.nodes[id], Array.mem_toList_iff.mpr (Array.getElem_mem hid), ?_⟩
    have hnode : r.node id = r.nodes[id] := by simp [node, hid]
    rw [hnode] at hmem
    exact List.mem_flatMap.mpr ⟨(name, d), hmem, d.mem_all_self⟩
  · have hnode : r.node id = {} := by simp [node, hid]
    rw [hnode] at hmem
    simp at hmem

/-- What is declared directly inside a registered message counts as registered. -/
theorem mem_declarations_of_nested {r : Registry} {d e : Declaration} (hd : d ∈ r.declarations)
    (he : e ∈ d.nested) : e ∈ r.declarations := by
  unfold declarations at hd ⊢
  rw [List.mem_flatMap] at hd ⊢
  obtain ⟨n, hn, hd⟩ := hd
  refine ⟨n, hn, ?_⟩
  rw [List.mem_flatMap] at hd ⊢
  obtain ⟨entry, hentry, hd⟩ := hd
  exact ⟨entry, hentry, Declaration.mem_all_of_nested hd he⟩

end Registry

end ProtoSchema
