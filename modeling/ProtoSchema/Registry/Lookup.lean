import ProtoSchema.Registry
import ProtoSchema.Failure

/-!
# Resolving names

A package name is followed from a node down through the children. The name of a message type is
read part by part: as long as a part names a child package the search goes there, and only the
first part that names none may name a message, inside which the remaining parts go on. There is no
going back: a child package hides a message of its name.

A name with a leading dot is resolved from the root. Any other name is resolved from the package
where it is used, and failing that from the packages around it, the nearest first.

Whatever is found was registered, or is declared inside something registered
(`mem_declarations_of_lookupType`).
-/

namespace ProtoSchema

/-! ## Packages -/

namespace Registry

/-- Follow the segments down from a node. -/
def descend (r : Registry) (id : PackageId) : List String → Except LookupError PackageId
  | [] => .ok id
  | segment :: rest =>
    match r.child? id segment with
    | some child => r.descend child rest
    | none => .error (.noSuchPackage (r.childName id segment))

/-- The package of that name as seen from a node. -/
def lookupPackageFrom (r : Registry) (id : PackageId) (path : String) :
    Except LookupError PackageId :=
  r.descend id (segments path)

/-- The package of that name; the empty name is the root's. -/
def lookupPackage (r : Registry) (path : String) : Except LookupError PackageId :=
  r.lookupPackageFrom root path

end Registry

/-! ## Messages -/

/-- Follow the parts of a name through the messages declared inside a message; of two nested
messages of one name the first is meant. -/
def Declaration.member (d : Declaration) : List String → Except LookupError Declaration
  | [] => .ok d
  | part :: rest =>
    match d.nested.find? (·.message.name = part) with
    | some e => e.member rest
    | none => .error (.noSuchNestedMessage part d.message.name)

namespace Registry

/-- Resolve the parts of a name from a node. -/
def resolve (r : Registry) (id : PackageId) : List String → Except LookupError Declaration
  | [] => .error .emptyName
  | [part] =>
    if part = "" then .error .emptyName
    else
      match r.type? id part with
      | some d => .ok d
      | none => .error (.notFound part (r.node id).name)
  | part :: next :: rest =>
    match r.child? id part with
    | some child => r.resolve child (next :: rest)
    | none =>
      match r.type? id part with
      | some d => d.member (next :: rest)
      | none => .error (.noSuchPackageOrMessage part (r.node id).name)

/-- The message type of that name as seen from a node, without looking outwards. -/
def lookupTypeFrom (r : Registry) (id : PackageId) (name : String) :
    Except LookupError Declaration :=
  r.resolve id (components name)

/-- A node and the nodes around it, the nearest first. -/
def outwards (r : Registry) (id : PackageId) : List PackageId :=
  match (r.node id).parent with
  -- every node is newer than its parent
  | some parent => if parent < id then id :: r.outwards parent else [id]
  | none => [id]
termination_by id

/-- The message type of that name as seen from a package. -/
def lookupType (r : Registry) (context : PackageId) (name : String) :
    Except LookupError Declaration :=
  match components name with
  -- a leading dot leaves an empty first part
  | "" :: part :: rest => r.resolve root (part :: rest)
  | parts =>
    match (r.outwards context).findSome? fun id => (r.resolve id parts).toOption with
    | some d => .ok d
    | none => .error (.notFound name (r.node context).name)

/-! ## What is found is registered -/

theorem mem_declarations_of_member {r : Registry} {d e : Declaration} {parts : List String}
    (hd : d ∈ r.declarations) (h : d.member parts = .ok e) : e ∈ r.declarations := by
  induction parts generalizing d with
  | nil =>
    simp only [Declaration.member, Except.ok.injEq] at h
    exact h ▸ hd
  | cons part rest ih =>
    unfold Declaration.member at h
    split at h
    · next found hfound =>
      exact ih (mem_declarations_of_nested hd (List.mem_of_find?_eq_some hfound)) h
    · simp at h

theorem mem_declarations_of_resolve {r : Registry} {id : PackageId} {parts : List String}
    {d : Declaration} (h : r.resolve id parts = .ok d) : d ∈ r.declarations := by
  fun_induction r.resolve id parts with
  | case1 => simp at h
  | case2 => simp at h
  | case3 id part hne found hfound =>
    simp only [Except.ok.injEq] at h
    exact h ▸ mem_declarations_of_type? hfound
  | case4 => simp at h
  | case5 id part next rest child hchild ih => exact ih h
  | case6 id part next rest hchild found hfound =>
    exact mem_declarations_of_member (mem_declarations_of_type? hfound) h
  | case7 => simp at h

/-- A name resolves to a registered message or to one declared inside a registered message. -/
theorem mem_declarations_of_lookupType {r : Registry} {context : PackageId} {name : String}
    {d : Declaration} (h : r.lookupType context name = .ok d) : d ∈ r.declarations := by
  unfold lookupType at h
  split at h
  · exact mem_declarations_of_resolve h
  · split at h
    · next found hfound =>
      simp only [Except.ok.injEq] at h
      subst h
      obtain ⟨id, _, hid⟩ := List.exists_of_findSome?_eq_some hfound
      have hresolve : r.resolve id (components name) = .ok found := by
        cases hr : r.resolve id (components name) with
        | error e => simp [hr, Except.toOption] at hid
        | ok e => simpa [hr, Except.toOption] using hid
      exact mem_declarations_of_resolve hresolve
    · simp at h

end Registry

end ProtoSchema
