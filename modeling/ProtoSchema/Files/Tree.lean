import ProtoSchema.Table
import ProtoSchema.Text.Pieces
import ProtoSchema.Wire.Varint

/-!
# Files and directories

A file system is a tree of directories with the place in it where a program is run. A path is
followed part by part: an empty part or a single dot stays, two dots go up, and any other part goes
into the directory reached, which therefore has to be one. The last part need not be there yet, so
that a path can also say where a file is to be written.

The entries of a directory are in ascending order of their names. What is written is read again,
and nothing else changes (`at?_place_self`, `at?_place_of_ne`).
-/

namespace ProtoSchema

/-! ## Trees -/

/-- A file or a directory. -/
inductive FileTree where
  /-- a file with its bytes -/
  | file (content : Bytes)
  /-- a directory with its entries, in ascending order of their names -/
  | directory (entries : List (String × FileTree))
  deriving Inhabited, Repr

/-- Names from the top of a tree down to something in it. -/
abbrev Spot := List String

namespace FileTree

/-- Whether this is a directory. -/
def isDirectory : FileTree → Bool
  | directory _ => true
  | file _ => false

/-- The entries of a directory; a file has none. -/
def entries : FileTree → List (String × FileTree)
  | directory es => es
  | file _ => []

@[simp] theorem entries_directory (es : List (String × FileTree)) :
    (directory es).entries = es := rfl

/-- What is there at a spot. -/
def at? : FileTree → Spot → Option FileTree
  | t, [] => some t
  | t, name :: rest =>
    match t.entries.lookup name with
    | some child => child.at? rest
    | none => none

/-- The tree with something put at a spot; the directories on the way are made when they are not
there, and a file on the way becomes one. -/
def place (new : FileTree) : Spot → FileTree → FileTree
  | [], _ => new
  | name :: rest, t =>
    directory (insertSorted name (place new rest ((t.entries.lookup name).getD (directory [])))
      t.entries)

/-- What was put at a spot is there. -/
theorem at?_place_self (new : FileTree) (spot : Spot) (t : FileTree) :
    (place new spot t).at? spot = some new := by
  induction spot generalizing t with
  | nil => simp [place, at?]
  | cons name rest ih => simp [place, at?, lookup_insertSorted, ih]

/-- Beside the spot, in the same directory, nothing changes. -/
theorem at?_place_of_ne (new : FileTree) (above : Spot) {name other : String} (h : other ≠ name)
    (t : FileTree) {d : FileTree} (hd : t.at? above = some d) :
    (place new (above ++ [name]) t).at? (above ++ [other]) = t.at? (above ++ [other]) := by
  induction above generalizing t with
  | nil => simp [place, at?, lookup_insertSorted, h]
  | cons head rest ih =>
    simp only [at?] at hd
    cases hc : t.entries.lookup head with
    | none => simp [hc] at hd
    | some child =>
      simp only [hc] at hd
      simp only [List.cons_append, place, at?, entries_directory, lookup_insertSorted, if_true, hc,
        Option.getD_some]
      exact ih child hd

end FileTree

/-! ## File systems -/

/-- A tree, and the directory in it where the program is run. -/
structure FileSystem where
  /-- the tree -/
  root : FileTree
  /-- the directory where the program is run -/
  here : Spot
  deriving Inhabited, Repr

/-- Whether a name is short enough and of characters that a file may have. -/
def nameFits (name : String) : Bool :=
  name.utf8ByteSize ≤ 255 && !name.toList.contains '\x00'

/-- The parts of a path. -/
def pathParts (path : String) : List String :=
  (pieces '/' path.toList).map String.ofList

/-- Go on by one part of a path. -/
def stepPath (spot : Spot) (part : String) : Spot :=
  if part = "" ∨ part = "." then spot
  else if part = ".." then spot.dropLast
  else spot ++ [part]

/-- A path behind a directory; an absolute path stands by itself. -/
def joinPath (directory name : String) : String :=
  if name.startsWith "/" || directory = "" then name
  else if directory.endsWith "/" then directory ++ name
  else directory ++ "/" ++ name

/-- Paths are shorter than this many bytes. -/
def maxPathSize : Nat := 4096

/-- The path with the parts joined behind the path so far, and every path on the way to it. -/
def pathsAlong (path : String) : List String → List String
  | [] => []
  | part :: rest => joinPath path part :: pathsAlong (joinPath path part) rest

/-- The directories that have to be there for a path to be one, the outermost first and the path
itself last. A path that ends in a single dot names a directory that is there already, so that its
last name is not on the way: `a/b/.` needs `a`, and then itself. -/
def directoryChain (path : String) : List String :=
  let start := if path.startsWith "/" then "/" else ""
  let parts := pathParts path
  let names := parts.filter fun part => part ≠ "" ∧ part ≠ "."
  if (parts.filter (· ≠ "")).getLast? = some "." then pathsAlong start names.dropLast ++ [path]
  else pathsAlong start names

namespace FileSystem

/-- Follow the parts of a path; all but the last have to lead into directories. -/
def walk (fs : FileSystem) (spot : Spot) : List String → Option Spot
  | [] => some spot
  | part :: rest =>
    match fs.root.at? spot with
    | some (.directory _) =>
      if nameFits part then fs.walk (stepPath spot part) rest else none
    | _ => none

/-- The spot that a path leads to. The empty path leads nowhere, and a path has an end. -/
def locate (fs : FileSystem) (path : String) : Option Spot :=
  if path = "" ∨ maxPathSize ≤ path.utf8ByteSize then none
  else if path.startsWith "/" then fs.walk [] (pathParts path)
  else fs.walk fs.here (pathParts path)

/-- What a path leads to. -/
def find? (fs : FileSystem) (path : String) : Option FileTree :=
  (fs.locate path).bind fs.root.at?

/-- The bytes of a file. -/
def read? (fs : FileSystem) (path : String) : Option Bytes :=
  match fs.find? path with
  | some (.file content) => some content
  | _ => none

/-- Write a file, in place of another one if there is one; its directory has to be there. -/
def write? (fs : FileSystem) (path : String) (content : Bytes) : Option FileSystem :=
  match fs.locate path with
  | none => none
  | some spot =>
    match fs.root.at? spot with
    | some (.directory _) => none
    | _ => some { fs with root := .place (.file content) spot fs.root }

/-- Make a directory in a directory that is there; one that is there already stays. -/
def makeDirectory (fs : FileSystem) (path : String) : Option FileSystem :=
  match fs.find? path with
  | some (.directory _) => some fs
  | some (.file _) => none
  | none =>
    (fs.locate path).map fun spot => { fs with root := .place (.directory []) spot fs.root }

/-- Make a directory with the directories around it, as far as they are not there yet. -/
def makeDirectories (fs : FileSystem) (path : String) : Option FileSystem :=
  if maxPathSize ≤ path.utf8ByteSize then none
  else (directoryChain path).foldlM makeDirectory fs

end FileSystem

end ProtoSchema
