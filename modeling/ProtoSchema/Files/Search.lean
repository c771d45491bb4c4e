import ProtoSchema.Files.Pattern
import ProtoSchema.Files.Tree

/-!
# Finding files by a pattern

A pattern is followed part by part, from the root when it is absolute and else from where the
program is run. A name is looked for; a part with wildcards is compared with the entries of the
directory reached, in the order of their names; and `**` goes through everything below it, each
entry before what it holds. The paths found are therefore sorted by name at every level.

A part that starts with a dot can also match the two entries `..` and `.` that every directory
has; they come first. A pattern that ends in a slash finds directories only.
-/

namespace ProtoSchema

/-- Something found: the path to it, its name, and whether it is a directory. -/
structure FoundPath where
  /-- the path -/
  path : String
  /-- the last name of the path -/
  name : String
  /-- whether it is a directory -/
  isDirectory : Bool
  deriving DecidableEq, Repr

/-- Whether a path stays where the program is run. -/
def isHere (path : String) : Bool :=
  path.startsWith "." && (pathParts path).all fun part => part = "" || part = "."

/-- The path of an entry; entries of the place where the program is run are called by their name
alone. -/
def entryPath (directory name : String) : String :=
  if isHere directory then name else joinPath directory name

mutual

/-- Everything below a file or directory, each entry before what it holds. -/
def entriesBelow (path : String) : FileTree → List FoundPath
  | .file _ => []
  | .directory entries => entriesOf path entries

/-- These entries and everything below them. -/
def entriesOf (path : String) : List (String × FileTree) → List FoundPath
  | [] => []
  | (name, child) :: rest =>
    ⟨entryPath path name, name, child.isDirectory⟩ ::
      (entriesBelow (entryPath path name) child ++ entriesOf path rest)

end

namespace FileSystem

/-- What stands at a path, as something found. -/
def foundAt (fs : FileSystem) (path name : String) : FoundPath :=
  ⟨path, name, ((fs.find? path).map FileTree.isDirectory).getD false⟩

/-- The entries of a directory. -/
def childrenOf (fs : FileSystem) (f : FoundPath) : List FoundPath :=
  ((fs.find? f.path).map FileTree.entries).getD [] |>.map fun (name, child) =>
    ⟨entryPath f.path name, name, child.isDirectory⟩

/-- The entries `..` and `.` of a directory, as far as the tokens start with a dot and match. -/
def dotEntries (fs : FileSystem) (tokens : List GlobToken) (f : FoundPath) : List FoundPath :=
  if tokens.head? = some (.char '.') then
    (["..", "."].filter fun s => matchesName tokens s.toList).map fun s =>
      fs.foundAt (joinPath f.path s) s
  else []

/-- The entry of that name; `.` and `..` are in every directory. -/
def entryNamed (fs : FileSystem) (s : String) (f : FoundPath) : Option FoundPath :=
  let next := fs.foundAt (entryPath f.path s) s
  if s = "." ∨ s = ".." then if f.isDirectory then some next else none
  else if (fs.find? next.path).isSome then some next else none

/-- Everything below something found. -/
def below (fs : FileSystem) (f : FoundPath) : List FoundPath :=
  ((fs.find? f.path).map (entriesBelow f.path)).getD []

/-- What the parts of a pattern lead to from something found. -/
def search (fs : FileSystem) : List GlobPart → FoundPath → List FoundPath
  | [], f => [f]
  | .name s :: rest, f =>
    match fs.entryNamed s f with
    | some next => fs.search rest next
    | none => []
  | .wild tokens :: rest, f =>
    if f.isDirectory then
      (fs.dotEntries tokens f ++
        (fs.childrenOf f).filter fun e => matchesName tokens e.name.toList).flatMap (fs.search rest)
    else []
  -- at the end it stands for directories only
  | [.anyDirectories], f => (fs.below f).filter (·.isDirectory)
  | .anyDirectories :: .anyDirectories :: rest, f => fs.search (.anyDirectories :: rest) f
  | .anyDirectories :: part :: rest, f =>
    ((fs.below f).filter fun e => part.fits e.name).flatMap (fs.search rest)

/-- The paths that a pattern leads to. -/
def glob (fs : FileSystem) (pattern : String) : Except PatternError (List String) := do
  let _ ← globTokens 0 true pattern.toList
  let absolute := pattern.startsWith "/"
  let cut := pieces '/' (if absolute then pattern.toList.drop 1 else pattern.toList)
  let cut := if cut.getLast? = some [] then cut.dropLast else cut
  let parts ← cut.mapM fun part => (globTokens 0 true part).map GlobPart.ofTokens
  let start := if absolute then "/" else "."
  let found := fs.search parts (fs.foundAt start start)
  return (found.filter fun f => !pattern.endsWith "/" || f.isDirectory).map (·.path)

end FileSystem

end ProtoSchema
