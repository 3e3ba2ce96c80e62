import SecretsVault.Crypto

/-!
# The file system under the authorized folders

A `FileSystem` is a tree with symbolic links, given by the node at every absolute list of names. `canonicalize` follows
links the way `realpath` does; `walkBeneath` is `openat2` with `RESOLVE_BENEATH | RESOLVE_NO_SYMLINKS |
RESOLVE_NO_MAGICLINKS`, which follows none. Paths are strings, taken apart by `pathComponents`.
-/

namespace SecretsVault

open Lib

abbrev Path := String

/-- What a directory entry is. -/
inductive Node where
  | file (content : Bytes)
  | dir
  | symlink (target : Path)
  | special

/-- A file system with the working directory of the process. The root directory is at the empty list. -/
structure FileSystem where
  node : List String → Option Node
  cwd : List String

def hasNul (s : String) : Bool := s.toList.contains '\x00'

/-- The parts of a path between separators. -/
def splitPath (p : Path) : List String := (p.toList.splitOn '/').map String.ofList

/-- A path that starts at the root. -/
def isAbsolute (p : Path) : Bool := p.toList.head? == some '/'

/-- A part that stands for no component. -/
def isVoidPart (part : String) : Bool := part = "" || part = "."

/-- A component of a path. -/
inductive PathComponent where
  | rootDir
  | curDir
  | parentDir
  | normal (name : String)
  deriving DecidableEq, Repr

/-- The component a part stands for; empty parts and `.` stand for none. -/
def PathComponent.ofPart (part : String) : Option PathComponent :=
  if part = "" ∨ part = "." then none else if part = ".." then some .parentDir else some (.normal part)

/-- The name of a plain component. -/
def PathComponent.name? : PathComponent → Option String
  | .normal name => some name
  | _ => none

/-- The components of a path; `.` counts only at the start of a relative path. -/
def pathComponents (p : Path) : List PathComponent :=
  let parts := splitPath p
  let rest := parts.filterMap PathComponent.ofPart
  if isAbsolute p then .rootDir :: rest else if parts.head? = some "." then .curDir :: rest else rest

/-- Paths are compared by their components. -/
def samePath (p q : Path) : Bool := pathComponents p = pathComponents q

/-- The absolute path of a list of names. -/
def absolutePath (names : List String) : Path := if names = [] then "/" else String.join (names.map ("/" ++ ·))

/-- A path relative to a folder. -/
def joinPath (folder relative : Path) : Path :=
  if isAbsolute relative then relative else if folder.toList.getLast? = some '/' then folder ++ relative
  else folder ++ "/" ++ relative

namespace FileSystem

/-- Replace the node at `p`; `none` removes it. -/
def set (fs : FileSystem) (p : List String) (n : Option Node) : FileSystem :=
  { fs with node := fun q => if q = p then n else fs.node q }

@[simp] theorem set_node (fs : FileSystem) (p q : List String) (n : Option Node) :
    (fs.set p n).node q = if q = p then n else fs.node q := rfl

def isDir (fs : FileSystem) (p : List String) : Bool :=
  match fs.node p with
  | some .dir => true
  | _ => p.isEmpty

/-- `MAXSYMLINKS`: how many links a resolution may follow. -/
def maxSymlinks : Nat := 40

/-- Resolve parts from a directory, following at most `links` symbolic links. -/
def resolve (fs : FileSystem) (links : Nat) (base : List String) (parts : List String) : Option (List String) :=
  match parts with
  | [] => some base
  | part :: rest =>
    if part = "" ∨ part = "." then fs.resolve links base rest
    else if part = ".." then fs.resolve links base.dropLast rest
    else if hasNul part then none
    else match fs.node (base ++ [part]) with
      | none => none
      | some (.symlink target) =>
        match links with
        | 0 => none
        | links + 1 =>
          fs.resolve links (if isAbsolute target then [] else base) (splitPath target ++ rest)
      | some .dir => fs.resolve links (base ++ [part]) rest
      | some _ => if rest = [] then some (base ++ [part]) else none
  termination_by (links, parts.length)

/-- The names of the canonical, link-free form of a path; `none` where it does not exist. -/
def canonicalize (fs : FileSystem) (p : Path) : Option (List String) :=
  fs.resolve maxSymlinks [] (splitPath (joinPath (absolutePath fs.cwd) p))

end FileSystem

/-! ## Errno values -/

def ENOENT : Nat := 2
def EIO : Nat := 5
def ENOMEM : Nat := 12
def EEXIST : Nat := 17
def EXDEV : Nat := 18
def ENOTDIR : Nat := 20
def ENFILE : Nat := 23
def EMFILE : Nat := 24
def ENOSYS : Nat := 38
def ELOOP : Nat := 40

/-- Walk parts beneath `root` without following any link, ending at a directory. -/
def FileSystem.walkBeneath (fs : FileSystem) (root below : List String) : List String → Except Nat (List String)
  | [] => .ok (root ++ below)
  | part :: rest =>
    if part = "" ∨ part = "." then fs.walkBeneath root below rest
    else if part = ".." then
      if below = [] then .error EXDEV else fs.walkBeneath root below.dropLast rest
    else match fs.node (root ++ below ++ [part]) with
      | none => .error ENOENT
      | some (.symlink _) => .error ELOOP
      | some .dir => fs.walkBeneath root (below ++ [part]) rest
      | some _ => .error ENOTDIR

end SecretsVault
