import SecretsVault.Model

/-!
# Contained file-system access

How a file is published under an authorized folder: the folder is opened without following links, the destination is
resolved beneath it, and a temporary file is renamed over it. A descriptor is the list of names of the directory it
pins. A call to the kernel that opens, creates, writes, syncs or renames may fail with an error of its own; a look at a
file and the removal of a temporary file do not fail.
-/

namespace SecretsVault

open Lib

/-- A destination: the pinned parent directory and a plain file name. -/
structure ContainedTarget where
  parent : List String
  fileName : String
  displayPath : Path
  deriving DecidableEq, Repr

namespace ContainedTarget

/-- Where the file is published. -/
def dest (target : ContainedTarget) : List String := target.parent ++ [target.fileName]

/-- A temporary file beside it. -/
def temp (target : ContainedTarget) (suffix : FixedBytes 8) : List String :=
  target.parent ++ ["." ++ target.fileName ++ ".tmp." ++ hex suffix.1]

end ContainedTarget

/-- A destination that a file may be published at: a regular file, or nothing. -/
def FileSystem.replaceable (fs : FileSystem) (dest : List String) : Bool :=
  match fs.node dest with
  | none => true
  | some (.file _) => true
  | some _ => false

/-- Failures that are never relabelled as a denial. -/
def isOperationalError : VaultError → Bool
  | .protocol _ => true
  | .io (some errno) _ => errno == EMFILE || errno == ENFILE || errno == ENOMEM || errno == EIO
  | _ => false

/-- Validate a relative destination. -/
def validateRelative (relative : String) : Except VaultError Unit :=
  if relative.isEmpty || decide (MAX_PATH_LEN < relative.utf8ByteSize) then
    .error (.invalidInput "invalid destination path length")
  else if relative.toList.contains '\x00' then .error (.invalidInput "path contains NUL")
  else if isAbsolute relative then .error (.invalidInput "destination must be a relative path")
  else if (pathComponents relative).any fun c => match c with
      | .normal _ => false
      | _ => true then
    .error (.invalidInput "destination must be relative with no '..' or '.' components")
  else .ok ()

/-- Resolve a directory beneath `root` in one `openat2`. -/
def openat2Dir (root : List String) (path : String) : Prog VaultError Host (List String) := do
  if path.toList.contains '\x00' then .fail (.invalidInput "path contains NUL")
  else
    Host.syscall
    let h ← .get
    if path.isEmpty then .fail (.io (some ENOENT) "No such file or directory")
    else match h.fs.walkBeneath root [] (splitPath path) with
      | .ok dir => pure dir
      | .error errno => .fail (.io (some errno) "openat2")

/-- The path behind the root of an absolute path. What stands for no component is dropped at both ends. -/
def stripRoot (folder : Path) : String :=
  "/".intercalate (((splitPath folder).dropWhile isVoidPart).reverse.dropWhile isVoidPart).reverse

/-- Open an authorized folder. -/
def openContainmentRoot (folder : Path) : Prog VaultError Host (List String) := do
  if !isAbsolute folder then .fail (.invalidInput "authorized folder must be an absolute path")
  else
    Host.syscall
    let relative := stripRoot folder
    if (splitPath relative).any fun c => c == ".." || c == "." || c == "" then
      .fail (.invalidInput "authorized folder is not a plain relative descendant path")
    else openat2Dir [] relative

/-- Resolve the parent of a destination under the containment root. -/
def resolveTarget (root : List String) (relative : String) (folder : Path) : Prog VaultError Host ContainedTarget := do
  .lift (.ofExcept (validateRelative relative))
  let parts := splitPath relative
  let fileName := parts.getLastD ""
  -- A path without a separator is created in the folder itself.
  let parent ← if parts.length ≤ 1 then (do Host.ioCall; pure root)
    else openat2Dir root ("/".intercalate parts.dropLast)
  if fileName = "." ∨ fileName = ".." ∨ fileName = "" then .fail (.invalidInput "invalid destination file name")
  else pure { parent, fileName, displayPath := joinPath folder relative }

/-- Change the file system. -/
def Host.setNode (p : List String) (n : Option Node) : Prog VaultError Host Unit :=
  .modify fun h => { h with fs := h.fs.set p n }

/-- Create the temporary file, retrying other names while they are taken. -/
def createTemp (target : ContainedTarget) : Nat → Prog VaultError Host (List String)
  | 0 => .fail (.io none "could not create a unique temp file after 5 attempts")
  | n + 1 => do
    let b ← Host.randomBytes 8
    let tmp := target.temp b
    match ← (Host.syscall).attempt with
    | .error e => match e with
      | .io (some errno) _ => if errno = EEXIST then createTemp target n else .fail e
      | _ => .fail e
    | .ok () =>
      let h ← .get
      match h.fs.node tmp with
      | some _ => createTemp target n
      | none =>
        Host.setNode tmp (some (.file []))
        pure tmp

/-- Run a step of the publication; its failure removes the temporary file. -/
def removingTemp (tmp : List String) (m : Prog VaultError Host Unit) : Prog VaultError Host Unit := do
  match ← m.attempt with
  | .ok () => pure ()
  | .error e =>
    Host.setNode tmp none
    .fail e

/-- Write bytes to the temporary file and sync it. -/
def fillTemp (tmp : List String) (bytes : Bytes) : Prog VaultError Host Unit := do
  Host.ioCall  -- write
  Host.setNode tmp (some (.file bytes))
  Host.ioCall  -- fsync

/-- Rename the temporary file over the destination. -/
def renameTemp (tmp dest : List String) (bytes : Bytes) : Prog VaultError Host Unit := do
  Host.syscall
  Host.setNode dest (some (.file bytes))
  Host.setNode tmp none

/-- Publish bytes at the destination. -/
def writeFileAtomic (target : ContainedTarget) (bytes : Bytes) : Prog VaultError Host Unit := do
  if target.fileName.toList.contains '\x00' then .fail (.invalidInput "file name contains NUL")
  else
    let h ← .get
    if !h.fs.replaceable target.dest then .fail (.invalidInput
      "destination exists and is not a regular file (symlinks, directories, FIFOs, sockets and devices are refused)")
    else
      let tmp ← createTemp target 5
      removingTemp tmp (fillTemp tmp bytes)
      removingTemp tmp (renameTemp tmp target.dest bytes)

end SecretsVault
