import SecretsVault.Dotenv
import SecretsVault.FsOps
import SecretsVault.Operations

/-!
# Injection, audit inspection and run records

`injectFile` publishes secrets as a dotenv file in the first authorized folder that admits it, then records it. The
audit log can be read while the vault is locked. The records of managed runs carry metadata only.
-/

namespace SecretsVault

open Lib

structure InjectReport where
  path : Path
  keys : List String
  deriving DecidableEq, Repr

/-- The text of some bytes. -/
def fromUtf8 (b : Bytes) : Option String := String.fromUTF8? ⟨b.toArray⟩

/-- A secret as a dotenv entry. -/
def Secret.entry (s : Secret) : Except VaultError DotenvEntry :=
  match fromUtf8 s.value with
  | some value => .ok ⟨s.key, value⟩
  | none => .error (.invalidInput "secret value is not valid UTF-8 for dotenv injection")

/-- The entries of a selection of keys that must all exist, or of every key of the project. -/
def injectEntries (doc : VaultDocument) (projectId : String) : Option (List String) →
    Except VaultError (List DotenvEntry)
  | some keys => keys.mapM fun k =>
    match doc.secret projectId k with
    | none => .error .notFound
    | some s => do
      let e ← s.entry
      pure { e with key := k }
  | none =>
    ((doc.secrets.filter fun s => s.projectId == projectId).mergeSort fun a b => a.key ≤ b.key).mapM Secret.entry

/-- Resolve a destination under one folder. -/
def resolveUnder (folder : Path) (relative : String) : Prog VaultError Host ContainedTarget := do
  let root ← openContainmentRoot folder
  resolveTarget root relative folder

/-- Publish at a destination under one folder. -/
def injectUnder (folder : Path) (relative : String) (bytes : Bytes) : Prog VaultError Host Path := do
  let target ← resolveUnder folder relative
  writeFileAtomic target bytes
  pure target.displayPath

/-- Try the folders in order; the error of the last one stands. -/
def injectFirst (relative : String) (bytes : Bytes) (last : VaultError) : List Path → Prog VaultError Host Path
  | [] => .fail last
  | folder :: rest => do
    match ← (injectUnder folder relative bytes).attempt with
    | .ok path => pure path
    | .error e => injectFirst relative bytes e rest

/-- What an injection writes: the folders to try, the keys and the bytes. -/
def checkInjectFile (doc : VaultDocument) (project : String) (keys : Option (List String)) :
    Except VaultError (List Path × List String × Bytes) :=
  match doc.projectByName project with
  | none => .error .notFound
  | some p =>
    if p.paths.isEmpty then .error (.invalidInput "project has no authorized folders")
    else do
      let entries ← injectEntries doc p.id keys
      let selected := entries.map (·.key)
      if selected.isEmpty then .error (.invalidInput "no secrets to inject")
      else
        let bytes ← serializeDotenv entries
        pure (p.paths, selected, bytes)

def doInjectFile (doc : VaultDocument) (project relative : String) (keys : Option (List String)) :
    Prog VaultError Host InjectReport := do
  let (folders, selected, bytes) ← .lift (.ofExcept (checkInjectFile doc project keys))
  let path ← injectFirst relative bytes (.invalidInput "no authorized folders") folders
  pure { path, keys := selected }

section

variable [Crypto] [VaultJson] [AuditJson]

/-- Publish a dotenv file, then record it. -/
def injectFile (actor project relative : String) (keys : Option (List String)) : SessionProg InjectReport := do
  gate actor "inject_file" (some project) []
  let u ← requireUnlocked
  match ← (onHost (doInjectFile u.doc project relative keys)).attempt with
  | .ok report =>
    auditRecord
      { actor, op := "inject_file", project := some project, keys := report.keys, target := some report.path,
        decision := .allowed }
    pure report
  | .error e => deny actor "inject_file" (some project) [] e

/-! ## Audit inspection -/

/-- A page of at most `tail` entries up to `beforeSeq`, with the cursor of the page before it. -/
def auditPage (ls : List AuditLine) (tail : Nat) (beforeSeq : Option Nat) : List AuditLine × Option Nat :=
  let head := match ls.getLast? with
    | some l => l.event.seq
    | none => 0
  let upper := match beforeSeq with
    | some b => min b head
    | none => head
  let eligible := ls.filter fun l => decide (l.event.seq ≤ upper)
  let page := eligible.drop (eligible.length - tail)
  let next := match page with
    | [] => none
    | first :: _ =>
      if 1 < first.event.seq ∧ ls.any fun l => decide (l.event.seq < first.event.seq) then some (first.event.seq - 1)
      else none
  (page, next)

/-- Read a page of the log as it was before the record of this read. -/
def auditShowPage (actor : String) (tail : Nat) (beforeSeq : Option Nat) :
    SessionProg (List AuditLine × Option Nat) := do
  let s ← .get
  let ls ← .lift (.ofExcept (readAll s.host.auditFile))
  auditRecord { actor, op := "audit.show", decision := .allowed }
  pure (auditPage ls tail beforeSeq)

/-- Verify the log, with MACs while unlocked. -/
def auditVerify : SessionProg VerifyReport := do
  let s ← .get
  .lift (AuditLog.verify s.session.auditKey s.host.auditFile)

/-! ## Managed runs -/

/-- Append a run record under the audit key of the session. -/
def auditRunWith (record : RunRecord) (priority : Priority) : SessionProg Unit := do
  let s ← .get
  onAudit (AuditLog.appendRun record s.session.auditKey priority)

/-- The idle check, then whether the vault is unlocked. -/
def ensureRunUnlocked : SessionProg Unit := do
  checkIdle
  let s ← .get
  if s.session.isLocked then .fail .locked else pure ()

end

end SecretsVault
