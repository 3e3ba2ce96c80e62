import SecretsVault.Envelope

/-!
# The audit log

An append-only file of JSON lines in a hash chain: an entry names the hash of the entry before it, and carries a MAC
when the vault was unlocked. `walk` verifies a whole file, `checkCheckpoint` looks for the entry a vault names, `resync`
finds the head of the file before every append, `stage` builds the next entry and refuses it past the ceiling, and
`appendStaged` writes it.

Reading a line can panic: `unhex` slices its field at byte positions.
-/

namespace SecretsVault

open Lib

/-- HKDF label of the audit key. -/
def AUDIT_INFO : String := "svault/audit-mac/v1"
def MAX_AUDIT_LEN : Nat := MAX_FILE_LEN
def AUDIT_HEADROOM : Nat := 2 * 1024 * 1024
def AUDIT_SOFT_LIMIT : Nat := MAX_AUDIT_LEN - AUDIT_HEADROOM

/-- Lifecycle events may spend the reserved headroom and may proceed unrecorded. -/
inductive Priority where
  | ordinary
  | lifecycle
  deriving DecidableEq, Repr

inductive Decision where
  | allowed
  | denied
  deriving DecidableEq, Repr

/-- The authenticated content of an entry. -/
structure AuditEvent where
  ts : String
  seq : Nat
  prevHash : String
  actor : String
  op : String
  project : Option String
  keys : List String
  target : Option String
  decision : Decision
  reason : Option String
  runId : Option String
  executable : Option String
  argCount : Option Nat
  cwd : Option String
  result : Option String
  exitCode : Option Int
  signal : Option String
  deriving DecidableEq, Repr

/-- One stored line. -/
structure AuditLine where
  event : AuditEvent
  hash : String
  mac : Option String
  deriving DecidableEq, Repr

structure VerifyReport where
  entries : Nat
  macsVerified : Nat
  macsNull : Nat
  deriving DecidableEq, Repr

/-- One entry to record. -/
structure Record where
  actor : String
  op : String
  project : Option String := none
  keys : List String := []
  target : Option Path := none
  decision : Decision
  reason : Option String := none
  deriving DecidableEq, Repr

/-- One entry of `run_with_secrets` to record. -/
structure RunRecord where
  actor : String
  project : Option String
  keys : List String
  runId : Option String := none
  executable : Option String := none
  argCount : Option Nat := none
  cwd : Option Path := none
  decision : Decision
  reason : Option String := none
  result : Option String := none
  exitCode : Option Int := none
  signal : Option String := none
  deriving DecidableEq, Repr

/-- The ceilings a log enforces. -/
structure Limits where
  soft : Nat
  hard : Nat
  deriving DecidableEq, Repr

def Limits.default : Limits := ⟨AUDIT_SOFT_LIMIT, MAX_AUDIT_LEN⟩

/-- An entry built against a head but not yet written. -/
structure StagedEntry where
  event : AuditEvent
  hashHex : String
  macHex : Option String
  deriving DecidableEq, Repr

/-- A log with the head it knows of. -/
structure AuditLog where
  seq : Nat
  lastHash : Digest
  limits : Limits
  deriving DecidableEq, Repr

/-- The JSON of entries, and their timestamps. -/
class AuditJson where
  eventToVec : AuditEvent → Bytes
  lineToString : AuditLine → Bytes
  lineFromStr : Bytes → Option AuditLine
  rfc3339 : OffsetDateTime → Except String String

/-- What the log relies on: JSON reads back what it wrote; a written line is a non-empty UTF-8 text without control
characters; a line that was cut short, or that another line was written behind, is no JSON value. -/
class LawfulAuditJson [AuditJson] : Prop where
  line_roundtrip (l : AuditLine) : AuditJson.lineFromStr (AuditJson.lineToString l) = some l
  line_ne_nil (l : AuditLine) : AuditJson.lineToString l ≠ []
  line_utf8 (l : AuditLine) : utf8Valid (AuditJson.lineToString l) = true
  line_printable (l : AuditLine) : ∀ b ∈ AuditJson.lineToString l, 0x20 ≤ b
  line_cut (l : AuditLine) (k : Nat) (h0 : 0 < k) (hk : k < (AuditJson.lineToString l).length) :
    AuditJson.lineFromStr ((AuditJson.lineToString l).take k) = none
  line_behind {a : Bytes} {l' : AuditLine} (h : AuditJson.lineFromStr a = some l') (l : AuditLine) (k : Nat)
    (hk : 0 < k) : AuditJson.lineFromStr (a ++ (AuditJson.lineToString l).take k) = none
  rfc3339_range {t : OffsetDateTime} (h : Rfc3339Range t) : ∃ ts, AuditJson.rfc3339 t = .ok ts

/-- The audit key, derived from the master key. -/
def deriveAuditKey [Crypto] (mek : SecretKey) : SecretKey := Crypto.hkdf mek AUDIT_INFO

/-- Read a file as text. -/
def readToString : Option Bytes → Except VaultError Bytes
  | none => .error (.corrupt "audit unreadable: No such file or directory (os error 2)")
  | some b =>
    if utf8Valid b then .ok b else .error (.corrupt "audit unreadable: stream did not contain valid UTF-8")

/-- The lines that are read. -/
def auditLines (content : Bytes) : List Bytes := (lines content).filter (· ≠ [])

section

variable [Crypto] [AuditJson]

def entryHash (prev : Digest) (e : AuditEvent) : Digest := Crypto.sha256 (prev.1 ++ AuditJson.eventToVec e)

def entryMac (key : SecretKey) (prev : Digest) (e : AuditEvent) : Digest :=
  Crypto.hmacSha256 key (prev.1 ++ AuditJson.eventToVec e)

/-- Attach the MAC after staging. -/
def StagedEntry.macWith (s : StagedEntry) (key : SecretKey) : Outcome VaultError StagedEntry :=
  match unhex s.event.prevHash with
  | .ok prev => .ok { s with macHex := some (hex (entryMac key prev s.event).1) }
  | _ => .panic

/-- The line of a staged entry. -/
def StagedEntry.line (s : StagedEntry) : AuditLine := ⟨s.event, s.hashHex, s.macHex⟩

/-! ## Verification -/

/-- What a walk carries from line to line. -/
structure Walk where
  prev : Digest
  seq : Nat
  report : VerifyReport
  deriving DecidableEq, Repr

def Walk.start : Walk := ⟨FixedBytes.zero 32, 0, ⟨0, 0, 0⟩⟩

/-- Count a line whose MAC verifies, or that is not authenticated. -/
def checkMac (key : Option SecretKey) (l : AuditLine) (r : VerifyReport) : Outcome VaultError VerifyReport :=
  match l.mac, key with
  | some macHex, some k => do
    let prev ← unhex l.event.prevHash
    let mac ← unhex macHex
    if mac ≠ entryMac k prev l.event then .error (.corrupt "audit mac mismatch")
    else pure { r with macsVerified := r.macsVerified + 1 }
  | _, _ => pure { r with macsNull := r.macsNull + 1 }

/-- One line of a walk. -/
def walkLine (key : Option SecretKey) (w : Walk) (line : Bytes) : Outcome VaultError Walk := do
  let parsed ← .ofOption (.corrupt "audit line invalid") (AuditJson.lineFromStr line)
  let seq := w.seq + 1
  if parsed.event.seq ≠ seq then .error (.corrupt "audit seq out of order")
  else
    let prevHash ← unhex parsed.event.prevHash
    if prevHash ≠ w.prev then .error (.corrupt "audit chain linkage broken")
    else
      let computed := entryHash w.prev parsed.event
      let hash ← unhex parsed.hash
      if hash ≠ computed then .error (.corrupt "audit hash mismatch")
      else
        let report ← checkMac key parsed w.report
        pure ⟨computed, seq, { report with entries := report.entries + 1 }⟩

/-- Walk over a text: what was verified, and the hash of the last entry. -/
def walkText (key : Option SecretKey) (content : Bytes) : Outcome VaultError Walk :=
  (auditLines content).foldlM (walkLine key) .start

/-- Structural walk over a file, with MAC verification where a key is given. -/
def walk (key : Option SecretKey) (file : Option Bytes) : Outcome VaultError (VerifyReport × Digest) := do
  let content ← .ofExcept (readToString file)
  let w ← walkText key content
  pure (w.report, w.prev)

/-- Full verification. -/
def AuditLog.verify (key : Option SecretKey) (file : Option Bytes) : Outcome VaultError VerifyReport := do
  let (report, _) ← walk key file
  pure report

/-- The lines of a checkpoint check, from a hash and a number on. -/
def checkpointLines (headSeq : Nat) (headHash : String) (prev : Digest) (seq : Nat) :
    List Bytes → Outcome VaultError Unit
  | [] => .error (.corrupt
      "audit log is behind the vault checkpoint: the event for the last vault change is missing")
  | line :: rest => do
    let parsed ← .ofOption (.corrupt "audit line invalid") (AuditJson.lineFromStr line)
    if parsed.event.seq ≠ seq + 1 then .error (.corrupt "audit seq out of order")
    else
      let computed := entryHash prev parsed.event
      if seq + 1 = headSeq then
        let hash ← unhex parsed.hash
        if hash ≠ computed ∨ parsed.hash ≠ headHash then
          .error (.corrupt "audit log diverges from the vault checkpoint")
        else pure ()
      else checkpointLines headSeq headHash computed (seq + 1) rest

/-- Whether the log holds the entry a vault names. -/
def checkCheckpoint (file : Option Bytes) (headSeq : Nat) (headHash : String) : Outcome VaultError Unit := do
  let content ← .ofExcept (readToString file)
  checkpointLines headSeq headHash (FixedBytes.zero 32) 0 (auditLines content)

end

variable [AuditJson]

/-- Read one line. -/
def parseLine (l : Bytes) : Except VaultError AuditLine :=
  match AuditJson.lineFromStr l with
  | some parsed => .ok parsed
  | none => .error (.corrupt "audit line invalid")

/-- All stored lines in file order. -/
def readAll (file : Option Bytes) : Except VaultError (List AuditLine) := do
  let content ← readToString file
  (auditLines content).mapM parseLine

namespace AuditLog

/-- Scan the lines for the last hash and their number; an error stops the scan for good. -/
def resyncLines (prev : Digest) (seq : Nat) : List Bytes → Outcome VaultError (Digest × Nat)
  | [] => .ok (prev, seq)
  | line :: rest => do
    let parsed ← .ofOption (.corrupt "audit line invalid") (AuditJson.lineFromStr line)
    if parsed.event.seq ≠ seq + 1 then .error (.corrupt "audit seq out of order")
    else
      let hash ← unhex parsed.hash
      resyncLines hash (seq + 1) rest

/-- Advance the known head if the file has grown. A file that cannot be read or scanned leaves it as it is. -/
def resync (log : AuditLog) (file : Option Bytes) : Outcome VaultError AuditLog :=
  match readToString file with
  | .error _ => .ok log
  | .ok content =>
    match resyncLines (FixedBytes.zero 32) 0 (auditLines content) with
    | .panic => .panic
    | .error _ => .ok log
    | .ok (prev, seq) => .ok (if log.seq < seq then { log with seq, lastHash := prev } else log)

/-- The line an entry is measured by. -/
def probe (e : AuditEvent) : AuditLine :=
  ⟨e, String.ofList (List.replicate 64 '0'), some (String.ofList (List.replicate 64 '0'))⟩

/-- Refuse an entry that would not fit, before it is written. -/
def preflight (log : AuditLog) (file : Option Bytes) (e : AuditEvent) (priority : Priority) : Except VaultError Unit :=
  let fileLen := match file with
    | some b => b.length
    | none => 0
  let projected := fileLen + (AuditJson.lineToString (probe e)).length + 1
  match priority with
  | .ordinary =>
    if log.limits.soft < projected then .error (.auditFull "refused before any change; rotation is post-MVP")
    else .ok ()
  | .lifecycle =>
    if log.limits.hard < projected then .error (.auditWrite "audit log reached its hard ceiling") else .ok ()

/-- The timestamp of an entry. -/
def timestamp (wall : OffsetDateTime) : Outcome VaultError String :=
  match AuditJson.rfc3339 wall with
  | .ok ts => .ok ts
  | .error e => .error (.protocol ("audit timestamp: " ++ e))

variable [Crypto]

/-- Build the next entry without touching the log; `event` makes it from its timestamp, number and previous hash. -/
def stageEvent (log : AuditLog) (event : String → Nat → String → AuditEvent) (key : Option SecretKey)
    (priority : Priority) (h : Host) : Outcome VaultError StagedEntry := do
  let synced ← log.resync h.auditFile
  let ts ← timestamp h.wall
  let event := event ts (synced.seq + 1) (hex synced.lastHash.1)
  .ofExcept (synced.preflight h.auditFile event priority)
  pure
    { event
      hashHex := hex (entryHash synced.lastHash event).1
      macHex := key.map fun k => hex (entryMac k synced.lastHash event).1 }

end AuditLog

/-- The event of a record. -/
def Record.event (r : Record) (ts : String) (seq : Nat) (prevHash : String) : AuditEvent :=
  { ts, seq, prevHash, actor := r.actor, op := r.op, project := r.project, keys := r.keys, target := r.target,
    decision := r.decision, reason := r.reason, runId := none, executable := none, argCount := none, cwd := none,
    result := none, exitCode := none, signal := none }

/-- The event of a run record. -/
def RunRecord.event (r : RunRecord) (ts : String) (seq : Nat) (prevHash : String) : AuditEvent :=
  { ts, seq, prevHash, actor := r.actor, op := "run_with_secrets", project := r.project, keys := r.keys,
    target := none, decision := r.decision, reason := r.reason, runId := r.runId, executable := r.executable,
    argCount := r.argCount, cwd := r.cwd, result := r.result, exitCode := r.exitCode, signal := r.signal }

namespace AuditLog

variable [Crypto]

/-- Stage a record. -/
def stage (log : AuditLog) (record : Record) (key : Option SecretKey) (priority : Priority) (h : Host) :
    Outcome VaultError StagedEntry := log.stageEvent record.event key priority h

/-- Stage a run record. -/
def stageRun (log : AuditLog) (record : RunRecord) (key : Option SecretKey) (priority : Priority) (h : Host) :
    Outcome VaultError StagedEntry := log.stageEvent record.event key priority h

/-- Write a staged entry behind the head it was staged for, then advance the head. -/
def appendStaged (staged : StagedEntry) : Prog VaultError (AuditLog × Host) Unit := do
  let (log, h) ← .get
  let log ← .lift (log.resync h.auditFile)
  .modify fun s => (log, s.2)
  if staged.event.seq ≠ log.seq + 1 then
    .fail (.protocol "staged audit entry does not chain from the log head")
  else
    let prev ← .lift (unhex staged.event.prevHash)
    if prev ≠ log.lastHash then .fail (.protocol "staged audit entry does not chain from the log head")
    else
      let recomputed := entryHash log.lastHash staged.event
      if hex recomputed.1 ≠ staged.hashHex then .fail (.protocol "staged audit hash mismatch")
      else
        Prog.zoom Prod.snd (fun h s => (s.1, h)) (Host.appendAudit (AuditJson.lineToString staged.line ++ [lf]))
        .modify fun s => ({ s.1 with seq := s.1.seq + 1, lastHash := recomputed }, s.2)

/-- Stage and write. -/
def appendEvent (event : String → Nat → String → AuditEvent) (key : Option SecretKey) (priority : Priority) :
    Prog VaultError (AuditLog × Host) Unit := do
  let (log, h) ← .get
  let staged ← .lift (log.stageEvent event key priority h)
  appendStaged staged

/-- Append one record built now. -/
def append (record : Record) (key : Option SecretKey) (priority : Priority) :
    Prog VaultError (AuditLog × Host) Unit := appendEvent record.event key priority

/-- Append one run record built now. -/
def appendRun (record : RunRecord) (key : Option SecretKey) (priority : Priority) :
    Prog VaultError (AuditLog × Host) Unit := appendEvent record.event key priority

/-- Open the log, creating an empty file when it is missing. -/
def loadOrInit : Prog VaultError Host AuditLog := do
  let h ← .get
  match h.auditFile with
  | none =>
    Host.createAudit
    pure { seq := 0, lastHash := FixedBytes.zero 32, limits := .default }
  | some _ =>
    let (report, lastHash) ← .lift (walk none h.auditFile)
    pure { seq := report.entries, lastHash, limits := .default }

end AuditLog

end SecretsVault
