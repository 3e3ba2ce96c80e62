import SecretsVault.AuditAppend
import SecretsVault.Decisions

/-!
# The vault session

The session holds the envelope, and while unlocked the document and the keys, with the audit log and the table of human
sessions. A mutation is applied to a copy of the document; `commitWith` records it, seals it, stores it and only then
adopts it. `lockPersist` revokes what is live and drops the keys; `create` and `load` open a vault file.

The document, the keys and the audit key are set and dropped together: they are one optional `Unlocked`.
-/

namespace SecretsVault

open Lib

def MIN_PASSPHRASE_LEN : Nat := 12
def SESSION_MAX_TTL_SECS : Nat := 1800
def MAX_SESSIONS : Nat := 256

/-- What is in memory only while unlocked. -/
structure Unlocked where
  doc : VaultDocument
  keys : Keys
  auditKey : SecretKey
  deriving DecidableEq, Repr

/-- A live human session; its windows are monotonic. -/
structure HumanSession where
  displayPrefix : String
  mintedAt : Instant
  lastUsed : Instant
  ttlSecs : Nat
  deriving DecidableEq, Repr

/-- A table by digest; the first entry of a digest counts. -/
abbrev DigestMap (α : Type) := List (Digest × α)

namespace DigestMap

variable {α : Type}

def get? (m : DigestMap α) (d : Digest) : Option α := (m.find? fun p => p.1 == d).map (·.2)

def remove (m : DigestMap α) (d : Digest) : DigestMap α := m.filter fun p => p.1 != d

def insert (m : DigestMap α) (d : Digest) (a : α) : DigestMap α := (d, a) :: m.remove d

end DigestMap

/-- The state of an open vault. -/
structure Session where
  envelope : Envelope
  unlocked : Option Unlocked
  audit : AuditLog
  /-- Digest and id of the active agents; kept while locked. -/
  agentDigests : DigestMap String
  /-- Human sessions, in memory only. -/
  sessions : DigestMap HumanSession
  lastActivity : Instant
  idleTimeout : Nat
  idleSelfLock : Bool

/-- A session and the host it runs on. -/
structure Sys where
  session : Session
  host : Host

namespace Session

def isLocked (s : Session) : Bool := s.unlocked.isNone

/-- The decrypted document, while unlocked. -/
def document (s : Session) : Option VaultDocument := s.unlocked.map (·.doc)

def auditKey (s : Session) : Option SecretKey := s.unlocked.map (·.auditKey)

/-- Whether the idle window has elapsed. -/
def idleExpired (s : Session) (now : Instant) : Bool :=
  s.idleTimeout != 0 && decide (s.idleTimeout ≤ now - s.lastActivity)

/-- The instant at which the session must lock itself; one that the clock cannot hold is a panic of `armIdle`. -/
def idleDeadline (s : Session) : Option Instant :=
  if s.idleTimeout = 0 ∨ s.isLocked then none else some (s.lastActivity + s.idleTimeout)

/-- Hand the idle lock to the caller. -/
def deferIdleLock (s : Session) : Session := { s with idleSelfLock := false }

/-- Set the ceilings of the audit log. -/
def setAuditLimitsForTest (s : Session) (soft hard : Nat) : Session :=
  { s with audit := { s.audit with limits := ⟨soft, hard⟩ } }

/-- The digest map of the active agents of a document. -/
def agentDigestsOf (doc : VaultDocument) : DigestMap String :=
  doc.agents.foldl (fun m a =>
    if a.status = .active then
      match FixedBytes.ofBytes? 32 a.tokenHash with
      | some d => DigestMap.insert m d a.id
      | none => m
    else m) []

/-- Rebuild the map of active agents from the document. -/
def rebuildAgentDigests (s : Session) : Session :=
  { s with agentDigests := match s.unlocked with
    | some u => agentDigestsOf u.doc
    | none => [] }

/-- The agent of a token. -/
def resolveAgent [Crypto] (s : Session) (token : String) : Option String := s.agentDigests.get? (tokenDigest token)

/-- Drop the keys and the document, and every human session. -/
def lock (s : Session) : Session := { s with unlocked := none, sessions := [] }

end Session

/-! ## Programs of a session -/

/-- A program of a session. -/
abbrev SessionProg (α : Type) := Lib.Prog VaultError Sys α

/-- A host call. -/
def onHost {α : Type} (m : Prog VaultError Host α) : SessionProg α :=
  m.zoom Sys.host fun h s => { s with host := h }

/-- An operation of the audit log. -/
def onAudit {α : Type} (m : Prog VaultError (AuditLog × Host) α) : SessionProg α :=
  m.zoom (fun s => (s.session.audit, s.host)) fun p s => { session := { s.session with audit := p.1 }, host := p.2 }

/-- Change the session. -/
def modifySession (f : Session → Session) : SessionProg Unit := .modify fun s => { s with session := f s.session }

section

variable [Crypto] [VaultJson] [AuditJson]

/-! ## Recording -/

/-- Append a record under the audit key of the session. -/
def auditRecordWith (record : Record) (priority : Priority) : SessionProg Unit := do
  let s ← .get
  onAudit (AuditLog.append record s.session.auditKey priority)

def auditRecord (record : Record) : SessionProg Unit := auditRecordWith record .ordinary

def auditRecordLifecycle (record : Record) : SessionProg Unit := auditRecordWith record .lifecycle

/-- Record a denial; a failure to record it is dropped. -/
def auditDenied (actor op : String) (project : Option String) (keys : List String) (target : Option Path)
    (err : VaultError) : SessionProg Unit :=
  (auditRecord { actor, op, project, keys, target, decision := .denied, reason := some err.code }).ignore

/-- Record a denial and fail. -/
def deny {α : Type} (actor op : String) (project : Option String) (keys : List String) (err : VaultError) :
    SessionProg α := do
  auditDenied actor op project keys none err
  .fail err

/-! ## Committing -/

/-- The audit step of a commit: the checkpoint of the entry that was written. An ordinary commit fails without its
entry, a lifecycle commit goes on without one. -/
def recordCommit (record : Record) (priority : Priority) : SessionProg (Option AuditHead) := do
  let s ← .get
  match ← (Prog.lift (s.session.audit.stage record s.session.auditKey priority s.host) : SessionProg _).attempt with
  | .error e => if priority = .ordinary then .fail e else pure none
  | .ok staged =>
    match ← (onAudit (AuditLog.appendStaged staged)).attempt with
    | .ok () => pure (some ⟨staged.event.seq, staged.hashHex⟩)
    | .error e => if priority = .ordinary then .fail (.auditWrite e.display) else pure none

/-- The document with its checkpoint moved, if an entry was written. -/
def VaultDocument.withHead (doc : VaultDocument) : Option AuditHead → VaultDocument
  | some auditHead => { doc with auditHead }
  | none => doc

/-- The JSON of a document. -/
def docToVec (doc : VaultDocument) : Outcome VaultError Bytes :=
  match VaultJson.docToVec doc with
  | .ok b => .ok b
  | .error e => .error (.protocol e)

/-- Seal a document into the envelope of the session. -/
def resealSession (doc : VaultDocument) (keys : Keys) : SessionProg Unit := do
  let bytes ← .lift (docToVec doc)
  let s ← .get
  let e ← onHost (s.session.envelope.resealDocument bytes keys)
  modifySession fun s => { s with envelope := e }

/-- Store the envelope of the session, unless it is too large to be read back. -/
def storeSession : SessionProg Unit := do
  let s ← .get
  .lift (.ofExcept s.session.envelope.validatePersistable)
  onHost (Host.saveAtomic s.session.envelope.toBytes)

/-- Record a mutated document, seal it, store it, and adopt it. -/
def commitWith (doc : VaultDocument) (record : Record) (priority : Priority) : SessionProg Unit := do
  let s ← .get
  let u ← .lift (.ofOption .locked s.session.unlocked)
  let head ← recordCommit record priority
  let doc := doc.withHead head
  resealSession doc u.keys
  storeSession
  modifySession fun s => ({ s with unlocked := some { u with doc } }).rebuildAgentDigests

def commit (doc : VaultDocument) (record : Record) : SessionProg Unit := commitWith doc record .ordinary

/-! ## Locking -/

/-- The record of a lock. -/
def lockRecord : Record := { actor := "human", op := "vault.lock", decision := .allowed }

/-- Revoke every lease and deny every approval, then drop the keys. What becomes of the commit is not reported. -/
def lockPersist : SessionProg Unit := do
  let s ← .get
  match s.session.unlocked with
  | none => modifySession Session.lock
  | some u =>
    (commitWith (lockAll s.host.wall u.doc) lockRecord .lifecycle).ignore
    modifySession Session.lock

/-- Lock a session that locks itself and has been idle too long. -/
def checkIdle : SessionProg Unit := do
  let s ← .get
  if s.session.idleSelfLock && s.session.idleExpired s.host.mono then
    match ← lockPersist.attempt with
    | .ok () => pure ()
    | .error _ => modifySession Session.lock
  else pure ()

/-- What is in memory while unlocked. -/
def requireUnlocked : SessionProg Unlocked := do
  let s ← .get
  .lift (.ofOption .locked s.session.unlocked)

/-- Lock if idle, else count as activity and give the keys. -/
def requireKeys : SessionProg Keys := do
  checkIdle
  let u ← requireUnlocked
  .modify fun s => { s with session := { s.session with lastActivity := s.host.mono } }
  pure u.keys

/-- Seal and store the document as it is. -/
def save : SessionProg Unit := do
  checkIdle
  let u ← requireUnlocked
  .modify fun s => { s with session := { s.session with lastActivity := s.host.mono } }
  resealSession u.doc u.keys
  storeSession

/-- Refuse a locked vault, recording the denial; a failure to record it is the error. -/
def gate (actor op : String) (project : Option String) (keys : List String) : SessionProg Unit := do
  checkIdle
  let s ← .get
  if s.session.isLocked then
    onAudit (AuditLog.append { actor, op, project, keys, decision := .denied, reason := some "E_LOCKED" }
      none .ordinary)
    .fail .locked
  else pure ()

/-- Drop what is over from the document in memory. -/
def gcTerminalCredentials : SessionProg GcReport := do
  let s ← .get
  match s.session.unlocked with
  | none => pure ⟨0, 0⟩
  | some u =>
    let swept := purgeTerminal u.doc s.host.wall
    modifySession fun s => { s with unlocked := some { u with doc := swept } }
    pure (gcReport u.doc swept)

/-! ## Unlocking -/

/-- The document of the envelope, if everything that was authenticated verifies. -/
def openVault (e : Envelope) (derived : DerivedKeks) (auditFile : Option Bytes) : Outcome VaultError Unlocked := do
  let keys ← .ofExcept (e.unlockWith derived)
  let auditKey := deriveAuditKey keys.mek
  match AuditLog.verify (some auditKey) auditFile with
  | .panic => .panic
  | .error _ => .error (.corrupt "audit log verification failed")
  | .ok _ =>
    let bytes ← .ofExcept (e.openDocument keys)
    match VaultJson.docFromSlice bytes with
    | .error why => .error (.protocol why)
    | .ok doc =>
      checkCheckpoint auditFile doc.auditHead.seq doc.auditHead.hash
      pure { doc, keys, auditKey }

def doUnlock (derived : DerivedKeks) : SessionProg Unit := do
  let s ← .get
  let u ← .lift (openVault s.session.envelope derived s.host.auditFile)
  modifySession fun s => ({ s with unlocked := some u }).rebuildAgentDigests

/-- Unlock with keys derived elsewhere. The records of success and of a wrong passphrase may be lost. -/
def unlockWithProof (derived : DerivedKeks) : SessionProg Unit := do
  match ← (doUnlock derived).attempt with
  | .ok () =>
    (auditRecordLifecycle { actor := "human", op := "vault.unlocked", decision := .allowed }).ignore
    .modify fun s => { s with session := { s.session with lastActivity := s.host.mono } }
  | .error e =>
    if e = .auth then
      (onAudit (AuditLog.append
        { actor := "human", op := "vault.unlock", decision := .denied, reason := some e.code } none .lifecycle)).ignore
      .fail e
    else .fail e

/-- Unlock with a passphrase. -/
def unlock (passphrase : Bytes) : SessionProg Unit := do
  let s ← .get
  let derived ← .lift (.ofExcept (do
    let recipe ← s.session.envelope.kekRecipe
    recipe.derive passphrase))
  unlockWithProof derived

/-! ## Opening a vault -/

/-- What a session starts with. -/
def Session.start (envelope : Envelope) (unlocked : Option Unlocked) (audit : AuditLog) (now idleTimeout : Nat) :
    Session :=
  { envelope, unlocked, audit, agentDigests := [], sessions := [], lastActivity := now, idleTimeout,
    idleSelfLock := true }

/-- Run with the lock file of the vault, which an error gives back. -/
def holdingVault {α : Type} (m : Prog VaultError Host α) : Prog VaultError Host α := do
  Host.acquireVault
  match ← m.attempt with
  | .ok a => pure a
  | .error e =>
    .modify Host.releaseVault
    .fail e

/-- The record of a creation. -/
def createdRecord : Record := { actor := "human", op := "vault.created", decision := .allowed }

/-! ### The steps of a creation and of a load -/

/-- What a creation has ready before it writes anything. -/
structure Prepared where
  audit : AuditLog
  staged : StagedEntry
  envelope : Envelope
  unlocked : Unlocked

/-- Refuse a weak passphrase, and a path on which there is a vault. -/
def checkAbsent (passphrase : Bytes) : Prog VaultError Host Unit := do
  if passphrase.length < MIN_PASSPHRASE_LEN then .fail .weakPassphrase
  else
    let h ← .get
    if h.vaultFile.isSome then .fail .exists_ else pure ()

/-- Stage the first entry, and seal the document that names it. -/
def prepare (passphrase : Bytes) : Prog VaultError Host Prepared := do
  let audit ← AuditLog.loadOrInit
  let h ← .get
  let staged ← .lift (audit.stage createdRecord none .ordinary h)
  let doc := { VaultDocument.new h.wall with auditHead := ⟨staged.event.seq, staged.hashHex⟩ }
  let bytes ← .lift (docToVec doc)
  let envelope ← Envelope.create passphrase bytes h.wall
  let keys ← .lift (.ofExcept (envelope.unlock passphrase))
  let auditKey := deriveAuditKey keys.mek
  let staged ← .lift (staged.macWith auditKey)
  pure ⟨audit, staged, envelope, doc, keys, auditKey⟩

/-- Append the first entry. -/
def Prepared.append (p : Prepared) : Prog VaultError Host Prepared := do
  let h ← .get
  let (o, audit, h') := (AuditLog.appendStaged p.staged).run (p.audit, h)
  .modify fun _ => h'
  .lift o
  pure { p with audit }

/-- Store the vault. -/
def Prepared.save (p : Prepared) : Prog VaultError Host Unit := Host.saveAtomic p.envelope.toBytes

/-- The session of the new vault. -/
def Prepared.session (p : Prepared) (idleTimeout : Nat) : Prog VaultError Host Session := do
  let h ← .get
  pure (Session.start p.envelope (some p.unlocked) p.audit h.mono idleTimeout).rebuildAgentDigests

/-- What a creation does with the lock of the vault. -/
def writeVault (passphrase : Bytes) (idleTimeout : Nat) : Prog VaultError Host Session := do
  let p ← prepare passphrase
  let p ← p.append
  p.save
  p.session idleTimeout

/-- What a load does with the lock of the vault. -/
def readVault (idleTimeout : Nat) : Prog VaultError Host Session := do
  let h ← .get
  let bytes ← .lift (.ofOption (.io (some ENOENT) "No such file or directory") h.vaultFile)
  if MAX_FILE_LEN < bytes.length then .fail (.corrupt "vault file exceeds maximum size")
  else
    let envelope ← .lift (.ofExcept (Envelope.parse bytes))
    let audit ← AuditLog.loadOrInit
    let h ← .get
    pure (Session.start envelope none audit h.mono idleTimeout)

/-- Create a vault and store it: its first entry is written before the vault that names it. -/
def Session.create (passphrase : Bytes) (idleTimeout : Nat) : Prog VaultError Host Session := do
  checkAbsent passphrase
  holdingVault (writeVault passphrase idleTimeout)

/-- Load a vault, locked. -/
def Session.load (idleTimeout : Nat) : Prog VaultError Host Session := holdingVault (readVault idleTimeout)

end

end SecretsVault
