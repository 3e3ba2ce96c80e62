import SecretsVault.Handshake
import SecretsVault.Lib.Twins

/-!
# The backend of the dashboard

The page asks for one of thirty commands, and each is a fixed sequence of calls of the broker, one connection for each.
The credential of the human session is in the state of the backend.

- `Command`: what the page can ask for, with what it is told.
- `perform`: a command.
- `onCloseRequested`: the window is closed.
-/

namespace SecretsVault.Backend

open Lib Lib.Prog Mcp
open Value (json)
open Trust (Key)

/-! ## Errors -/

structure CmdError where
  code : String
  message : String

/-- The text for a code; the text of the broker is not shown. -/
def brokerMessage : String → String
  | "E_AUTH" => "authentication failed"
  | "E_LOCKED" => "vault is locked"
  | "E_BUSY" => "too many concurrent operations"
  | "E_VAULT_CORRUPT" => "vault file corrupted"
  | "E_INSECURE_PARAMS" => "kdf parameters outside accepted bounds"
  | "E_WEAK_PASSPHRASE" => "passphrase must be at least 12 characters"
  | "E_HUMAN_REQUIRED" => "this operation is human-only"
  | "E_EXISTS" => "already exists"
  | "E_MISMATCH" => "passphrases do not match"
  | "E_NOT_FOUND" => "not found"
  | "E_PERMISSION" => "permission denied"
  | "E_PATH_NOT_AUTHORIZED" => "path outside authorized folders"
  | "E_LEASE_EXPIRED" => "lease expired or revoked"
  | "E_SESSION_EXPIRED" => "session expired or revoked"
  | "E_APPROVAL_PENDING" => "approval pending"
  | "E_APPROVAL_DENIED" => "approval denied"
  | "E_APPROVAL_CONSUMED" => "approval already claimed"
  | "E_APPROVAL_EXPIRED" => "approval expired"
  | "E_TOO_LARGE" => "message too large"
  | "E_VAULT_TOO_LARGE" => "vault would exceed the maximum size"
  | "E_INVALID_INPUT" => "invalid input"
  | "E_AUDIT_FULL" => "audit log is full"
  | "E_AUDIT_WRITE" => "audit write failed"
  | "E_BROKER_UNTRUSTED" => "broker identity could not be verified"
  | "E_IO" => "filesystem error"
  | "E_PROTOCOL" => "protocol error"
  | _ => "broker error"

namespace CmdError

/-- A failure on this side; what its text could tell of the system is left out. -/
def ofVault (e : VaultError) : CmdError :=
  ⟨e.code, match e with
    | .io _ _ => "filesystem error"
    | .protocol _ => "protocol error"
    | .corrupt _ => "vault file corrupted"
    | .auditWrite _ => "audit write failed"
    | .invalidInput _ => "invalid input"
    | .auditFull _ => "audit log is full"
    | .brokerUntrusted _ => "broker identity could not be verified"
    | other => other.display⟩

def ofBroker (e : BrokerError) : CmdError := ⟨e.code, brokerMessage e.code⟩

def protocol : CmdError := ⟨"E_PROTOCOL", brokerMessage "E_PROTOCOL"⟩

end CmdError

/-! ## The state -/

/-- A call of the broker. -/
structure Ask where
  op : String
  auth : Auth
  params : Value

/-- The state of the backend, the calls it has made, the last one first, and what the next steps meet. The answer to a
call depends on the calls so far. -/
structure AppState where
  session : Option String
  calls : List Ask
  broker : List Ask → Answer
  pins : Nat → Except VaultError (Option Key)
  probes : Nat → Except VaultError String
  tokenFiles : Nat → Except VaultError Unit
  /-- The files that have a token. -/
  written : List (String × String)

/-- A part of a command. -/
abbrev Cmd := Prog CmdError AppState

def sessionAuth (s : AppState) : Option Auth := s.session.map .session

def dropSession : Cmd Unit := .modify fun s => { s with session := none }

def takeSession : Cmd (Option String) := .step fun s => (.ok s.session, { s with session := none })

/-- Hold the credential of an unlock, if it has one. -/
def holdSession (credential : Option String) : Cmd Unit := .modify fun s => { s with session := credential }

/-- A call of the broker, over a connection of its own. -/
def call (op : String) (auth : Auth) (params : Value) : Cmd Value := .step fun s =>
  let calls := ⟨op, auth, params⟩ :: s.calls
  (.ofExcept ((s.broker calls).mapError CmdError.ofBroker), { s with calls })

/-- The pin of the socket. -/
def loadPin : Cmd (Option Key) := .step fun s =>
  (.ofExcept ((s.pins 0).mapError CmdError.ofVault), { s with pins := fun i => s.pins (i + 1) })

/-- The key that the broker shows, in hex; no credential is sent. -/
def brokerFingerprintLive : Cmd String := .step fun s =>
  (.ofExcept ((s.probes 0).mapError CmdError.ofVault), { s with probes := fun i => s.probes (i + 1) })

/-- A token is written to a file that was not there. -/
def writeTokenFile (path token : String) : Cmd (Except VaultError Unit) := .step fun s =>
  (.ok (s.tokenFiles 0), { s with
    tokenFiles := fun i => s.tokenFiles (i + 1)
    written := if (s.tokenFiles 0).isOk then (path, token) :: s.written else s.written })

/-- The credential of the session. Without one the broker is called all the same, so that a broker that is not trusted
is told from a session that is over. -/
def requireSessionAuth : Cmd Auth := do
  let s ← Prog.get
  match sessionAuth s with
  | some auth => pure auth
  | none => do
    let _ ← call "vault.status" .none (json [])
    .fail ⟨"E_SESSION_EXPIRED", "session expired or revoked"⟩

/-- An operation for which a session is needed. -/
def asHuman {α : Type} (op : String) (params : Value) (read : Value → Except CmdError α) : Cmd α := do
  let auth ← requireSessionAuth
  let v ← call op auth params
  .lift (.ofExcept (read v))

/-! ## What is read of an answer -/

def strField (v : Value) (key : String) : Option String := (v.get? key).bind Value.asStr

def u64Field (v : Value) (key : String) : Option Nat := (v.get? key).bind Value.asU64

def boolField (v : Value) (key : String) : Option Bool :=
  (v.get? key).bind fun
    | .bool b => some b
    | _ => none

/-- An integer of 64 bits, cut to 32. -/
def i32Field (v : Value) (key : String) : Option Int :=
  (v.get? key).bind fun
    | .posInt n => if n.toNat < 2 ^ 63 then some (Int.bmod n.toNat (2 ^ 32)) else none
    | .negInt n => some (n.bmod (2 ^ 32))
    | _ => none

def arrField (v : Value) (key : String) : Option (List Value) := (v.get? key).bind Value.asArray

/-- The strings of an array; nothing, where there is no array. -/
def strings (v : Value) (key : String) : List String :=
  ((arrField v key).map fun items => items.filterMap Value.asStr).getD []

/-- The rows that can be read; nothing, where there is no array. -/
def rows {α : Type} (key : String) (read : Value → Option α) (v : Value) : Except CmdError (List α) :=
  .ok (((arrField v key).map fun items => items.filterMap read).getD [])

/-- The rows that can be read; an answer without the array is an error. -/
def rowsOrError {α : Type} (key : String) (read : Value → Option α) (v : Value) : Except CmdError (List α) :=
  (arrField v key).elim (.error .protocol) fun items => .ok (items.filterMap read)

/-- A text of the answer, or the empty one. -/
def textOf (key : String) (v : Value) : Except CmdError String := .ok ((strField v key).getD "")

/-- A number of the answer; an answer without it is an error. -/
def countOf (key : String) (v : Value) : Except CmdError Nat := (u64Field v key).elim (.error .protocol) .ok

/-! ## What the page is told -/

structure StatusOut where
  version : Nat
  created : String
  locked : Bool
  online : Bool
  trusted : Bool
  initialized : Bool
  fingerprint : Option String

structure PinStatusOut where
  pinned : Bool
  fingerprint : Option String

structure ProbeOut where
  fingerprint : String

structure UnlockOut where
  unlocked : Bool
  sessionPrefix : Option String
  expiresAt : Option String
  expiresIn : Option Nat
  maxExpiresAt : Option String
  maxExpiresIn : Option Nat

structure LockOut where
  locked : Bool

structure OverviewOut where
  online : Bool
  trusted : Bool
  fingerprint : Option String
  version : Nat
  created : String
  locked : Bool
  sessionHeld : Bool
  projects : Option Nat
  secretsTotal : Option Nat
  secretsTotalExact : Bool
  agentsActive : Option Nat
  runsActive : Option Nat
  approvalsPending : Option Nat
  leasesActive : Option Nat
  idleLockSecs : Option Nat
  idleIn : Option Nat
  auditBytes : Option Nat
  auditSoftLimit : Option Nat
  auditHardLimit : Option Nat
  vaultBytes : Option Nat
  vaultMaxBytes : Option Nat

structure ProjectEntry where
  name : String
  paths : List String

structure SecretEntry where
  key : String
  updated : String

structure AgentEntry where
  name : String
  status : String
  tokenPrefix : String

structure AgentAddOut where
  agentId : String
  token : String
  tokenSavedPath : Option String

structure GrantEntry where
  agent : String
  project : String
  ops : List String
  revoked : Bool

structure ApprovalEntry where
  approvalId : String
  agent : String
  project : String
  key : String
  status : String
  expiresAt : String

structure ApprovalDecisionOut where
  approvalId : String
  status : String

structure LeaseEntry where
  leaseId : String
  leasePrefix : String
  project : String
  ops : List String
  expiresAt : String
  expiresIn : Nat
  status : String

structure LeaseRevokeOut where
  leaseId : String
  revoked : Bool

structure RunEntry where
  runId : String
  agent : String
  project : String
  pid : Int
  startedAt : String
  status : String

structure AuditEntryOut where
  seq : Nat
  ts : String
  actor : String
  op : String
  project : Option String
  keys : List String
  decision : String
  reason : Option String
  runId : Option String
  authenticated : Bool

structure AuditShowOut where
  entries : List AuditEntryOut
  nextBeforeSeq : Option Nat

structure AuditVerifyOut where
  entries : Nat
  macsVerified : Nat
  macsNull : Nat

/-! ## Status -/

def pinFingerprint : Cmd (Option String) := do
  let pin ← loadPin
  pure (pin.map fun k => Trust.fingerprint k)

/-- Whether there is a pin, as far as it can be told. -/
def pinned : Cmd Bool := do
  let r ← loadPin.attempt
  pure (r.toOption.any Option.isSome)

/-- The fingerprint to show, if it can be read. -/
def shownFingerprint : Cmd (Option String) := do
  let r ← pinFingerprint.attempt
  pure (r.toOption.bind id)

/-- A broker that has answered, though not with a status. -/
def answeredStatus (version : Nat) (created : String) (locked initialized : Bool) : Cmd StatusOut := do
  let pinned ← pinned
  let fingerprint ← if pinned then shownFingerprint else pure none
  pure ⟨version, created, locked, true, pinned, initialized, fingerprint⟩

def getStatus : Cmd StatusOut := do
  let res ← (call "vault.status" .none (json [])).attempt
  match res with
  | .ok v =>
    answeredStatus ((u64Field v "version").getD 0 % 2 ^ 32) ((strField v "created").getD "")
      ((boolField v "locked").getD true) true
  | .error e =>
    if e.code = "E_BROKER_UNTRUSTED" then do
      let fingerprint ← shownFingerprint
      pure ⟨0, "", true, true, false, true, fingerprint⟩
    else if e.code = "E_AUDIT_FULL" ∨ e.code = "E_AUDIT_WRITE" ∨ e.code = "E_BUSY" then answeredStatus 0 "" true true
    else if e.code = "E_NOT_FOUND" then answeredStatus 0 "" true false
    else pure ⟨0, "", true, false, false, false, none⟩

def pinStatus : Cmd PinStatusOut := do
  let fingerprint ← pinFingerprint
  let pin ← loadPin
  pure ⟨pin.isSome, fingerprint⟩

def probeFingerprint : Cmd ProbeOut := do
  let keyHex ← brokerFingerprintLive
  let key ← .lift (.ofExcept ((Trust.parseFingerprint keyHex).mapError CmdError.ofVault))
  pure ⟨Trust.fingerprint key⟩

/-! ## The session -/

def unlock (passphrase : String) : Cmd UnlockOut := do
  let res ← call "vault.unlock" (.passphrase passphrase) (json [])
  if (boolField res "unlocked").getD false = false then .fail ⟨"E_AUTH", "authentication failed"⟩
  else
    holdSession (strField res "session_credential")
    pure ⟨true, strField res "session_prefix", strField res "expires_at", u64Field res "expires_in",
      strField res "max_expires_at", u64Field res "max_expires_in"⟩

/-- The credential is dropped, whatever becomes of the call. -/
def lock : Cmd LockOut := do
  let s ← Prog.get
  let wire ← (call "vault.lock" ((sessionAuth s).getD .none) (json [])).attempt
  dropSession
  match wire with
  | .ok _ => pure ⟨true⟩
  | .error e => if e.code = "E_IO" ∨ e.code = "E_PROTOCOL" then pure ⟨true⟩ else .fail e

def health : Cmd Value := do
  let s ← Prog.get
  call "vault.health" ((sessionAuth s).getD .none) (json [])

/-- The window is closed: the credential is taken first, and what comes of the lock is not waited for longer than the
budget. -/
def onCloseRequested : Cmd Unit := do
  let credential ← takeSession
  match credential with
  | some c => (call "vault.lock" (.session c) (json [])).ignore
  | none => pure ()

/-! ## The overview -/

def OVERVIEW_SECRETS_PROJECT_CAP : Nat := 50

/-- A status, and no counters. -/
def postureOnly (status : StatusOut) (sessionHeld : Bool) : OverviewOut where
  online := status.online
  trusted := status.trusted
  fingerprint := status.fingerprint
  version := status.version
  created := status.created
  locked := status.locked
  sessionHeld := sessionHeld
  projects := none
  secretsTotal := none
  secretsTotalExact := false
  agentsActive := none
  runsActive := none
  approvalsPending := none
  leasesActive := none
  idleLockSecs := none
  idleIn := none
  auditBytes := none
  auditSoftLimit := none
  auditHardLimit := none
  vaultBytes := none
  vaultMaxBytes := none

/-- A call whose failure leaves a part of the overview open, unless the session is over. -/
def callOrNone (op : String) (auth : Auth) (params : Value) : Cmd (Option Value) := do
  let r ← (call op auth params).attempt
  match r with
  | .ok v => pure (some v)
  | .error e => if e.code = "E_SESSION_EXPIRED" then .fail e else pure none

/-- How many secrets the projects have; nothing, once it cannot be told of one of them. -/
def countSecrets (auth : Auth) (total : Nat) : List String → Cmd (Option Nat)
  | [] => pure (some total)
  | name :: names => do
    let v ← callOrNone "secrets.list" auth (json [("project", .string name)])
    match v.bind (arrField · "secrets") with
    | some secrets => countSecrets auth (total + secrets.length) names
    | none => pure none

def projectNames (v : Value) : List String :=
  ((arrField v "projects").map fun items => items.filterMap (strField · "name")).getD []

def activeAgents (v : Value) : Option Nat :=
  (arrField v "agents").map fun items => (items.filter fun a => strField a "status" = some "active").length

/-- The secrets of the first projects, and whether these are all. -/
def secretsTotal (auth : Auth) (names : Option (List String)) : Cmd (Option Nat × Bool) :=
  match names with
  | none => pure (none, false)
  | some names => do
    let total ← countSecrets auth 0 (names.take OVERVIEW_SECRETS_PROJECT_CAP)
    pure (total, total.isSome && decide (names.length ≤ OVERVIEW_SECRETS_PROJECT_CAP))

/-- The counters of a vault that is open. -/
def countersOf (status : StatusOut) (sessionHeld : Bool) (auth : Auth) : Cmd OverviewOut := do
  let health ← callOrNone "vault.health" auth (json [])
  let projects ← callOrNone "project.list" auth (json [])
  let names := projects.map projectNames
  let agents ← callOrNone "agents.list" auth (json [])
  let total ← secretsTotal auth names
  pure {
    online := status.online
    trusted := status.trusted
    fingerprint := status.fingerprint
    version := status.version
    created := status.created
    locked := status.locked
    sessionHeld
    projects := names.map List.length
    secretsTotal := total.1
    secretsTotalExact := total.2
    agentsActive := agents.bind activeAgents
    runsActive := health.bind (u64Field · "runs_active")
    approvalsPending := health.bind (u64Field · "approvals_pending")
    leasesActive := health.bind (u64Field · "leases_active")
    idleLockSecs := health.bind (u64Field · "idle_lock_secs")
    idleIn := health.bind (u64Field · "idle_in")
    auditBytes := health.bind (u64Field · "audit_bytes")
    auditSoftLimit := health.bind (u64Field · "audit_soft_limit")
    auditHardLimit := health.bind (u64Field · "audit_hard_limit")
    vaultBytes := health.bind (u64Field · "vault_bytes")
    vaultMaxBytes := health.bind (u64Field · "vault_max_bytes") }

def overviewRefresh : Cmd OverviewOut := do
  let status ← getStatus
  let s ← Prog.get
  if status.locked ∨ ¬ status.online ∨ ¬ status.trusted then pure (postureOnly status s.session.isSome)
  else
    match sessionAuth s with
    | some auth => countersOf status s.session.isSome auth
    | none => pure (postureOnly status false)

/-! ## Projects and secrets -/

def ProjectEntry.read (p : Value) : Option ProjectEntry := do
  let name ← strField p "name"
  some ⟨name, strings p "paths"⟩

def SecretEntry.read (s : Value) : Option SecretEntry := do
  let key ← strField s "key"
  let updated ← strField s "updated"
  some ⟨key, updated⟩

def projectsList : Cmd (List ProjectEntry) := asHuman "project.list" (json []) (rows "projects" ProjectEntry.read)

def projectAdd (name : String) (paths : List String) : Cmd String :=
  asHuman "project.add" (json [("name", .string name), ("paths", .array (paths.map .string))]) (textOf "added")

def projectRemove (name : String) : Cmd String := asHuman "project.remove" (json [("name", .string name)])
    (textOf "removed")

def projectPathAdd (name path : String) : Cmd String :=
  asHuman "project.path.add" (json [("name", .string name), ("path", .string path)]) (textOf "added")

def projectPathRemove (name path : String) : Cmd String :=
  asHuman "project.path.remove" (json [("name", .string name), ("path", .string path)]) (textOf "removed")

def secretsList (project : String) : Cmd (List SecretEntry) :=
  asHuman "secrets.list" (json [("project", .string project)]) (rows "secrets" SecretEntry.read)

def secretSet (project key value : String) : Cmd String :=
  asHuman "secret.set" (json [("project", .string project), ("key", .string key), ("value", .string value)])
    (textOf "set")

def secretDelete (project key : String) : Cmd String :=
  asHuman "secret.delete" (json [("project", .string project), ("key", .string key)]) (textOf "deleted")

/-! ## Agents, grants and approvals -/

def AgentEntry.read (a : Value) : Option AgentEntry := do
  let name ← strField a "name"
  let status ← strField a "status"
  let tokenPrefix ← strField a "token_prefix"
  some ⟨name, status, tokenPrefix⟩

def agentsList : Cmd (List AgentEntry) := asHuman "agents.list" (json []) (rows "agents" AgentEntry.read)

/-- The token is in this answer, and in the file that is asked for. -/
def agentAdd (name : String) (tokenPath : Option String) : Cmd AgentAddOut := do
  let v ← asHuman "agents.add" (json [("name", .string name)]) .ok
  let agentId := (strField v "agent_id").getD ""
  let token := (strField v "token").getD ""
  match tokenPath.filter fun p => p ≠ "" with
  | none => pure ⟨agentId, token, none⟩
  | some path => do
    let written ← writeTokenFile path token
    .lift (.ofExcept (written.mapError fun e =>
      if e = .exists_ then ⟨"E_EXISTS", brokerMessage "E_EXISTS"⟩ else CmdError.ofVault e))
    pure ⟨agentId, token, some path⟩

def agentRevoke (name : String) : Cmd String := asHuman "agents.revoke" (json [("name", .string name)])
    (textOf "revoked")

def GrantEntry.read (g : Value) : Option GrantEntry := do
  let agent ← strField g "agent"
  let project ← strField g "project"
  some ⟨agent, project, strings g "ops", (boolField g "revoked").getD false⟩

def grantsList : Cmd (List GrantEntry) := asHuman "grants.list" (json []) (rows "grants" GrantEntry.read)

def grantSet (agent project ops : String) : Cmd String :=
  asHuman "grants.grant" (json [("agent", .string agent), ("project", .string project), ("ops", .string ops)])
    (textOf "granted")

def grantRevoke (agent project : String) : Cmd String :=
  asHuman "grants.revoke" (json [("agent", .string agent), ("project", .string project)]) (textOf "revoked")

def ApprovalEntry.read (a : Value) : Option ApprovalEntry := do
  let approvalId ← strField a "approval_id"
  let agent ← strField a "agent"
  let project ← strField a "project"
  let key ← strField a "key"
  let status ← strField a "status"
  let expiresAt ← strField a "expires_at"
  some ⟨approvalId, agent, project, key, status, expiresAt⟩

def approvalsPending : Cmd (List ApprovalEntry) := asHuman "approvals.pending" (json [])
    (rows "approvals" ApprovalEntry.read)

/-- A decision on an approval. -/
def decideApproval (op approvalId : String) : Cmd ApprovalDecisionOut :=
  asHuman op (json [("approval_id", .string approvalId)]) fun v =>
    .ok ⟨(strField v "approval_id").getD "", (strField v "status").getD ""⟩

def approvalApprove (approvalId : String) : Cmd ApprovalDecisionOut := decideApproval "approvals.approve" approvalId

def approvalDeny (approvalId : String) : Cmd ApprovalDecisionOut := decideApproval "approvals.deny" approvalId

/-! ## Reveal, leases and runs -/

/-- The value of a secret. -/
def reveal (project key : String) : Cmd String :=
  asHuman "reveal" (json [("project", .string project), ("key", .string key)]) fun v =>
    (strField v "value").elim (.error .protocol) .ok

def LeaseEntry.read (l : Value) : Option LeaseEntry := do
  let leaseId ← strField l "lease_id"
  let leasePrefix ← strField l "lease_prefix"
  let project ← strField l "project"
  let expiresAt ← strField l "expires_at"
  let status ← strField l "status"
  some ⟨leaseId, leasePrefix, project, strings l "ops", expiresAt, (u64Field l "expires_in").getD 0, status⟩

def leasesList : Cmd (List LeaseEntry) := asHuman "lease.list" (json []) (rowsOrError "leases" LeaseEntry.read)

def leaseRevoke (leaseId : String) : Cmd LeaseRevokeOut :=
  asHuman "lease.revoke" (json [("lease_id", .string leaseId)]) fun v =>
    .ok ⟨(strField v "lease_id").getD "", (boolField v "revoked").getD false⟩

def RunEntry.read (r : Value) : Option RunEntry := do
  let runId ← strField r "run_id"
  let agent ← strField r "agent"
  let project ← strField r "project"
  let startedAt ← strField r "started_at"
  let status ← strField r "status"
  some ⟨runId, agent, project, (i32Field r "pid").getD 0, startedAt, status⟩

def runsList : Cmd (List RunEntry) := asHuman "runs.list" (json []) (rowsOrError "runs" RunEntry.read)

/-! ## The audit log -/

def AuditEntryOut.read (l : Value) : Option AuditEntryOut := do
  let seq ← u64Field l "seq"
  let ts ← strField l "ts"
  let actor ← strField l "actor"
  let op ← strField l "op"
  let decision ← strField l "decision"
  some ⟨seq, ts, actor, op, strField l "project", strings l "keys", decision, strField l "reason", strField l "run_id",
    (strField l "mac").isSome⟩

/-- A page names the next one with a number, or with null, or not at all. -/
def nextBeforeSeq (v : Value) : Except CmdError (Option Nat) :=
  if v.present "next_before_seq" then (countOf "next_before_seq" v).map some else .ok none

def readPage (v : Value) : Except CmdError AuditShowOut := do
  let items ← (arrField v "entries").elim (.error CmdError.protocol) .ok
  let next ← nextBeforeSeq v
  .ok ⟨items.filterMap AuditEntryOut.read, next⟩

def auditShow (tail : UInt64) (beforeSeq : Option UInt64) : Cmd AuditShowOut :=
  if ¬ (1 ≤ tail.toNat ∧ tail.toNat ≤ 1000) then .fail ⟨"E_INVALID_INPUT", brokerMessage "E_INVALID_INPUT"⟩
  else
    asHuman "audit.show" (json (("tail", .posInt tail) :: (beforeSeq.map fun b => ("before_seq", .posInt b)).toList))
    readPage

def auditVerify : Cmd AuditVerifyOut :=
  asHuman "audit.verify" (json []) fun v => do
    let entries ← countOf "entries" v
    let macsVerified ← countOf "macs_verified" v
    let macsNull ← countOf "macs_null" v
    .ok ⟨entries, macsVerified, macsNull⟩

/-! ## Commands -/

/-- What the page can ask for, with what it is told. -/
inductive Command : Type → Type 1 where
  | getStatus : Command StatusOut
  | pinStatus : Command PinStatusOut
  | probeFingerprint : Command ProbeOut
  | unlock (passphrase : String) : Command UnlockOut
  | lock : Command LockOut
  | health : Command Value
  | overviewRefresh : Command OverviewOut
  | projectsList : Command (List ProjectEntry)
  | projectAdd (name : String) (paths : List String) : Command String
  | projectRemove (name : String) : Command String
  | projectPathAdd (name path : String) : Command String
  | projectPathRemove (name path : String) : Command String
  | secretsList (project : String) : Command (List SecretEntry)
  | secretSet (project key value : String) : Command String
  | secretDelete (project key : String) : Command String
  | agentsList : Command (List AgentEntry)
  | agentAdd (name : String) (tokenPath : Option String) : Command AgentAddOut
  | agentRevoke (name : String) : Command String
  | grantsList : Command (List GrantEntry)
  | grantSet (agent project ops : String) : Command String
  | grantRevoke (agent project : String) : Command String
  | approvalsPending : Command (List ApprovalEntry)
  | approvalApprove (approvalId : String) : Command ApprovalDecisionOut
  | approvalDeny (approvalId : String) : Command ApprovalDecisionOut
  | reveal (project key : String) : Command String
  | leasesList : Command (List LeaseEntry)
  | leaseRevoke (leaseId : String) : Command LeaseRevokeOut
  | runsList : Command (List RunEntry)
  | auditShow (tail : UInt64) (beforeSeq : Option UInt64) : Command AuditShowOut
  | auditVerify : Command AuditVerifyOut

def perform {α : Type} : Command α → Cmd α
  | .getStatus => getStatus
  | .pinStatus => pinStatus
  | .probeFingerprint => probeFingerprint
  | .unlock passphrase => unlock passphrase
  | .lock => lock
  | .health => health
  | .overviewRefresh => overviewRefresh
  | .projectsList => projectsList
  | .projectAdd name paths => projectAdd name paths
  | .projectRemove name => projectRemove name
  | .projectPathAdd name path => projectPathAdd name path
  | .projectPathRemove name path => projectPathRemove name path
  | .secretsList project => secretsList project
  | .secretSet project key value => secretSet project key value
  | .secretDelete project key => secretDelete project key
  | .agentsList => agentsList
  | .agentAdd name tokenPath => agentAdd name tokenPath
  | .agentRevoke name => agentRevoke name
  | .grantsList => grantsList
  | .grantSet agent project ops => grantSet agent project ops
  | .grantRevoke agent project => grantRevoke agent project
  | .approvalsPending => approvalsPending
  | .approvalApprove approvalId => approvalApprove approvalId
  | .approvalDeny approvalId => approvalDeny approvalId
  | .reveal project key => reveal project key
  | .leasesList => leasesList
  | .leaseRevoke leaseId => leaseRevoke leaseId
  | .runsList => runsList
  | .auditShow tail beforeSeq => auditShow tail beforeSeq
  | .auditVerify => auditVerify

end SecretsVault.Backend
