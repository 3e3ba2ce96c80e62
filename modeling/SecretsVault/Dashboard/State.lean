import Mathlib.Data.List.Basic
import Mathlib.Data.String.Basic

/-!
# The state of the dashboard

The shell state of the dashboard and its transitions, without the page and without the calls to the backend. A
transition gives a new object; what a transition does not name is what the object before had.
-/

namespace SecretsVault.Dashboard

/-! ## What the backend answers -/

structure BrokerStatus where
  version : Nat
  created : String
  locked : Bool
  online : Bool
  trusted : Bool
  initialized : Bool
  fingerprint : Option String
  deriving DecidableEq, Repr

structure PinStatus where
  pinned : Bool
  fingerprint : Option String
  deriving DecidableEq, Repr

structure UnlockResponse where
  unlocked : Bool
  sessionPrefix : Option String
  expiresAt : Option String
  expiresIn : Option Nat
  maxExpiresAt : Option String
  maxExpiresIn : Option Nat
  deriving DecidableEq, Repr

structure HealthResponse where
  locked : Bool
  idleLockSecs : Nat
  idleIn : Option Nat
  auditBytes : Nat
  auditSoftLimit : Nat
  auditHardLimit : Nat
  vaultBytes : Nat
  vaultMaxBytes : Nat
  runsActive : Nat
  leasesActive : Option Nat
  approvalsPending : Option Nat
  deriving DecidableEq, Repr

structure OverviewData where
  online : Bool
  trusted : Bool
  fingerprint : Option String
  version : Nat
  created : String
  locked : Bool
  sessionHeld : Bool
  projects : Option Nat
  secretsTotal : Option Nat
  secretsTotalExact : Bool
  agentsActive : Option Nat
  runsActive : Option Nat
  approvalsPending : Option Nat
  leasesActive : Option Nat
  idleLockSecs : Option Nat
  idleIn : Option Nat
  auditBytes : Option Nat
  auditSoftLimit : Option Nat
  auditHardLimit : Option Nat
  vaultBytes : Option Nat
  vaultMaxBytes : Option Nat
  deriving DecidableEq, Repr

structure ProjectEntry where
  name : String
  paths : List String
  deriving DecidableEq, Repr

/-- A row of `secrets_list`, with the value that it must not carry. -/
structure SecretRow where
  key : String
  updated : String
  value : Option String
  deriving DecidableEq, Repr

structure SecretMeta where
  key : String
  updated : String
  deriving DecidableEq, Repr

structure AgentEntry where
  name : String
  status : String
  tokenPrefix : String
  deriving DecidableEq, Repr

structure GrantEntry where
  agent : String
  project : String
  ops : List String
  revoked : Bool
  deriving DecidableEq, Repr

structure ApprovalEntry where
  approvalId : String
  agent : String
  project : String
  key : String
  status : String
  expiresAt : String
  deriving DecidableEq, Repr

structure LeaseEntry where
  leaseId : String
  leasePrefix : String
  project : String
  ops : List String
  expiresAt : String
  expiresIn : Nat
  status : String
  deriving DecidableEq, Repr

structure RunEntry where
  runId : String
  agent : String
  project : String
  pid : Nat
  startedAt : String
  status : String
  deriving DecidableEq, Repr

structure AuditEntry where
  seq : Nat
  ts : String
  actor : String
  op : String
  project : Option String
  keys : List String
  decision : String
  reason : Option String
  runId : Option String
  authenticated : Bool
  deriving DecidableEq, Repr

structure AuditPage where
  entries : List AuditEntry
  nextBeforeSeq : Option Nat
  deriving DecidableEq, Repr

structure AuditVerifyResult where
  entries : Nat
  macsVerified : Nat
  macsNull : Nat
  deriving DecidableEq, Repr

structure AgentAddResult where
  agentId : String
  token : String
  tokenSavedPath : Option String
  deriving DecidableEq, Repr

/-- Why a call has failed: an object that may have a code and a message, a text, or anything else. -/
inductive ApiError where
  | object (code message : Option String)
  | text (s : String)
  | other
  deriving DecidableEq, Repr

structure MappedError where
  code : String
  message : String
  deriving DecidableEq, Repr

/-! ## The shell state -/

inductive Conn where
  | boot | offline | untrusted | mismatch | noVault | trusted
  deriving DecidableEq, Repr

inductive ConfirmKind where
  | project | path | secret | agent | grant | lease
  deriving DecidableEq, Repr

structure PendingConfirm where
  kind : ConfirmKind
  project : String
  extra : Option String
  deriving DecidableEq, Repr

inductive SecretForm where
  | add
  | edit (key : String)
  deriving DecidableEq, Repr

structure GrantDraft where
  agent : String
  project : String
  ops : List String
  deriving DecidableEq, Repr

structure GrantPair where
  agent : String
  project : String
  deriving DecidableEq, Repr

structure FormsState where
  pendingConfirm : Option PendingConfirm
  busyAction : Option String
  secretForm : Option SecretForm
  grantDraft : Option GrantDraft
  grantPair : Option GrantPair
  deriving DecidableEq, Repr

structure SessionState where
  present : Bool
  shownPrefix : Option String
  expiresAt : Option String
  expiresIn : Option Nat
  maxExpiresAt : Option String
  maxExpiresIn : Option Nat
  deriving DecidableEq, Repr

def SessionState.absent : SessionState := ⟨false, none, none, none, none, none⟩

inductive ProjectTab where
  | overview | secrets | access | paths
  deriving DecidableEq, Repr

structure AuditFilters where
  actor : String
  op : String
  project : String
  decision : String
  deriving DecidableEq, Repr

structure SettingsSlice where
  probedFingerprint : Option String
  probedAtMs : Nat
  deriving DecidableEq, Repr

structure ShellState where
  conn : Conn
  status : Option BrokerStatus
  pin : Option PinStatus
  session : SessionState
  unlockedAtMs : Nat
  health : Option HealthResponse
  error : Option MappedError
  fatal : Option MappedError
  sessionExpired : Bool
  overview : Option OverviewData
  projects : Option (List ProjectEntry)
  selectedProject : Option String
  projectTab : ProjectTab
  activeProject : Option String
  secrets : Option (List SecretMeta)
  agents : Option (List AgentEntry)
  selectedAgent : Option String
  grants : Option (List GrantEntry)
  approvals : Option (List ApprovalEntry)
  leases : Option (List LeaseEntry)
  runs : Option (List RunEntry)
  audit : Option AuditPage
  auditFilters : AuditFilters
  auditVerify : Option AuditVerifyResult
  settings : SettingsSlice
  forms : FormsState
  deriving DecidableEq, Repr

def initialForms : FormsState := ⟨none, none, none, none, none⟩

def initialAuditFilters : AuditFilters := ⟨"", "", "", ""⟩

def initialSettingsSlice : SettingsSlice := ⟨none, 0⟩

def initialState : ShellState :=
  { conn := .boot, status := none, pin := none, session := .absent, unlockedAtMs := 0, health := none, error := none,
    fatal := none, sessionExpired := false, overview := none, projects := none, selectedProject := none,
    projectTab := .overview, activeProject := none, secrets := none, agents := none, selectedAgent :=
    none, grants := none,
    approvals := none, leases := none, runs := none, audit := none, auditFilters := initialAuditFilters,
    auditVerify := none, settings := initialSettingsSlice, forms := initialForms }

/-! ## Posture, unlock and lock -/

def deriveConn (status : BrokerStatus) (pin : PinStatus) : Conn :=
  if !status.online then .offline
  else if !pin.pinned then .untrusted
  else if !status.trusted then .mismatch
  else if !status.initialized then .noVault
  else .trusted

/-- What a new posture keeps. -/
def applyBoot (prev : ShellState) (status : BrokerStatus) (pin : PinStatus) : ShellState :=
  { initialState with
    status := some status, pin := some pin, conn := deriveConn status pin, session := prev.session,
    unlockedAtMs := prev.unlockedAtMs, sessionExpired := prev.sessionExpired, overview := prev.overview,
    projects := prev.projects, selectedProject := prev.selectedProject, projectTab := prev.projectTab,
    activeProject := prev.activeProject, secrets := prev.secrets, agents := prev.agents,
    selectedAgent := prev.selectedAgent, grants := prev.grants, approvals := prev.approvals, leases := prev.leases,
    runs := prev.runs, forms := prev.forms }

def applyUnlockSuccess (prev : ShellState) (resp : UnlockResponse) (nowMs : Nat) : ShellState :=
  { prev with
    status := prev.status.map fun status => { status with locked := false }
    session := if resp.sessionPrefix.any (· ≠ "") then
        ⟨true, resp.sessionPrefix, resp.expiresAt, resp.expiresIn, resp.maxExpiresAt, resp.maxExpiresIn⟩
      else .absent
    unlockedAtMs := nowMs
    health := none
    error := none
    sessionExpired := false
    forms := initialForms }

/-- A lock clears every slice. -/
def applyLock : ShellState := initialState

/-! ## Errors -/

/-- Whether a code is one the dashboard knows: `E_` and capitals, digits or underscores, or one of three words. -/
def knownCode (code : String) : Bool :=
  code = "OFFLINE" || code = "UNTRUSTED" || code = "MISMATCH" ||
    match code.toList with
    | 'E' :: '_' :: rest => rest ≠ [] && rest.all fun c => c.isUpper || c.isDigit || c = '_'
    | _ => false

def mapError : ApiError → MappedError
  | .text s => ⟨"E_UNKNOWN", if s = "" then "Request failed." else s⟩
  | .object code message =>
    ⟨(code.filter (knownCode ·)).getD "E_UNKNOWN", (message.filter (· ≠ "")).getD "Request failed."⟩
  | .other => ⟨"E_UNKNOWN", "Request failed."⟩

def VAULT_CORRUPT : String := "E_VAULT_CORRUPT"

def applyError (prev : ShellState) (err : ApiError) : ShellState :=
  let mapped := mapError err
  if mapped.code = "E_SESSION_EXPIRED" then
    { prev with
      session := .absent, unlockedAtMs := 0, sessionExpired := true, health := none, overview := prev.overview,
      error := some mapped }
  else if mapped.code = "E_BROKER_UNTRUSTED" ∨ mapped.code = "MISMATCH" then
    { prev with conn := .mismatch, session := .absent, unlockedAtMs := 0, health := none, error := some mapped }
  else if mapped.code = "OFFLINE" then { prev with conn := .offline, error := some mapped }
  else if mapped.code = VAULT_CORRUPT then { prev with error := some mapped, fatal := some mapped }
  else match prev.status with
    | some status =>
      if mapped.code = "E_LOCKED" then { prev with status := some { status with locked := true }, error := some mapped }
      else { prev with error := some mapped }
    | none => { prev with error := some mapped }

/-! ## Lists -/

def applyOverview (prev : ShellState) (data : OverviewData) : ShellState :=
  { prev with overview := some data, error := none }

/-- A list of projects: the selection and the active project stay if they are on it. -/
def applyProjects (prev : ShellState) (projects : List ProjectEntry) : ShellState :=
  let clean := projects.filter (·.name ≠ "")
  let present (name : Option String) : Bool := name.any fun n => clean.any (·.name = n)
  let activeProject := if present prev.activeProject then prev.activeProject else clean.head?.map (·.name)
  { prev with
    projects := some clean
    selectedProject := if present prev.selectedProject then prev.selectedProject else none
    activeProject
    secrets := if activeProject ≠ prev.activeProject then none else prev.secrets
    error := none }

def applyActiveProject (prev : ShellState) (name : String) : ShellState :=
  if some name = prev.activeProject then prev
  else { prev with activeProject := some name, secrets := none, error := none, forms := initialForms }

def applySelectedProject (prev : ShellState) (name : Option String) : ShellState :=
  { prev with selectedProject := name }

/-- The list of the keys of a project. A row that carries a value is refused. -/
def applySecrets (prev : ShellState) (project : String) (secrets : List SecretRow) : Except ApiError ShellState :=
  let clean := secrets.filter (·.key ≠ "")
  if clean.any (·.value.isSome) then .error (.object none (some "secret row must not carry a value field"))
  else .ok { prev with
    activeProject := some project, secrets := some (clean.map fun e => ⟨e.key, e.updated⟩), error := none }

def applyMutationStart (prev : ShellState) (action : String) : ShellState :=
  { prev with forms := ⟨none, some action, none, none, prev.forms.grantPair⟩, error := none }

def applyMutationDone (prev : ShellState) : ShellState := { prev with forms := { prev.forms with busyAction := none } }

def applyAgents (prev : ShellState) (agents : List AgentEntry) : ShellState :=
  let clean := agents.filter (·.name ≠ "")
  { prev with
    agents := some clean
    selectedAgent := prev.selectedAgent.filter fun n => clean.any (·.name = n)
    error := none }

def applyGrants (prev : ShellState) (grants : List GrantEntry) : ShellState :=
  { prev with grants := some (grants.filter fun g => g.agent ≠ "" && g.project ≠ ""), error := none }

def applyApprovals (prev : ShellState) (approvals : List ApprovalEntry) : ShellState :=
  { prev with approvals := some (approvals.filter (·.approvalId ≠ "")), error := none }

def applyLeases (prev : ShellState) (leases : List LeaseEntry) : ShellState :=
  { prev with leases := some (leases.filter (·.leaseId ≠ "")), error := none }

def applyRuns (prev : ShellState) (runs : List RunEntry) : ShellState :=
  { prev with runs := some (runs.filter (·.runId ≠ "")), error := none }

def applyProjectTab (prev : ShellState) (tab : ProjectTab) : ShellState := { prev with projectTab := tab }

def applySelectedAgent (prev : ShellState) (name : Option String) : ShellState := { prev with selectedAgent := name }

/-! ## The audit timeline and the settings -/

def AUDIT_PAGE_SIZE : Nat := 50

def sanitizeAuditEntry (row : AuditEntry) : AuditEntry :=
  { row with
    project := row.project.filter (· ≠ ""), reason := row.reason.filter (· ≠ ""), runId := row.runId.filter (· ≠ "") }

def sanitizeAuditPage (page : AuditPage) : AuditPage := ⟨page.entries.map sanitizeAuditEntry, page.nextBeforeSeq⟩

def applyAuditFirstPage (prev : ShellState) (page : AuditPage) : ShellState :=
  { prev with audit := some (sanitizeAuditPage page), error := none }

/-- An older page is merged: entries that are there already are dropped, and the rest sorted by their number. -/
def applyAuditOlderPage (prev : ShellState) (page : AuditPage) : ShellState :=
  let incoming := sanitizeAuditPage page
  match prev.audit with
  | none => { prev with audit := some incoming, error := none }
  | some existing =>
    let fresh := incoming.entries.filter fun e => !existing.entries.any (·.seq = e.seq)
    { prev with
      audit := some ⟨(existing.entries ++ fresh).mergeSort (fun a b => decide (a.seq ≤ b.seq)), incoming.nextBeforeSeq⟩
      error := none }

def clearAudit (prev : ShellState) : ShellState :=
  { prev with audit := none, auditVerify := none, auditFilters := initialAuditFilters }

def applyAuditVerify (prev : ShellState) (r : AuditVerifyResult) : ShellState :=
  { prev with auditVerify := some r, error := none }

/-- A change of some of the filters. -/
structure AuditFilterChange where
  actor : Option String
  op : Option String
  project : Option String
  decision : Option String

def applyAuditFilters (prev : ShellState) (f : AuditFilterChange) : ShellState :=
  { prev with
    auditFilters := ⟨f.actor.getD prev.auditFilters.actor, f.op.getD prev.auditFilters.op,
      f.project.getD prev.auditFilters.project, f.decision.getD prev.auditFilters.decision⟩ }

def applySettingsProbe (prev : ShellState) (fingerprint : String) (nowMs : Nat) : ShellState :=
  { prev with settings := ⟨if fingerprint = "" then none else some fingerprint, nowMs⟩ }

/-! ## What the shell shows -/

def canOfferUnlock (s : ShellState) : Bool := s.conn = .trusted && s.status.any (·.locked)

/-- Whether the unlock gate is shown: the vault is locked, or the human session has expired. -/
def needsUnlockGate (s : ShellState) : Bool := canOfferUnlock s || (s.conn = .trusted && s.sessionExpired)

def sessionHeld (s : ShellState) : Bool :=
  match s.overview with
  | some o => o.sessionHeld
  | none => s.session.present

/-- The ops of the active grant of an agent on a project. -/
def activeGrantOps (s : ShellState) (agent project : String) : Option (List String) :=
  s.grants.bind fun grants =>
    (grants.find? fun g => g.agent = agent && g.project = project && !g.revoked).map (·.ops)

def grantWidens (current proposed : List String) : Bool := proposed.any fun c => !current.contains c

inductive RouteId where
  | overview | projects | secrets | agents | grants | leases | approvals | runs | audit | settings
  deriving DecidableEq, Repr

end SecretsVault.Dashboard
