import SecretsVault.Host

/-!
# The vault document

`VaultDocument` is what the vault keeps: projects with their authorized folders, secrets, agents, grants, leases and
approvals, with the checkpoint of the audit log. The caps and the checks on names, keys, values and folders are those
every mutation goes through.

`activeGrant` is the grant in force for an agent on a project, `authorize` asks it for one operation.
-/

namespace SecretsVault

open Lib

def MAX_PROJECTS : Nat := 256
def MAX_SECRETS : Nat := 10000
def MAX_PATHS_PER_PROJECT : Nat := 32
def MAX_PATH_LEN : Nat := 4096
def MAX_PROJECT_NAME : Nat := 64
def MAX_KEY_LEN : Nat := 128
def MAX_VALUE_LEN : Nat := 64 * 1024
def MAX_AGENTS : Nat := 64
def MAX_LEASES : Nat := 1024
def MAX_APPROVALS : Nat := 1024
def MIN_LEASE_TTL_SECS : Nat := 1
def MAX_LEASE_TTL_SECS : Nat := 86400
def APPROVAL_PENDING_SECS : Nat := 600
def APPROVAL_CLAIM_SECS : Nat := 300

structure Project where
  id : String
  name : String
  paths : List Path
  createdAt : OffsetDateTime
  deriving DecidableEq, Repr

structure Secret where
  projectId : String
  key : String
  value : Bytes
  createdAt : OffsetDateTime
  updatedAt : OffsetDateTime
  deriving DecidableEq, Repr

/-- Operations a grant can authorize. -/
inductive Op where
  | read
  | inject
  | run
  | reveal
  | manage
  deriving DecidableEq, Repr

inductive AgentStatus where
  | active
  | revoked
  deriving DecidableEq, Repr

/-- An enrolled agent; only the digest of its token is kept. -/
structure AgentRecord where
  id : String
  name : String
  status : AgentStatus
  tokenHash : Bytes
  tokenPrefix : String
  createdAt : OffsetDateTime
  lastSeen : Option OffsetDateTime
  deriving DecidableEq, Repr

/-- A grant as it is listed. -/
structure GrantSummary where
  agent : String
  project : String
  ops : List Op
  revoked : Bool
  deriving DecidableEq, Repr

/-- The operations an agent has on a project until `revokedAt`. -/
structure Grant where
  agentId : String
  projectId : String
  ops : List Op
  createdAt : OffsetDateTime
  revokedAt : Option OffsetDateTime
  deriving DecidableEq, Repr

/-- A part of an agent's grant on one project, for a time. The handle `id` is public; presenting a lease takes the
credential, of which the digest is kept. -/
structure Lease where
  id : String
  agentId : String
  projectId : String
  ops : List Op
  credentialHash : Bytes
  credentialPrefix : String
  createdAt : OffsetDateTime
  expiresAt : OffsetDateTime
  revokedAt : Option OffsetDateTime
  deriving DecidableEq, Repr

/-- Stored approval state; expiry is computed from the windows. -/
inductive ApprovalStatus where
  | pending
  | approved
  | denied
  | consumed
  deriving DecidableEq, Repr

/-- A human's decision on revealing one secret to one agent. -/
structure Approval where
  id : String
  agentId : String
  projectId : String
  key : String
  status : ApprovalStatus
  createdAt : OffsetDateTime
  pendingExpiresAt : OffsetDateTime
  approvedAt : Option OffsetDateTime
  claimExpiresAt : Option OffsetDateTime
  deriving DecidableEq, Repr

/-- The audit entry of the last committed mutation. -/
structure AuditHead where
  seq : Nat
  hash : String
  deriving DecidableEq, Repr

/-- The checkpoint of an empty log. -/
def AuditHead.genesis : AuditHead := ⟨0, hex (FixedBytes.zero 32).1⟩

structure Meta where
  createdAt : OffsetDateTime
  deriving DecidableEq, Repr

/-- What the vault keeps. -/
structure VaultDocument where
  v : Nat
  «meta» : Meta
  projects : List Project
  secrets : List Secret
  agents : List AgentRecord
  grants : List Grant
  leases : List Lease
  approvals : List Approval
  auditHead : AuditHead
  deriving DecidableEq, Repr

/-- The lease is neither revoked nor past its end. -/
def Lease.live (l : Lease) (now : OffsetDateTime) : Bool := l.revokedAt.isNone && decide (now < l.expiresAt)

/-- The approval can still be decided or claimed, windows apart. -/
def ApprovalStatus.open_ : ApprovalStatus → Bool
  | .pending | .approved => true
  | .denied | .consumed => false

/-- Project names: 1-64 bytes of `[a-zA-Z0-9._-]`, not `.` or `..`. -/
def validProjectName (name : String) : Bool :=
  if name.isEmpty || decide (MAX_PROJECT_NAME < name.utf8ByteSize) || name == "." || name == ".." then false
  else name.toList.all fun c => c.isAlphanum || c == '.' || c == '_' || c == '-'

/-- Secret keys: `[A-Za-z_][A-Za-z0-9_]*`, at most 128 bytes. -/
def validKey (key : String) : Bool :=
  match key.toList with
  | [] => false
  | first :: rest =>
    if MAX_KEY_LEN < key.utf8ByteSize then false
    else (first.isAlpha || first == '_') && rest.all fun c => c.isAlphanum || c == '_'

namespace VaultDocument

/-- The document of a new vault. -/
def new (createdAt : OffsetDateTime) : VaultDocument :=
  { v := 1, «meta» := { createdAt }, projects := [], secrets := [], agents := [], grants := [], leases := [],
    approvals := [], auditHead := .genesis }

def projectByName (d : VaultDocument) (name : String) : Option Project := d.projects.find? fun p => p.name == name

def projectById (d : VaultDocument) (id : String) : Option Project := d.projects.find? fun p => p.id == id

def secret (d : VaultDocument) (projectId key : String) : Option Secret :=
  d.secrets.find? fun s => s.projectId == projectId && s.key == key

def agentByName (d : VaultDocument) (name : String) : Option AgentRecord := d.agents.find? fun a => a.name == name

def agentById (d : VaultDocument) (id : String) : Option AgentRecord := d.agents.find? fun a => a.id == id

/-- Whether the agent is enrolled and not revoked. -/
def agentActive (d : VaultDocument) (agentId : String) : Bool :=
  d.agents.any fun a => a.id == agentId && a.status == .active

/-- The grant in force is the first one of the pair that is not revoked. -/
def isActiveGrant (agentId projectId : String) (g : Grant) : Bool :=
  g.agentId == agentId && g.projectId == projectId && g.revokedAt.isNone

def activeGrant (d : VaultDocument) (agentId projectId : String) : Option Grant :=
  d.grants.find? (isActiveGrant agentId projectId)

/-- Whether the grant in force has the operation. -/
def authorize (d : VaultDocument) (agentId projectId : String) (op : Op) : Bool :=
  match d.activeGrant agentId projectId with
  | some g => g.ops.contains op
  | none => false

def checkNewAgentName (d : VaultDocument) (name : String) : Except VaultError Unit :=
  if !validProjectName name then
    .error (.invalidInput "agent name must be 1-64 chars of [a-zA-Z0-9._-] and not '.' or '..'")
  else if (d.agentByName name).isSome then .error .exists_
  else if MAX_AGENTS ≤ d.agents.length then .error (.invalidInput "too many agents")
  else .ok ()

def checkNewProjectName (d : VaultDocument) (name : String) : Except VaultError Unit :=
  if !validProjectName name then
    .error (.invalidInput "project name must be 1-64 chars of [a-zA-Z0-9._-] and not '.' or '..'")
  else if (d.projectByName name).isSome then .error .exists_
  else if MAX_PROJECTS ≤ d.projects.length then .error (.invalidInput "too many projects")
  else .ok ()

def checkNewSecretKey (d : VaultDocument) (projectId key : String) : Except VaultError Unit :=
  if !validKey key then
    .error (.invalidInput "secret key must match [A-Za-z_][A-Za-z0-9_]* (max 128 chars)")
  else if MAX_SECRETS ≤ d.secrets.length then .error (.invalidInput "too many secrets")
  else if (d.secret projectId key).isSome then .error .exists_
  else .ok ()

def checkSecretValue (value : Bytes) : Except VaultError Unit :=
  if value.isEmpty || decide (MAX_VALUE_LEN < value.length) then
    .error (.invalidInput "secret value must be 1-65536 bytes")
  else .ok ()

/-- The canonical form of a folder that may be authorized for a project. -/
def checkNewPath (fs : FileSystem) (project : Project) (path : Path) : Except VaultError Path :=
  match fs.canonicalize path with
  | none => .error (.invalidInput "path not usable (missing or inaccessible)")
  | some names =>
    let canonical := absolutePath names
    if !fs.isDir names then .error (.invalidInput "authorized path must be a directory")
    else if !isAbsolute canonical then .error (.invalidInput "authorized path must be absolute")
    else if MAX_PATH_LEN < canonical.utf8ByteSize then .error (.invalidInput "path too long")
    else if MAX_PATHS_PER_PROJECT ≤ project.paths.length then .error (.invalidInput "too many paths for project")
    else if project.paths.any (samePath · canonical) then .error .exists_
    else .ok canonical

/-- A project with secrets cannot be removed. -/
def checkProjectRemovable (d : VaultDocument) (projectId : String) : Except VaultError Unit :=
  if d.secrets.any fun s => s.projectId == projectId then
    .error (.invalidInput "project still has secrets; delete them first")
  else .ok ()

end VaultDocument

end SecretsVault
