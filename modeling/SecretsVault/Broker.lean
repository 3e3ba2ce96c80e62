import SecretsVault.ManagedRuns

/-!
# The broker

The daemon owns the session of the vault and the registry of live runs, and answers one request at a time. A request is
authenticated (`authenticate`), gated (`dispatch`), and performed by the arm of its operation (`arms`); each arm reads
its parameters and asks the session. `Broker Session` is the daemon while the session mutex is held, `Daemon` between
requests.

Every call of the session meets the next of the conditions `ahead`: time passes between two calls of one request.
-/

namespace SecretsVault

open Lib Lib.Prog Host

/-- Operations that take a human. -/
def HUMAN_ONLY : List String :=
  ["vault.create", "vault.unlock", "project.add", "project.list", "project.path.add", "project.path.remove",
    "project.remove", "secret.set", "secret.delete", "agents.add", "agents.revoke", "agents.list", "grants.grant",
    "grants.revoke", "grants.list", "audit.show", "audit.verify", "approvals.pending", "approvals.approve",
    "approvals.deny", "session.open", "session.touch", "session.close", "runs.list", "vault.health"]

/-- Operations whose `lease_id` names what they act on. -/
def LEASE_ID_IS_TARGET : List String := ["lease.revoke"]

/-- How times and audit lines are shown. -/
class Rendering where
  time : OffsetDateTime → String
  auditLine : AuditLine → Value

structure DaemonConfig where
  vaultPath : Path
  idleLock : Nat
  deriving DecidableEq, Repr

/-- The daemon around its session, with what its next calls will meet: conditions, signals that fail, and the processes
that are spawned. -/
structure Broker (σ : Type) where
  config : DaemonConfig
  session : σ
  runs : RunRegistry
  host : Host
  ahead : Nat → Conditions
  signals : Nat → Option IoError
  spawns : Nat → Except IoError Int

/-- The daemon between requests. It has no session while there is no vault. -/
abbrev Daemon := Broker (Option Session)

/-- What runs while the session mutex is held. -/
abbrev BrokerProg (α : Type) := Prog WireError (Broker Session) α

/-- Who a request is from. -/
inductive Identity where
  | human
  | agent (id : String)
  | unauthenticated
  deriving DecidableEq, Repr

def Identity.agent? : Identity → Option String
  | .agent id => some id
  | _ => none

/-- What is known of a request when its arm runs. -/
structure OpContext where
  actor : String
  identity : Identity
  proof : Option DerivedKeks

/-! ## Parameters -/

/-- The lease credential that is presented. A handle in its place is refused. -/
def leaseCredentialParam (req : Request) : Except String (Option String) :=
  match req.params.asObject with
  | none => .error "params must be an object"
  | some _ =>
    if req.params.present "lease_id" then
      .error "lease_id is a public handle and does not authorize; present the credential instead"
    else
      match req.params.get? "lease" with
      | none | some .null => .ok none
      | some (.string s) => if s.isEmpty then .error "invalid lease credential" else .ok (some s)
      | some _ => .error "invalid lease credential"

/-- A human presents no lease, and names one only as the target of an operation. -/
def rejectLeaseOnHumanOp (req : Request) : Except String Unit :=
  match req.params.asObject with
  | none => .error "params must be an object"
  | some _ =>
    if req.params.present "lease" || (!LEASE_ID_IS_TARGET.contains req.op && req.params.present "lease_id") then
      .error "human operations take no lease; leases narrow agent grants only"
    else .ok ()

/-- The selected keys; none is every key. -/
def keysParam (params : Value) : Except String (Option (List String)) :=
  match params.get? "keys" with
  | none | some .null => .ok none
  | some (.array items) =>
    match items.mapM Value.asStr with
    | some keys => .ok (some keys)
    | none => .error "keys must be an array of strings"
  | some _ => .error "keys must be an array of strings"

/-- The name and the folders of a new project. -/
def projectParams (req : Request) : Option (String × List Path) :=
  (req.str "name").map fun name =>
    (name, match (req.params.index "paths").asArray with
      | some items => items.filterMap Value.asStr
      | none => [])

/-- White space gone from both ends. -/
def trim (s : List Char) : List Char :=
  ((s.dropWhile isUnicodeWhitespace).reverse.dropWhile isUnicodeWhitespace).reverse

namespace Op

def ofName (name : String) : Option Op :=
  if name = "read" then some .read
  else if name = "inject" then some .inject
  else if name = "run" then some .run
  else if name = "reveal" then some .reveal
  else if name = "manage" then some .manage
  else none

/-- A comma-separated list of operations. -/
def parseList (spec : String) : Except VaultError (List Op) :=
  match ((spec.toList.splitOn ',').filter fun part => !part.isEmpty).mapM fun part =>
    ofName (String.ofList (trim part)) with
  | some ops => .ok ops
  | none => .error (.invalidInput "ops must be a comma-separated list of read/inject/run/reveal/manage")

def name : Op → String
  | .read => "read"
  | .inject => "inject"
  | .run => "run"
  | .reveal => "reveal"
  | .manage => "manage"

end Op

def AgentStatus.name : AgentStatus → String
  | .active => "active"
  | .revoked => "revoked"

section

variable [Crypto] [VaultJson] [AuditJson]

/-! ## Asking the session -/

/-- What is answered for the outcome of a call. -/
def answered {α : Type} : Outcome VaultError α → Outcome WireError α
  | .ok a => .ok a
  | .error e => .error e.wire
  | .panic => .panic

/-- Ask the session; its error is the answer. -/
def ask {α : Type} (c : Call α) : BrokerProg α := .step fun b =>
  match c.exec.run ⟨b.session, b.host.under (b.ahead 0)⟩ with
  | (o, t) => (answered o, { b with session := t.session, host := t.host, ahead := fun i => b.ahead (i + 1) })

/-- Ask the session, whatever it answers. -/
def tell {α : Type} (c : Call α) : BrokerProg Unit := (ask c).ignore

/-- Look at the clocks. -/
def glance : BrokerProg Host := .step fun b =>
  (.ok (b.host.under (b.ahead 0)), { b with host := b.host.under (b.ahead 0), ahead := fun i => b.ahead (i + 1) })

/-- A parameter that must be there. -/
def need {α : Type} (o : Option α) (msg : String) : BrokerProg α := .lift (.ofOption (.invalidInput msg) o)

/-- A parameter whose refusal is recorded. -/
def checked {α : Type} (actor op : String) (project : Option String) : Except String α → BrokerProg α
  | .ok a => pure a
  | .error why => do
    tell (.denied actor op project (.invalidInput why))
    .fail (.invalidInput why)

/-- Record the runs that a withdrawal took. -/
def revokeRuns (actor : String) : RunRegistry → BrokerProg Unit
  | [] => pure ()
  | (runId, run) :: rest => do
    tell (.runRevoked actor run.project runId)
    revokeRuns actor rest

/-- Take every matching run out of the registry; their process groups are ended. -/
def terminateMatchingRuns (actor : String) (agent project : Option String) : BrokerProg Unit := do
  let b ← .get
  .modify fun b => { b with runs := (b.runs.takeMatching agent project).2 }
  revokeRuns actor (b.runs.takeMatching agent project).1

/-- The one way the daemon locks: record it, end every run, revoke what is live, drop the keys. -/
def lockAndDrain (actor : String) : BrokerProg Unit := do
  tell (.auditRecord { actor, op := "vault.lock", decision := .allowed } .lifecycle)
  terminateMatchingRuns actor none none
  ask .lockPersist

/-- Lock a vault whose idle window has passed. -/
def idleLock : BrokerProg Unit := do
  let h ← glance
  let b ← .get
  if b.session.idleExpired h.mono && !b.session.isLocked then lockAndDrain "human" else pure ()

/-- The next signal to a process group. -/
def signalGroup (pgid : Int) : BrokerProg Unit := .step fun b =>
  if pgid ≤ 0 then (.error (VaultError.io none "invalid pgid").wire, b)
  else (match b.signals 0 with
      | none => .ok ()
      | some e => .error e.toVaultError.wire,
    { b with signals := fun i => b.signals (i + 1) })

variable [Rendering]

/-- When the windows of a session end, for display. -/
def sessionDisplayTimes (expiresIn maxExpiresIn : Nat) : BrokerProg (String × String) := do
  let h ← glance
  pure (Rendering.time (h.wall + seconds expiresIn), Rendering.time (h.wall + seconds maxExpiresIn))

/-! ## The arms -/

/-- An operation on the parameters of a request. -/
abbrev Arm := Request → OpContext → BrokerProg Value

/-- An operation for agents only. -/
def forAgents (msg : String) (arm : String → Arm) : Arm := fun req ctx =>
  match ctx.identity.agent? with
  | some agentId => arm agentId req ctx
  | none => .fail (.of "E_AUTH" msg)

/-- An operation for agents only, whose refusal is recorded. -/
def forAgentsRecorded (op msg : String) (arm : String → Arm) : Arm := fun req ctx =>
  match ctx.identity.agent? with
  | some agentId => arm agentId req ctx
  | none => do
    tell (.denied ctx.actor op none .auth)
    .fail (.of "E_AUTH" msg)

def injectFileArm : Arm := forAgentsRecorded "inject_file" "inject_file requires agent credentials"
    fun agentId req ctx => do
  let project ← need (req.str "project") "missing project"
  let path ← need (req.str "path") "missing path"
  let b ← .get
  if b.session.isLocked then
    tell (.denied ctx.actor "inject_file" (some project) .locked)
    .fail (.of "E_LOCKED" "vault is locked")
  else
    let credential ← checked ctx.actor "inject_file" (some project) (leaseCredentialParam req)
    let opActor ← ask (.authorizeLease agentId project .inject credential)
    let keys ← checked ctx.actor "inject_file" (some project) (keysParam req.params)
    let report ← ask (.injectFile opActor project path keys)
    pure (.object [("path", .string report.path), ("count", .count report.keys.length),
      ("keys", .array (report.keys.map .string))])

def vaultStatusArm : Arm := fun _ ctx => do
  let b ← .get
  ask (.auditRecord { actor := ctx.actor, op := "vault.status", decision := .allowed } .ordinary)
  pure (.object [("version", .count VERSION), ("created", .string (Rendering.time b.session.envelope.header.createdAt)),
    ("locked", .bool b.session.isLocked)])

def vaultLockArm : Arm := fun _ ctx => do
  lockAndDrain ctx.actor
  pure (.object [("locked", .bool true)])

def secretsListArm : Arm := fun req ctx => do
  let project ← need (req.str "project") "missing project"
  let b ← .get
  if ctx.identity.agent?.isSome && b.session.isLocked then
    tell (.denied ctx.actor "secrets.list" (some project) .locked)
    .fail (.of "E_LOCKED" "vault is locked")
  else
    let opActor ← match ctx.identity.agent? with
      | some agentId => do
        let credential ← .lift (.ofExcept ((leaseCredentialParam req).mapError WireError.invalidInput))
        ask (.authorizeLease agentId project .read credential)
      | none => pure ctx.actor
    let list ← ask (.secretList project opActor)
    pure (.object [("secrets", .array (list.map fun (k, u) =>
      .object [("key", .string k), ("updated", .string (Rendering.time u))]))])

/-- The vault is open once this succeeds; the session it seeds may be missing from the answer. -/
def vaultUnlockArm : Arm := fun req ctx => do
  if req.session.isSome then .fail (.of "E_SESSION_EXPIRED" "session expired or revoked")
  else
    let derived ← .lift (.ofOption (.of "E_AUTH" "authentication failed") ctx.proof)
    ask (.unlockWithProof derived)
    match ← (ask (.sessionOpen ctx.actor SESSION_DEFAULT_TTL_SECS)).attempt with
    | .ok (credential, displayPrefix, expiresIn, maxExpiresIn) => do
      let (expiresAt, maxExpiresAt) ← sessionDisplayTimes expiresIn maxExpiresIn
      pure (.object [("unlocked", .bool true), ("session_credential", .string credential),
        ("session_prefix", .string displayPrefix), ("expires_at", .string expiresAt), ("expires_in", .count expiresIn),
        ("max_expires_at", .string maxExpiresAt), ("max_expires_in", .count maxExpiresIn)])
    | .error _ => pure (.object [("unlocked", .bool true)])

def vaultCreateArm : Arm := fun _ _ => .fail (.of "E_EXISTS" "vault already exists")

def projectAddArm : Arm := fun req ctx => do
  let (name, paths) ← need (projectParams req) "missing project name"
  let _ ← ask (.mutate (.projectAdd ctx.actor name paths))
  pure (.object [("added", .string name)])

def projectListArm : Arm := fun _ ctx => do
  let list ← ask (.projectList ctx.actor)
  pure (.object [("projects", .array (list.map fun p =>
    .object [("name", .string p.name), ("paths", .array (p.paths.map .string))]))])

def projectPathAddArm : Arm := fun req ctx => do
  let (name, path) ← need (do pure (← req.str "name", ← req.str "path")) "missing name or path"
  ask (.mutate (.projectPathAdd ctx.actor name path))
  pure (.object [("added", .string path)])

def projectPathRemoveArm : Arm := fun req ctx => do
  let (name, path) ← need (do pure (← req.str "name", ← req.str "path")) "missing name or path"
  ask (.mutate (.projectPathRemove ctx.actor name path))
  pure (.object [("removed", .string path)])

def projectRemoveArm : Arm := fun req ctx => do
  let name ← need (req.str "name") "missing name"
  ask (.mutate (.projectRemove ctx.actor name))
  pure (.object [("removed", .string name)])

def secretSetArm : Arm := fun req ctx => do
  let (project, key, value) ← need (do pure (← req.str "project", ← req.str "key", ← req.str "value"))
    "missing project, key or value"
  ask (.mutate (.secretSet ctx.actor project key value.toUTF8.toList))
  pure (.object [("set", .string (project ++ "/" ++ key))])

def secretDeleteArm : Arm := fun req ctx => do
  let (project, key) ← need (do pure (← req.str "project", ← req.str "key")) "missing project or key"
  ask (.mutate (.secretDelete ctx.actor project key))
  pure (.object [("deleted", .string (project ++ "/" ++ key))])

def agentsAddArm : Arm := fun req ctx => do
  let name ← need (req.str "name") "missing name"
  let (agentId, token) ← ask (.mutate (.agentAdd ctx.actor name))
  pure (.object [("agent_id", .string agentId), ("token", .string token)])

def agentsRevokeArm : Arm := fun req ctx => do
  let name ← need (req.str "name") "missing name"
  let b ← .get
  ask (.mutate (.agentRevoke ctx.actor name))
  match b.session.document.bind (·.agentByName name) with
  | none => .lift .panic
  | some agent =>
    terminateMatchingRuns ctx.actor (some agent.id) none
    pure (.object [("revoked", .string name)])

def agentsListArm : Arm := fun _ ctx => do
  let list ← ask (.agentList ctx.actor)
  pure (.object [("agents", .array (list.map fun (name, status, tokenPrefix) =>
    .object [("name", .string name), ("status", .string status.name), ("token_prefix", .string tokenPrefix)]))])

/-- A grant without `run` where there was one with it ends the runs of the pair. -/
def grantsGrantArm : Arm := fun req ctx => do
  let (agent, project) ← need (do pure (← req.str "agent", ← req.str "project")) "missing agent or project"
  let ops ← .lift (.ofExcept ((Op.parseList ((req.str "ops").getD "")).mapError VaultError.wire))
  let b ← .get
  let previousRunGrant : Option (String × Bool) := do
    let doc ← b.session.document
    let a ← doc.agentByName agent
    let p ← doc.projectByName project
    pure (a.id, doc.authorize a.id p.id .run)
  ask (.mutate (.grantAdd ctx.actor agent project ops))
  match previousRunGrant with
  | some (agentId, true) =>
    if ops.contains .run then pure () else terminateMatchingRuns "human" (some agentId) (some project)
  | _ => pure ()
  pure (.object [("granted", .string (agent ++ "/" ++ project))])

def grantsRevokeArm : Arm := fun req ctx => do
  let (agent, project) ← need (do pure (← req.str "agent", ← req.str "project")) "missing agent or project"
  let b ← .get
  ask (.mutate (.grantRevoke ctx.actor agent project))
  match b.session.document.bind (·.agentByName agent) with
  | none => .lift .panic
  | some a =>
    terminateMatchingRuns ctx.actor (some a.id) (some project)
    pure (.object [("revoked", .string (agent ++ "/" ++ project))])

def grantsListArm : Arm := fun _ ctx => do
  let list ← ask (.grantList ctx.actor)
  pure (.object [("grants", .array (list.map fun g =>
    .object [("agent", .string g.agent), ("project", .string g.project),
      ("ops", .array (g.ops.map fun o => .string o.name)), ("revoked", .bool g.revoked)]))])

def auditShowArm : Arm := fun req ctx => do
  let tail ← need (((req.params.get? "tail").getD (.count 20)).asU64) "tail must be 1..=1000"
  if tail < 1 ∨ 1000 < tail then .fail (.invalidInput "tail must be 1..=1000")
  else
    let beforeSeq ← match req.params.given? "before_seq" with
      | none => pure none
      | some v => some <$> need v.asU64 "invalid before_seq"
    let (lines, next) ← ask (.auditShowPage ctx.actor tail beforeSeq)
    pure (.object [("entries", .array (lines.map Rendering.auditLine)),
      ("next_before_seq", match next with
        | some n => .count n
        | none => .null)])

def auditVerifyArm : Arm := fun _ _ => do
  let report ← ask .auditVerify
  pure (.object [("entries", .count report.entries), ("macs_verified", .count report.macsVerified),
    ("macs_null", .count report.macsNull)])

def leaseCreateArm : Arm := forAgents "lease.create requires agent credentials" fun agentId req ctx => do
  let project ← need (req.str "project") "missing project"
  let ops ← .lift (.ofExcept ((Op.parseList ((req.str "ops").getD "")).mapError VaultError.wire))
  let ttlSecs ← need (req.params.index "ttl_secs").asU64 "missing ttl_secs"
  let (lease, credential) ← ask (.mutate (.leaseCreate ctx.actor agentId project ops ttlSecs))
  pure (.object [("lease_id", .string lease.id), ("lease_prefix", .string lease.credentialPrefix),
    ("lease_credential", .string credential), ("expires_at", .string (Rendering.time lease.expiresAt)),
    ("expires_in", .count ttlSecs)])

/-- A lease as it is listed. -/
def showLease (doc : Option VaultDocument) (now : OffsetDateTime) (lease : Lease) : Value :=
  .object [("lease_id", .string lease.id), ("lease_prefix", .string lease.credentialPrefix),
    ("project", .string (((doc.bind (·.projectById lease.projectId)).map (·.name)).getD "")),
    ("ops", .array (lease.ops.map fun o => .string o.name)), ("expires_at", .string (Rendering.time lease.expiresAt)),
    ("expires_in", .count (asSecs (lease.expiresAt - now).toNat)),
    ("status", .string
      (if lease.revokedAt.isSome then "revoked" else if lease.expiresAt ≤ now then "expired" else "active"))]

def leaseListArm : Arm := fun _ ctx => do
  let leases ← ask (.leaseList ctx.actor ctx.identity.agent?)
  let h ← glance
  let b ← .get
  pure (.object [("leases", .array (leases.map (showLease b.session.document h.wall)))])

def leaseRevokeArm : Arm := fun req ctx => do
  let leaseId ← need (req.str "lease_id") "missing lease_id"
  ask (.mutate (.leaseRevoke ctx.actor ctx.identity.agent? leaseId))
  pure (.object [("lease_id", .string leaseId), ("revoked", .bool true)])

/-- A revealed value, which must be a text. -/
def revealed? (value : Bytes) : BrokerProg Value :=
  match fromUtf8 value with
  | some text => pure (.object [("value", .string text)])
  | none => .fail (.invalidInput "secret is not valid UTF-8")

def revealHumanArm : Arm := fun req ctx => do
  if req.params.present "approval_id" then .fail (.invalidInput "human reveal takes no approval_id")
  else
    let project ← need (req.str "project") "missing project"
    let key ← need (req.str "key") "missing key"
    let value ← ask (.revealHuman ctx.actor project key)
    revealed? value

/-- An agent claims an approval, or asks for one. -/
def revealAgentArm (agentId : String) : Arm := fun req _ => do
  let project ← need (req.str "project") "missing project"
  let key ← need (req.str "key") "missing key"
  let credential ← .lift (.ofExcept ((leaseCredentialParam req).mapError WireError.invalidInput))
  let opActor ← ask (.authorizeLease agentId project .reveal credential)
  match req.str "approval_id" with
  | some approvalId => do
    let value ← ask (.mutate (.revealClaim opActor agentId project key approvalId))
    revealed? value
  | none => do
    let approval ← ask (.mutate (.approvalRequest opActor agentId project key))
    let h ← glance
    .fail { code := "E_APPROVAL_PENDING", msg := "approval pending",
            data := some (.object [("approval_id", .string approval.id),
              ("expires_in", .count (asSecs (approval.pendingExpiresAt - h.wall).toNat))]) }

def revealArm : Arm := fun req ctx =>
  if ctx.identity = .human then revealHumanArm req ctx
  else forAgents "reveal requires agent credentials" revealAgentArm req ctx

def approvalsStatusArm : Arm := forAgents "approvals.status requires agent credentials" fun agentId req _ => do
  let approvalId ← need (req.str "approval_id") "missing approval_id"
  let status ← ask (.approvalStatus agentId approvalId)
  let h ← glance
  let b ← .get
  let approval := b.session.document.bind fun d => d.approvals.find? fun a => a.id == approvalId
  let project := (approval.bind fun a => (b.session.document.bind (·.projectById a.projectId)).map (·.name)).getD ""
  let expiresIn := (approval.map fun a => asSecs ((a.claimExpiresAt.getD a.pendingExpiresAt) - h.wall).toNat).getD 0
  pure (.object [("approval_id", .string approvalId), ("status", .string status), ("project", .string project),
    ("key", .string ((approval.map (·.key)).getD "")), ("expires_in", .count expiresIn)])

/-- A pending approval as it is listed. -/
def showApproval (doc : Option VaultDocument) (a : Approval) : Value :=
  .object [("approval_id", .string a.id),
    ("agent", .string (((doc.bind (·.agentById a.agentId)).map (·.name)).getD "")),
    ("project", .string (((doc.bind (·.projectById a.projectId)).map (·.name)).getD "")), ("key", .string a.key),
    ("status", .string "pending"), ("expires_at", .string (Rendering.time a.pendingExpiresAt))]

def approvalsPendingArm : Arm := fun _ ctx => do
  let approvals ← ask (.approvalPending ctx.actor)
  let b ← .get
  pure (.object [("approvals", .array (approvals.map (showApproval b.session.document)))])

def approvalsDecideArm (approved : Bool) : Arm := fun req ctx => do
  let approvalId ← need (req.str "approval_id") "missing approval_id"
  ask (.mutate (.approvalDecide ctx.actor approvalId approved))
  pure (.object [("approval_id", .string approvalId), ("status", .string (if approved then "approved" else "denied"))])

/-- A recorded refusal of a signal. -/
def refuseSignal {α : Type} (actor project runId : String) (e : WireError) : BrokerProg α := do
  tell (.runSignal actor project runId .denied (some e.code))
  .fail e

/-- A parameter whose absence is recorded. -/
def needRecorded {α : Type} (actor op : String) (o : Option α) (msg : String) : BrokerProg α :=
  checked actor op none (match o with
    | some a => .ok a
    | none => .error msg)

def runSignalArm : Arm := forAgentsRecorded "run_signal" "run_signal requires agent credentials"
    fun agentId req ctx => do
  let runId ← needRecorded ctx.actor "run_signal" (req.str "run_id") "missing run_id"
  let sigName ← needRecorded ctx.actor "run_signal" (req.str "signal") "missing signal"
  let notFound {α : Type} : BrokerProg α := do
    tell (.denied ctx.actor "run_signal" none .notFound)
    .fail VaultError.notFound.wire
  let b ← .get
  match b.runs.lookupOwned agentId runId with
  | none => notFound
  | some run =>
    match ← (ask .ensureRunUnlocked).attempt with
    | .error _ => refuseSignal ctx.actor run.project runId VaultError.locked.wire
    | .ok () =>
      let b ← .get
      let authorized := (do
        let d ← b.session.document
        let p ← d.projectByName run.project
        pure (d.authorize agentId p.id .run)).getD false
      if !authorized then refuseSignal ctx.actor run.project runId VaultError.permission.wire
      else
        match parseSignal sigName with
        | .error e => refuseSignal ctx.actor run.project runId e.wire
        | .ok _ =>
          let b ← .get
          match b.runs.lookupOwned agentId runId with
          | none => notFound
          | some live =>
            if live.project ≠ run.project ∨ live.pgid ≠ run.pgid then notFound
            else
              match ← (signalGroup run.pgid).attempt with
              | .error e => refuseSignal ctx.actor run.project runId (.of e.code "signal failed")
              | .ok () =>
                match ← (ask (.runSignal ctx.actor run.project runId .allowed none)).attempt with
                | .error _ => .fail (.of "E_AUDIT_WRITE" "audit write failed")
                | .ok () => pure (.object [("run_id", .string runId), ("signaled", .bool true)])

def sessionOpenArm : Arm := fun req ctx => do
  if req.session.isSome then .fail (.of "E_SESSION_EXPIRED" "session expired or revoked")
  else
    match ctx.proof with
    | none => do
      tell (.denied ctx.actor "session.open" none .auth)
      .fail (.of "E_AUTH" "authentication failed")
    | some _ => do
      let ttlSecs ← match req.params.given? "ttl_secs" with
        | none => pure SESSION_DEFAULT_TTL_SECS
        | some v => need v.asU64 "invalid ttl_secs"
      let (credential, displayPrefix, expiresIn, maxExpiresIn) ← ask (.sessionOpen ctx.actor ttlSecs)
      let (expiresAt, maxExpiresAt) ← sessionDisplayTimes expiresIn maxExpiresIn
      pure (.object [("session_credential", .string credential), ("session_prefix", .string displayPrefix),
        ("expires_at", .string expiresAt), ("expires_in", .count expiresIn), ("max_expires_at", .string maxExpiresAt),
        ("max_expires_in", .count maxExpiresIn)])

def sessionTouchArm : Arm := fun req _ => do
  let credential ← .lift (.ofOption (.of "E_SESSION_EXPIRED" "session expired or revoked") req.session)
  let (_, expiresIn, maxExpiresIn) ← ask (.sessionTouch credential)
  let (expiresAt, maxExpiresAt) ← sessionDisplayTimes expiresIn maxExpiresIn
  pure (.object [("expires_at", .string expiresAt), ("expires_in", .count expiresIn),
    ("max_expires_at", .string maxExpiresAt), ("max_expires_in", .count maxExpiresIn)])

def sessionCloseArm : Arm := fun req _ => do
  let credential ← .lift (.ofOption (.of "E_SESSION_EXPIRED" "session expired or revoked") req.session)
  let _ ← ask (.sessionClose credential)
  pure (.object [("closed", .bool true)])

/-- A live run as it is listed. -/
def showRun (doc : Option VaultDocument) (e : String × RunMeta) : Value :=
  .object [("run_id", .string e.1),
    ("agent", .string (((doc.bind (·.agentById e.2.agent)).map (·.name)).getD e.2.agent)),
    ("project", .string e.2.project), ("pid", if 0 ≤ e.2.pid then .count e.2.pid.toNat else .negInt e.2.pid),
    ("started_at", .string (Rendering.time e.2.startedAt)), ("status", .string "running")]

def runsListArm : Arm := fun _ ctx => do
  let b ← .get
  let runs := (b.runs.mergeSort fun x y => x.1 ≤ y.1).map (showRun b.session.document)
  ask (.auditRecord { actor := ctx.actor, op := "runs.list", decision := .allowed } .ordinary)
  pure (.object [("runs", .array runs)])

/-- What the dashboard shows of a session. -/
def Session.vaultHealth (s : Session) (h : Host) (idleLockSecs runsActive : Nat) : Value :=
  .object [("locked", .bool s.isLocked), ("idle_lock_secs", .count idleLockSecs),
    ("idle_in", if s.isLocked || idleLockSecs = 0 then .null
      else .count (idleLockSecs - asSecs (h.mono - s.lastActivity))),
    ("audit_bytes", .count ((h.auditFile.map List.length).getD 0)), ("audit_soft_limit", .count AUDIT_SOFT_LIMIT),
    ("audit_hard_limit", .count MAX_AUDIT_LEN), ("vault_bytes", .count ((h.vaultFile.map List.length).getD 0)),
    ("vault_max_bytes", .count MAX_FILE_LEN), ("runs_active", .count runsActive),
    ("leases_active", match s.document with
      | none => .null
      | some d => .count (d.leases.filter fun l => l.live h.wall).length),
    ("approvals_pending", match s.document with
      | none => .null
      | some d =>
        .count (d.approvals.filter fun a => a.status == .pending && decide (h.wall < a.pendingExpiresAt)).length)]

def vaultHealthArm : Arm := fun _ ctx => do
  let h ← glance
  let b ← .get
  let health := b.session.vaultHealth h (asSecs b.config.idleLock) b.runs.length
  ask (.auditRecord { actor := ctx.actor, op := "vault.health", decision := .allowed } .ordinary)
  pure health

/-- The operations and what performs them. -/
def arms : List (String × Arm) :=
  [("inject_file", injectFileArm), ("vault.status", vaultStatusArm), ("vault.lock", vaultLockArm),
    ("secrets.list", secretsListArm), ("vault.unlock", vaultUnlockArm), ("vault.create", vaultCreateArm),
    ("project.add", projectAddArm), ("project.list", projectListArm), ("project.path.add", projectPathAddArm),
    ("project.path.remove", projectPathRemoveArm), ("project.remove", projectRemoveArm), ("secret.set", secretSetArm),
    ("secret.delete", secretDeleteArm), ("agents.add", agentsAddArm), ("agents.revoke", agentsRevokeArm),
    ("agents.list", agentsListArm), ("grants.grant", grantsGrantArm), ("grants.revoke", grantsRevokeArm),
    ("grants.list", grantsListArm), ("audit.show", auditShowArm), ("audit.verify", auditVerifyArm),
    ("lease.create", leaseCreateArm), ("lease.list", leaseListArm), ("lease.revoke", leaseRevokeArm),
    ("reveal", revealArm), ("approvals.status", approvalsStatusArm), ("approvals.pending", approvalsPendingArm),
    ("approvals.approve", approvalsDecideArm true), ("approvals.deny", approvalsDecideArm false),
    ("run_signal", runSignalArm), ("session.open", sessionOpenArm), ("session.touch", sessionTouchArm),
    ("session.close", sessionCloseArm), ("runs.list", runsListArm), ("vault.health", vaultHealthArm)]

/-- Perform an operation. -/
def dispatchOp : Arm := fun req ctx =>
  match arms.lookup req.op with
  | some arm => arm req ctx
  | none => .fail (.of "E_PROTOCOL" ("unknown op: " ++ req.op))

/-! ## Dispatch -/

def oneCredential : WireError :=
  .of "E_PROTOCOL" "provide exactly one credential: a token, a passphrase, or a session"

def sessionGone : WireError := .of "E_SESSION_EXPIRED" "session expired or revoked"

/-- Who a request is from, and the actor it is recorded under. -/
def authenticate (req : Request) (proof : Option DerivedKeks) : BrokerProg (Identity × String) := do
  let b ← .get
  if req.session = some "" then
    .fail (if req.token.isSome || req.passphrase.isSome then oneCredential else sessionGone)
  else
    match req.token, req.passphrase, req.session with
    | some _, some _, _ | some _, _, some _ | _, some _, some _ => .fail oneCredential
    | some token, none, none =>
      match b.session.resolveAgent token with
      | some agentId => pure (.agent agentId, "agent:" ++ agentId)
      | none => do
        tell (.denied "agent:unknown" req.op none .auth)
        .fail VaultError.auth.wire
    | none, some _, none =>
      if proof.any b.session.proofIsValid then pure (.human, "human")
      else do
        tell (.denied "unauthenticated" req.op none .auth)
        .fail VaultError.auth.wire
    | none, none, some credential => do
      match ← (ask (.authorizeSession credential)).attempt with
      | .ok actor => pure (.human, actor)
      | .error _ => .fail sessionGone
    | none, none, none => pure (.unauthenticated, "unauthenticated")

/-- What an identity may ask for at all. -/
def screen (req : Request) (identity : Identity) (actor : String) : BrokerProg Unit := do
  if identity = .unauthenticated && req.op ≠ "vault.status" then
    if req.op.isEmpty then pure () else tell (.denied "unauthenticated" req.op none .auth)
    .fail (.of "E_AUTH" "unauthenticated: this operation requires agent or human credentials")
  else if identity.agent?.isSome && HUMAN_ONLY.contains req.op then
    tell (.denied actor req.op none .humanRequired)
    .fail (.of "E_HUMAN_REQUIRED" "this operation is human-only")
  else if identity = .human then checked actor req.op none (rejectLeaseOnHumanOp req)
  else pure ()

/-- The operations that use a session themselves. -/
def slidesItself (op : String) : Bool := op == "session.touch" || op == "session.open" || op == "session.close"

/-- Perform a request that was admitted. A session is used by an operation that succeeds; a refusal of which there is no
record yet is recorded. -/
def perform (req : Request) (ctx : OpContext) : BrokerProg Value := do
  let marker ← .get
  match ← (dispatchOp req ctx).attempt with
  | .ok result => do
    match req.session with
    | some credential => if slidesItself req.op then pure () else ask (.slideSession credential)
    | none => pure ()
    pure result
  | .error e => do
    let b ← .get
    if !req.op.isEmpty && b.session.audit.seq == marker.session.audit.seq then
      tell (.auditRecord { actor := ctx.actor, op := req.op, project := req.str "project", decision := .denied,
                           reason := some e.code } .ordinary)
    else pure ()
    .fail e

def dispatch (req : Request) (proof : Option DerivedKeks) : BrokerProg Value := do
  let (identity, actor) ← authenticate req proof
  screen req identity actor
  perform req { actor, identity, proof }

/-! ## The daemon -/

/-- The keys a passphrase derives, before the session mutex is taken. -/
def Daemon.deriveHumanProof (d : Daemon) (req : Request) : Except WireError (Option DerivedKeks) :=
  if req.session.isSome then .ok none
  else match req.passphrase with
    | none => .ok none
    | some pass =>
      if req.token.isSome then .ok none
      else match d.session with
        | none => .ok none
        | some s =>
          match (do
            let recipe ← s.envelope.kekRecipe
            recipe.derive pass.toUTF8.toList : Except VaultError DerivedKeks) with
          | .ok derived => .ok (some derived)
          | .error e => .error e.wire

/-- Create the vault. -/
def Daemon.opCreate (d : Daemon) (req : Request) : Outcome WireError Value × Daemon :=
  if req.session.isSome then (.error sessionGone, d)
  else match req.passphrase.or (req.str "passphrase") with
    | none => (.error (.invalidInput "missing passphrase"), d)
    | some pass =>
      match (Session.create pass.toUTF8.toList d.config.idleLock).run (d.host.under (d.ahead 0)) with
      | (o, host) =>
        let d := { d with host, ahead := fun i => d.ahead (i + 1) }
        match o with
        | .ok session =>
          (.ok (.object [("created", .string d.config.vaultPath)]), { d with session := some session.deferIdleLock })
        | .error e => (.error e.wire, d)
        | .panic => (.panic, d)

/-- Run with the session mutex. -/
def Daemon.holding {α : Type} (d : Daemon) (s : Session) (m : BrokerProg α) : Outcome WireError α × Daemon :=
  match m.run { d with session := s } with
  | (o, b) => (o, { b with session := some b.session })

/-- Answer a request. -/
def Daemon.handleRequest (d : Daemon) (req : Request) : Outcome WireError Value × Daemon :=
  match d.deriveHumanProof req with
  | .error e => (.error e, d)
  | .ok proof =>
    match d.session with
    | none =>
      if req.op = "vault.create" then d.opCreate req
      else (.error (.of "E_NOT_FOUND" "no vault exists; run svault init"), d)
    | some s => d.holding s (do
      idleLock
      dispatch req proof)

end

end SecretsVault
