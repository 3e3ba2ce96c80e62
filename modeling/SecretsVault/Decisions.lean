import SecretsVault.Model

/-!
# Decisions on a document

What each operation makes of the document it is given, before anything is recorded or stored. The decisions of the human
operations draw random bytes and read the file system; those on leases and approvals are functions of the document, the
time and the request.

- `purgeTerminal`: what can no longer authorize anything is dropped.
- `doGrantAdd`, `doGrantRevoke`, `doAgentRevoke`, `lockAll`: narrowing a grant takes the leases and approvals with it.
- `leaseVerdict`: grant ∩ lease ∩ time, for one request.
- `claim`: what a single-use claim checks, and the document it leaves.
-/

namespace SecretsVault

open Lib

/-! ## Collecting what is over -/

structure GcReport where
  leases : Nat
  approvals : Nat
  deriving DecidableEq, Repr

/-- The lease is revoked or past its end. -/
def Lease.terminal (l : Lease) (now : OffsetDateTime) : Bool := decide (l.expiresAt ≤ now) || l.revokedAt.isSome

/-- The approval is decided against, claimed, or past the window it is in. -/
def Approval.terminal (a : Approval) (now : OffsetDateTime) : Bool :=
  match a.status with
  | .consumed | .denied => true
  | .pending => decide (a.pendingExpiresAt ≤ now)
  | .approved => match a.claimExpiresAt with
    | some d => decide (d ≤ now)
    | none => false

/-- Drop what can no longer authorize anything. -/
def purgeTerminal (doc : VaultDocument) (now : OffsetDateTime) : VaultDocument :=
  { doc with
    leases := doc.leases.filter fun l => !l.terminal now
    approvals := doc.approvals.filter fun a => !a.terminal now }

def gcReport (before after : VaultDocument) : GcReport :=
  ⟨before.leases.length - after.leases.length, before.approvals.length - after.approvals.length⟩

/-! ## Projects and secrets -/

/-- Add canonical folders to a new project, one after the other. -/
def addPaths (fs : FileSystem) (project : Project) : List Path → Except VaultError Project
  | [] => .ok project
  | p :: rest => do
    let canonical ← VaultDocument.checkNewPath fs project p
    addPaths fs { project with paths := project.paths ++ [canonical] } rest

def doProjectAdd (doc : VaultDocument) (name : String) (paths : List Path) :
    Prog VaultError Host (VaultDocument × String) := do
  .lift (.ofExcept (doc.checkNewProjectName name))
  let id ← freshId fun id => (doc.projectById id).isSome
  let h ← .get
  let project ← .lift (.ofExcept (addPaths h.fs { id, name, paths := [], createdAt := h.wall } paths))
  pure ({ doc with projects := doc.projects ++ [project] }, id)

/-- Change the first project of a name. -/
def updateProject (doc : VaultDocument) (name : String) (f : Project → Except VaultError Project) :
    Except VaultError VaultDocument :=
  match doc.projects.findIdx? fun p => p.name == name with
  | none => .error .notFound
  | some idx =>
    match doc.projects[idx]? with
    | none => .error .notFound
    | some p => do
      let p' ← f p
      pure { doc with projects := doc.projects.set idx p' }

def doProjectPathAdd (doc : VaultDocument) (name : String) (path : Path) :
    Prog VaultError Host (VaultDocument × Unit) := do
  let h ← .get
  let doc ← .lift (.ofExcept (updateProject doc name fun p => do
    let canonical ← VaultDocument.checkNewPath h.fs p path
    pure { p with paths := p.paths ++ [canonical] }))
  pure (doc, ())

/-- Take a folder away: by its canonical form, else as it was given. -/
def doProjectPathRemove (doc : VaultDocument) (name : String) (path : Path) :
    Prog VaultError Host (VaultDocument × Unit) := do
  let h ← .get
  let doc ← .lift (.ofExcept (updateProject doc name fun p =>
    let candidate := match h.fs.canonicalize path with
      | some names => absolutePath names
      | none => path
    match (p.paths.findIdx? (samePath · candidate)).or (p.paths.findIdx? (samePath · path)) with
    | none => .error .notFound
    | some pos => pure { p with paths := p.paths.eraseIdx pos }))
  pure (doc, ())

def doProjectRemove (doc : VaultDocument) (name : String) : Prog VaultError Host (VaultDocument × Unit) :=
  match doc.projects.findIdx? fun p => p.name == name with
  | none => .fail .notFound
  | some idx =>
    match doc.projects[idx]? with
    | none => .fail .notFound
    | some p => do
      .lift (.ofExcept (doc.checkProjectRemovable p.id))
      pure ({ doc with projects := doc.projects.eraseIdx idx }, ())

def doSecretSet (doc : VaultDocument) (project key : String) (value : Bytes) :
    Prog VaultError Host (VaultDocument × Unit) := do
  .lift (.ofExcept (VaultDocument.checkSecretValue value))
  match doc.projectByName project with
  | none => .fail .notFound
  | some p =>
    let h ← .get
    match doc.secrets.findIdx? fun s => s.projectId == p.id && s.key == key with
    | some idx =>
      pure ({ doc with secrets := doc.secrets.modify idx fun s => { s with value, updatedAt := h.wall } }, ())
    | none =>
      .lift (.ofExcept (doc.checkNewSecretKey p.id key))
      pure ({ doc with secrets := doc.secrets ++
        [{ projectId := p.id, key, value, createdAt := h.wall, updatedAt := h.wall }] }, ())

def doSecretDelete (doc : VaultDocument) (project key : String) : Prog VaultError Host (VaultDocument × Unit) :=
  match doc.projectByName project with
  | none => .fail .notFound
  | some p =>
    match doc.secrets.findIdx? fun s => s.projectId == p.id && s.key == key with
    | none => .fail .notFound
    | some idx => pure ({ doc with secrets := doc.secrets.eraseIdx idx }, ())

/-! ## Agents and grants -/

def doAgentAdd [Crypto] (doc : VaultDocument) (name : String) :
    Prog VaultError Host (VaultDocument × (String × String)) := do
  .lift (.ofExcept (doc.checkNewAgentName name))
  let (token, digest, tokenPrefix) ← generateAgentToken
  let id ← freshId fun id => (doc.agentById id).isSome
  let h ← .get
  pure ({ doc with agents := doc.agents ++
    [{ id, name, status := .active, tokenHash := digest.1, tokenPrefix, createdAt := h.wall, lastSeen := none }] },
    (id, token))

/-- Revoke the leases a condition picks that are not revoked yet. -/
def revokeLeases (pick : Lease → Bool) (now : OffsetDateTime) (doc : VaultDocument) : VaultDocument :=
  { doc with
    leases := doc.leases.map fun l => if pick l && l.revokedAt.isNone then { l with revokedAt := some now } else l }

/-- Deny the approvals a condition picks that are not decided against or claimed yet. -/
def denyApprovals (pick : Approval → Bool) (doc : VaultDocument) : VaultDocument :=
  { doc with
    approvals := doc.approvals.map fun a => if pick a && a.status.open_ then { a with status := .denied } else a }

def revokeAgentLeases (agentId : String) (now : OffsetDateTime) (doc : VaultDocument) : VaultDocument :=
  revokeLeases (fun l => l.agentId == agentId) now doc

def denyAgentApprovals (agentId : String) (doc : VaultDocument) : VaultDocument :=
  denyApprovals (fun a => a.agentId == agentId) doc

/-- The operations of the grant in force; none without one. -/
def VaultDocument.grantOps (doc : VaultDocument) (agentId projectId : String) : List Op :=
  match doc.activeGrant agentId projectId with
  | some g => g.ops
  | none => []

def revokeUncoveredLeases (agentId projectId : String) (now : OffsetDateTime) (doc : VaultDocument) : VaultDocument :=
  let grantOps := doc.grantOps agentId projectId
  revokeLeases (fun l => l.agentId == agentId && l.projectId == projectId && !l.ops.all grantOps.contains) now doc

def denyPairApprovalsIfRevealLost (agentId projectId : String) (doc : VaultDocument) : VaultDocument :=
  if doc.authorize agentId projectId .reveal then doc
  else denyApprovals (fun a => a.agentId == agentId && a.projectId == projectId) doc

/-- Mark the agent of a name revoked. -/
def doAgentRevoke (doc : VaultDocument) (name : String) : Except VaultError (VaultDocument × String) :=
  match doc.agents.findIdx? fun a => a.name == name with
  | none => .error .notFound
  | some idx =>
    match doc.agents[idx]? with
    | none => .error .notFound
    | some a => .ok ({ doc with agents := doc.agents.set idx { a with status := .revoked } }, a.id)

/-- An agent is revoked with its leases and approvals. -/
def agentRevoked (doc : VaultDocument) (name : String) (now : OffsetDateTime) : Except VaultError VaultDocument := do
  let (doc, agentId) ← doAgentRevoke doc name
  pure (denyAgentApprovals agentId (revokeAgentLeases agentId now doc))

/-- Set the operations of a grant. -/
def doGrantAdd (doc : VaultDocument) (agentName projectName : String) (ops : List Op) (now : OffsetDateTime) :
    Except VaultError VaultDocument :=
  if ops.isEmpty then .error (.invalidInput "grant must include at least one op")
  else match doc.agentByName agentName with
    | none => .error .notFound
    | some agent => match doc.projectByName projectName with
      | none => .error .notFound
      | some project =>
        let grants := match doc.grants.findIdx? (VaultDocument.isActiveGrant agent.id project.id) with
          | some idx => doc.grants.modify idx fun g => { g with ops }
          | none => doc.grants ++
            [{ agentId := agent.id, projectId := project.id, ops, createdAt := now, revokedAt := none }]
        .ok (denyPairApprovalsIfRevealLost agent.id project.id
          (revokeUncoveredLeases agent.id project.id now { doc with grants }))

/-- End the grant in force. -/
def doGrantRevoke (doc : VaultDocument) (agentName projectName : String) (now : OffsetDateTime) :
    Except VaultError VaultDocument :=
  match doc.agentByName agentName with
  | none => .error .notFound
  | some agent => match doc.projectByName projectName with
    | none => .error .notFound
    | some project =>
      match doc.grants.findIdx? (VaultDocument.isActiveGrant agent.id project.id) with
      | none => .error .notFound
      | some idx =>
        .ok (denyPairApprovalsIfRevealLost agent.id project.id (revokeUncoveredLeases agent.id project.id now
          { doc with grants := doc.grants.modify idx fun g => { g with revokedAt := some now } }))

/-- Whether a grant takes nothing the agent does not have. -/
def isReduction (doc : VaultDocument) (agentName projectName : String) (ops : List Op) : Bool :=
  match doc.agentByName agentName, doc.projectByName projectName with
  | some agent, some project => match doc.activeGrant agent.id project.id with
    | some before => ops.all before.ops.contains
    | none => false
  | _, _ => false

/-- A lock revokes every lease and denies every approval. -/
def lockAll (now : OffsetDateTime) (doc : VaultDocument) : VaultDocument :=
  denyApprovals (fun _ => true) (revokeLeases (fun _ => true) now doc)

/-! ## Leases -/

/-- Make room by dropping what is over, when a list is at its cap. -/
def sweepAt (full : Bool) (doc : VaultDocument) (now : OffsetDateTime) : VaultDocument :=
  if full then purgeTerminal doc now else doc

/-- The checks of a new lease: the project it is on, and the document with room for it. -/
def checkLeaseCreate (doc : VaultDocument) (agentId project : String) (ops : List Op) (ttlSecs : Nat)
    (now : OffsetDateTime) : Except VaultError (VaultDocument × String) :=
  if ttlSecs < MIN_LEASE_TTL_SECS ∨ MAX_LEASE_TTL_SECS < ttlSecs then .error (.invalidInput "ttl_secs must be 1..86400")
  else if ops.isEmpty then .error (.invalidInput "lease must include at least one op")
  else match doc.projectByName project with
    | none => .error .notFound
    | some p => match doc.agentById agentId with
      | none => .error .notFound
      | some a =>
        if a.status ≠ .active then .error .notFound
        else match doc.activeGrant agentId p.id with
          | none => .error .permission
          | some g =>
            if !ops.all g.ops.contains then .error .permission
            else
              let doc := sweepAt (decide (MAX_LEASES ≤ doc.leases.length)) doc now
              if MAX_LEASES ≤ doc.leases.length then .error (.invalidInput "too many leases")
              else .ok (doc, p.id)

/-- A new lease with its one-time credential. -/
def mintLease [Crypto] (doc : VaultDocument) (agentId projectId : String) (ops : List Op) (ttlSecs : Nat)
    (now : OffsetDateTime) : Prog VaultError Host (VaultDocument × (Lease × String)) := do
  let id ← freshId fun id => doc.leases.any fun l => l.id == id
  let (credential, digest, credentialPrefix) ← generateCapability
  let lease : Lease :=
    { id, agentId, projectId, ops, credentialHash := digest.1, credentialPrefix, createdAt := now,
      expiresAt := now + seconds ttlSecs, revokedAt := none }
  pure ({ doc with leases := doc.leases ++ [lease] }, (lease, credential))

/-- Revoke a lease; an agent only its own. -/
def checkLeaseRevoke (doc : VaultDocument) (agentId : Option String) (leaseId : String) (now : OffsetDateTime) :
    Except VaultError VaultDocument :=
  match doc.leases.findIdx? fun l => l.id == leaseId with
  | none => .error .notFound
  | some pos =>
    match doc.leases[pos]? with
    | none => .error .notFound
    | some lease =>
      if agentId.isSome ∧ agentId ≠ some lease.agentId then .error .permission
      else .ok { doc with leases := doc.leases.modify pos fun l =>
        if l.revokedAt.isNone then { l with revokedAt := some now } else l }

/-- What becomes of a request for an operation. -/
inductive LeaseVerdict where
  | allow (actor : String)
  | deny (e : VaultError)
  /-- The grant no longer covers the lease: revoke it on the way. -/
  | invalidate (leaseId : String)
  deriving DecidableEq, Repr

/-- Grant ∩ lease ∩ time, by the digest of the presented credential; without one, the grant alone. -/
def leaseVerdict [Crypto] (doc : VaultDocument) (agentId project : String) (op : Op) (credential : Option String)
    (now : OffsetDateTime) : LeaseVerdict :=
  match doc.projectByName project with
  | none => .deny .notFound
  | some p =>
    if !doc.agentActive agentId then .deny .permission
    else match credential with
      | none => if doc.authorize agentId p.id op then .allow ("agent:" ++ agentId) else .deny .permission
      | some presented =>
        match doc.leases.find? fun l => l.credentialHash == (tokenDigest presented).1 with
        | none => .deny .leaseExpired
        | some lease =>
          if lease.agentId ≠ agentId ∨ lease.projectId ≠ p.id then .deny .leaseExpired
          else if lease.revokedAt.isSome ∨ lease.expiresAt ≤ now then .deny .leaseExpired
          else match doc.activeGrant agentId p.id with
            | none => .deny .leaseExpired
            | some g =>
              if !lease.ops.all g.ops.contains then .invalidate lease.id
              else if !lease.ops.contains op then .deny .permission
              else .allow ("lease:" ++ lease.id)

/-- The first lease of an id, revoked. -/
def invalidateLease (doc : VaultDocument) (leaseId : String) (now : OffsetDateTime) : VaultDocument :=
  match doc.leases.findIdx? fun l => l.id == leaseId with
  | none => doc
  | some pos => { doc with leases := doc.leases.modify pos fun l => { l with revokedAt := some now } }

/-! ## Approvals -/

/-- The checks of a new approval: the project it is on, and the document with room for it. -/
def checkApprovalRequest (doc : VaultDocument) (agentId project key : String) (now : OffsetDateTime) :
    Except VaultError (VaultDocument × String) :=
  match doc.projectByName project with
  | none => .error .notFound
  | some p =>
    if !doc.agentActive agentId then .error .permission
    else if !doc.authorize agentId p.id .reveal then .error .permission
    else if (doc.secret p.id key).isNone then .error .notFound
    else
      let doc := sweepAt (decide (MAX_APPROVALS ≤ doc.approvals.length)) doc now
      if MAX_APPROVALS ≤ doc.approvals.length then .error (.invalidInput "too many approvals") else .ok (doc, p.id)

/-- A pending approval, to be decided within its window. -/
def Approval.new (id agentId projectId key : String) (now : OffsetDateTime) : Approval :=
  { id, agentId, projectId, key, status := .pending, createdAt := now,
    pendingExpiresAt := now + seconds APPROVAL_PENDING_SECS, approvedAt := none, claimExpiresAt := none }

/-- A new approval under a free id. -/
def mintApproval (doc : VaultDocument) (agentId projectId key : String) (now : OffsetDateTime) :
    Prog VaultError Host (VaultDocument × Approval) := do
  let id ← freshId fun id => doc.approvals.any fun a => a.id == id
  let approval := Approval.new id agentId projectId key now
  pure ({ doc with approvals := doc.approvals ++ [approval] }, approval)

/-- The state of an approval as it is shown. -/
def approvalView (a : Approval) (now : OffsetDateTime) : String :=
  match a.status with
  | .denied => "denied"
  | .consumed => "consumed"
  | .pending => if a.pendingExpiresAt ≤ now then "expired" else "pending"
  | .approved => match a.claimExpiresAt with
    | some exp => if exp ≤ now then "expired" else "approved"
    | none => "approved"

def checkApprovalStatus (doc : VaultDocument) (agentId approvalId : String) (now : OffsetDateTime) :
    Except VaultError String :=
  match doc.approvals.find? fun a => a.id == approvalId with
  | none => .error .notFound
  | some a => if a.agentId ≠ agentId then .error .permission else .ok (approvalView a now)

/-- Approve or deny a pending approval. -/
def checkApprovalDecide (doc : VaultDocument) (approvalId : String) (approve : Bool) (now : OffsetDateTime) :
    Except VaultError VaultDocument :=
  match doc.approvals.findIdx? fun a => a.id == approvalId with
  | none => .error .notFound
  | some pos =>
    match doc.approvals[pos]? with
    | none => .error .notFound
    | some a =>
      match a.status with
      | .denied => .error .approvalDenied
      | .consumed => .error .approvalConsumed
      | .approved => .error (.invalidInput "approval already decided")
      | .pending =>
        if a.pendingExpiresAt ≤ now then .error .approvalExpired
        else .ok { doc with approvals := doc.approvals.set pos (
          if approve then
            { a with
              status := .approved, approvedAt := some now, claimExpiresAt := some (now + seconds APPROVAL_CLAIM_SECS) }
          else { a with status := .denied }) }

/-- A claim: the secret, and the document in which the approval is consumed. -/
def claim (doc : VaultDocument) (agentId project key approvalId : String) (now : OffsetDateTime) :
    Except VaultError (VaultDocument × Bytes) :=
  match doc.projectByName project with
  | none => .error .notFound
  | some p =>
    match doc.approvals.findIdx? fun a => a.id == approvalId with
    | none => .error .notFound
    | some pos =>
      match doc.approvals[pos]? with
      | none => .error .notFound
      | some a =>
        if a.agentId ≠ agentId ∨ a.projectId ≠ p.id ∨ a.key ≠ key then .error .permission
        else if !doc.authorize agentId p.id .reveal then .error .permission
        else match a.status with
          | .denied => .error .approvalDenied
          | .consumed => .error .approvalConsumed
          | .pending =>
            if a.pendingExpiresAt ≤ now then .error .approvalExpired
            else .error (.approvalPending approvalId (asSecs (a.pendingExpiresAt - now).toNat))
          | .approved =>
            if a.claimExpiresAt.any fun exp => decide (exp ≤ now) then .error .approvalExpired
            else match doc.secret p.id key with
              | none => .error .notFound
              | some s => .ok ({ doc with approvals := doc.approvals.set pos { a with status := .consumed } }, s.value)

/-- The value of a secret, for a human. -/
def humanReveal (doc : VaultDocument) (project key : String) : Except VaultError Bytes :=
  match doc.projectByName project with
  | none => .error .notFound
  | some p => match doc.secret p.id key with
    | none => .error .notFound
    | some s => .ok s.value

end SecretsVault
