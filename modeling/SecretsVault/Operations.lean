import SecretsVault.Session

/-!
# Operations on the vault

The operations that change the document, and the reads beside them. A mutation is a proposal, the
decision on a copy of the document with its refusal recorded, and the commit of what was decided (`committing`). Human
operations refuse a locked vault through `gate`; those on leases and approvals record the lock as a denial of their own
(`requireOpen`).

Operations that take authority away commit with lifecycle priority: `agentRevoke`, `grantRevoke`, `leaseRevoke`, and
`grantAdd` when it narrows a grant.
-/

namespace SecretsVault

open Lib

/-- What an operation is about to commit, and its answer once it has. -/
structure Proposal (α : Type) where
  doc : VaultDocument
  record : Record
  priority : Priority
  answer : α

section

variable [Crypto] [VaultJson] [AuditJson]

/-- Commit what was prepared. -/
def committing {α : Type} (prepare : SessionProg (Proposal α)) : SessionProg α := do
  let p ← prepare
  commitWith p.doc p.record p.priority
  pure p.answer

/-- Decide on a copy of the document of an unlocked vault. `denied` is the project a refusal is recorded under. -/
def propose {α : Type} (record : Record) (denied : Option String) (priority : VaultDocument → Priority)
    (decide : VaultDocument → Prog VaultError Host (VaultDocument × α)) : SessionProg (Proposal α) := do
  gate record.actor record.op denied record.keys
  let u ← requireUnlocked
  match ← (onHost (decide u.doc)).attempt with
  | .ok (doc, answer) => pure { doc, record, priority := priority u.doc, answer }
  | .error e =>
    auditDenied record.actor record.op denied record.keys record.target e
    .fail e

/-- A decision that is a function of the document and the time. -/
def deciding (f : OffsetDateTime → Except VaultError VaultDocument) : Prog VaultError Host (VaultDocument × Unit) := do
  let h ← .get
  let doc ← .lift (.ofExcept (f h.wall))
  pure (doc, ())

/-! ## Projects and secrets -/

def projectAddProposal (actor name : String) (paths : List Path) : SessionProg (Proposal String) :=
  propose { actor, op := "project.add", project := some name, decision := .allowed } (some name)
    (fun _ => .ordinary) fun doc => doProjectAdd doc name paths

def projectAdd (actor name : String) (paths : List Path) : SessionProg String :=
  committing (projectAddProposal actor name paths)

def projectPathAddProposal (actor name : String) (path : Path) : SessionProg (Proposal Unit) :=
  propose { actor, op := "project.path.add", project := some name, target := some path, decision := .allowed }
    (some name) (fun _ => .ordinary) fun doc => doProjectPathAdd doc name path

def projectPathAdd (actor name : String) (path : Path) : SessionProg Unit :=
  committing (projectPathAddProposal actor name path)

def projectPathRemoveProposal (actor name : String) (path : Path) : SessionProg (Proposal Unit) :=
  propose
    { actor, op := "project.path.remove", project := some name, target := some path, decision := .allowed }
    (some name) (fun _ => .ordinary) fun doc => doProjectPathRemove doc name path

def projectPathRemove (actor name : String) (path : Path) : SessionProg Unit :=
  committing (projectPathRemoveProposal actor name path)

def projectRemoveProposal (actor name : String) : SessionProg (Proposal Unit) :=
  propose { actor, op := "project.remove", project := some name, decision := .allowed } (some name)
    (fun _ => .ordinary) fun doc => doProjectRemove doc name

def projectRemove (actor name : String) : SessionProg Unit :=
  committing (projectRemoveProposal actor name)

def secretSetProposal (actor project key : String) (value : Bytes) : SessionProg (Proposal Unit) :=
  propose { actor, op := "secret.set", project := some project, keys := [key], decision := .allowed }
    (some project) (fun _ => .ordinary) fun doc => doSecretSet doc project key value

def secretSet (actor project key : String) (value : Bytes) : SessionProg Unit :=
  committing (secretSetProposal actor project key value)

def secretDeleteProposal (actor project key : String) : SessionProg (Proposal Unit) :=
  propose { actor, op := "secret.delete", project := some project, keys := [key], decision := .allowed }
    (some project) (fun _ => .ordinary) fun doc => doSecretDelete doc project key

def secretDelete (actor project key : String) : SessionProg Unit :=
  committing (secretDeleteProposal actor project key)

/-! ## Agents and grants -/

def agentAddProposal (actor name : String) : SessionProg (Proposal (String × String)) :=
  propose { actor, op := "agents.add", decision := .allowed } (some name) (fun _ => .ordinary)
    fun doc => doAgentAdd doc name

/-- Enroll an agent: its id and its one-time token. -/
def agentAdd (actor name : String) : SessionProg (String × String) :=
  committing (agentAddProposal actor name)

def agentRevokeProposal (actor name : String) : SessionProg (Proposal Unit) :=
  propose { actor, op := "agents.revoke", decision := .allowed } (some name) (fun _ => .lifecycle)
    fun doc => deciding (agentRevoked doc name)

def agentRevoke (actor name : String) : SessionProg Unit :=
  committing (agentRevokeProposal actor name)

def grantAddProposal (actor agentName projectName : String) (ops : List Op) : SessionProg (Proposal Unit) :=
  propose { actor, op := "grants.grant", project := some projectName, decision := .allowed } (some projectName)
    (fun doc => if isReduction doc agentName projectName ops then .lifecycle else .ordinary)
    fun doc => deciding (doGrantAdd doc agentName projectName ops)

/-- A grant that only narrows is recorded like a revocation. -/
def grantAdd (actor agentName projectName : String) (ops : List Op) : SessionProg Unit :=
  committing (grantAddProposal actor agentName projectName ops)

def grantRevokeProposal (actor agentName projectName : String) : SessionProg (Proposal Unit) :=
  propose { actor, op := "grants.revoke", project := some projectName, decision := .allowed } (some projectName)
    (fun _ => .lifecycle) fun doc => deciding (doGrantRevoke doc agentName projectName)

def grantRevoke (actor agentName projectName : String) : SessionProg Unit :=
  committing (grantRevokeProposal actor agentName projectName)

/-! ## Reads of a human -/

/-- A read of an unlocked vault whose record is part of its success. -/
def reading {α : Type} (record : Record) (f : VaultDocument → Except VaultError α) : SessionProg α := do
  gate record.actor record.op record.project record.keys
  let u ← requireUnlocked
  match f u.doc with
  | .ok a =>
    auditRecord record
    pure a
  | .error e => deny record.actor record.op record.project record.keys e

def projectList (actor : String) : SessionProg (List Project) :=
  reading { actor, op := "project.list", decision := .allowed } fun doc => .ok doc.projects

/-- Key names with the time of their last change. -/
def secretList (project actor : String) : SessionProg (List (String × OffsetDateTime)) :=
  reading { actor, op := "secret.list", project := some project, decision := .allowed } fun doc =>
    match doc.projectByName project with
    | none => .error .notFound
    | some p => .ok ((doc.secrets.filter fun s => s.projectId == p.id).map fun s => (s.key, s.updatedAt))

/-- Names, states and token prefixes. -/
def agentList (actor : String) : SessionProg (List (String × AgentStatus × String)) :=
  reading { actor, op := "agents.list", decision := .allowed } fun doc =>
    .ok (doc.agents.map fun a => (a.name, a.status, a.tokenPrefix))

def grantSummary (doc : VaultDocument) (g : Grant) : GrantSummary :=
  { agent := ((doc.agentById g.agentId).map (·.name)).getD g.agentId
    project := ((doc.projectById g.projectId).map (·.name)).getD g.projectId
    ops := g.ops
    revoked := g.revokedAt.isSome }

def grantList (actor : String) : SessionProg (List GrantSummary) :=
  reading { actor, op := "grants.list", decision := .allowed } fun doc => .ok (doc.grants.map (grantSummary doc))

/-! ## Leases -/

/-- The unlocked vault; a locked one is a recorded denial. -/
def requireOpen (actor op : String) (project : Option String) (keys : List String) : SessionProg Unlocked := do
  checkIdle
  let s ← .get
  match s.session.unlocked with
  | none => deny actor op project keys .locked
  | some u => pure u

/-- A decision whose refusal is recorded. -/
def decideOr {α : Type} (actor op : String) (project : Option String) (keys : List String) :
    Except VaultError α → SessionProg α
  | .ok a => pure a
  | .error e => deny actor op project keys e

def leaseCreateProposal (actor agentId project : String) (ops : List Op) (ttlSecs : Nat) :
    SessionProg (Proposal (Lease × String)) := do
  let u ← requireOpen actor "lease.create" (some project) []
  let s ← .get
  let now := s.host.wall
  let (doc, projectId) ← decideOr actor "lease.create" (some project) []
    (checkLeaseCreate u.doc agentId project ops ttlSecs now)
  let (doc, answer) ← onHost (mintLease doc agentId projectId ops ttlSecs now)
  pure
    { doc, record := { actor, op := "lease.create", project := some project, decision := .allowed },
      priority := .ordinary, answer }

/-- A new lease with its one-time credential. -/
def leaseCreate (actor agentId project : String) (ops : List Op) (ttlSecs : Nat) : SessionProg (Lease × String) :=
  committing (leaseCreateProposal actor agentId project ops ttlSecs)

/-- The leases of an agent, or all of them. -/
def leaseList (actor : String) (agentId : Option String) : SessionProg (List Lease) := do
  let u ← requireOpen actor "lease.list" none []
  (auditRecord { actor, op := "lease.list", decision := .allowed }).ignore
  pure (match agentId with
    | some id => u.doc.leases.filter fun l => l.agentId == id
    | none => u.doc.leases)

def leaseRevokeProposal (actor : String) (agentId : Option String) (leaseId : String) :
    SessionProg (Proposal Unit) := do
  let u ← requireOpen actor "lease.revoke" none []
  let s ← .get
  let doc ← decideOr actor "lease.revoke" none [] (checkLeaseRevoke u.doc agentId leaseId s.host.wall)
  pure { doc, record := { actor, op := "lease.revoke", decision := .allowed }, priority := .lifecycle, answer := () }

def leaseRevoke (actor : String) (agentId : Option String) (leaseId : String) : SessionProg Unit :=
  committing (leaseRevokeProposal actor agentId leaseId)

/-- Whether a request is allowed, and the actor it is recorded under. -/
def authorizeLease (agentId project : String) (op : Op) (credential : Option String) : SessionProg String := do
  let actor := "agent:" ++ agentId
  let u ← requireOpen actor "authorize" (some project) []
  let s ← .get
  match leaseVerdict u.doc agentId project op credential s.host.wall with
  | .deny e => deny actor "authorize" (some project) [] e
  | .invalidate leaseId =>
    (commit (invalidateLease u.doc leaseId s.host.wall)
      { actor, op := "lease.invalidate", project := some project, decision := .allowed }).ignore
    deny actor "authorize" (some project) [] .leaseExpired
  | .allow leasedActor =>
    (auditRecord { actor := leasedActor, op := "authorize", project := some project, decision := .allowed }).ignore
    pure leasedActor

/-! ## Approvals -/

def approvalRequestProposal (actor agentId project key : String) : SessionProg (Proposal Approval) := do
  let u ← requireOpen actor "approval.request" (some project) [key]
  let s ← .get
  let now := s.host.wall
  let (doc, projectId) ← decideOr actor "approval.request" (some project) [key]
    (checkApprovalRequest u.doc agentId project key now)
  let (doc, answer) ← onHost (mintApproval doc agentId projectId key now)
  pure
    { doc, record := { actor, op := "approval.request", project := some project, keys := [key], decision := .allowed },
      priority := .ordinary, answer }

/-- A pending approval of one secret for one agent. -/
def approvalRequest (actor agentId project key : String) : SessionProg Approval :=
  committing (approvalRequestProposal actor agentId project key)

/-- The state of an agent's own approval. -/
def approvalStatus (agentId approvalId : String) : SessionProg String := do
  let actor := "agent:" ++ agentId
  let u ← requireOpen actor "approval.status" none []
  let s ← .get
  let view ← decideOr actor "approval.status" none [] (checkApprovalStatus u.doc agentId approvalId s.host.wall)
  (auditRecord { actor, op := "approval.status", decision := .allowed }).ignore
  pure view

/-- The passphrase actor, or that of a human session. -/
def isHumanIdentity (actor : String) : Bool :=
  actor == "human" || ("human(session:".toList.isPrefixOf actor.toList && actor.toList.getLast? == some ')')

/-- An unlocked vault, for a human only. -/
def requireHuman (actor op : String) : SessionProg Unlocked := do
  checkIdle
  if !isHumanIdentity actor then deny actor op none [] .humanRequired
  else
    let s ← .get
    match s.session.unlocked with
    | none => deny actor op none [] .locked
    | some u => pure u

def approvalPending (actor : String) : SessionProg (List Approval) := do
  let u ← requireHuman actor "approval.pending"
  let s ← .get
  (auditRecord { actor, op := "approval.pending", decision := .allowed }).ignore
  pure (u.doc.approvals.filter fun a => a.status == .pending && decide (s.host.wall < a.pendingExpiresAt))

def approvalDecideProposal (actor approvalId : String) (approve : Bool) : SessionProg (Proposal Unit) := do
  let u ← requireHuman actor "approval.decide"
  let s ← .get
  let doc ← decideOr actor "approval.decide" none [] (checkApprovalDecide u.doc approvalId approve s.host.wall)
  pure
    { doc
      record := { actor, op := if approve then "approval.approve" else "approval.deny", decision := .allowed }
      priority := .ordinary
      answer := () }

def approvalDecide (actor approvalId : String) (approve : Bool) : SessionProg Unit :=
  committing (approvalDecideProposal actor approvalId approve)

def revealClaimProposal (actor agentId project key approvalId : String) : SessionProg (Proposal Bytes) := do
  let u ← requireOpen actor "reveal" (some project) [key]
  let s ← .get
  let (doc, value) ← decideOr actor "reveal" (some project) [key]
    (claim u.doc agentId project key approvalId s.host.wall)
  pure
    { doc
      record := { actor, op := "reveal", project := some project, keys := [key], decision := .allowed }
      priority := .ordinary
      answer := value }

/-- Claim an approved reveal, once. -/
def revealClaim (actor agentId project key approvalId : String) : SessionProg Bytes :=
  committing (revealClaimProposal actor agentId project key approvalId)

/-- Reveal a secret to a human. -/
def revealHuman (actor project key : String) : SessionProg Bytes := do
  let u ← requireOpen actor "reveal" (some project) [key]
  let value ← decideOr actor "reveal" (some project) [key] (humanReveal u.doc project key)
  auditRecord { actor, op := "reveal", project := some project, keys := [key], decision := .allowed }
  pure value

end

end SecretsVault
