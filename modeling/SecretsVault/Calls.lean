import SecretsVault.HumanSession
import SecretsVault.Injection

/-!
# Runs of a vault

`Call` lists what can be asked of a session, `Mutation` the calls that propose a document and commit it. A `World` is a
session, if one is live, on its host; a `Step` is one call or a restart of the process, with the clocks and the failures
it meets. A panic ends the process. A process that dies between two effects on files is one whose later effects fail,
followed by a restart.

`Call.Attempts` says which documents a call tries to commit, and from which state.
-/

namespace SecretsVault

open Lib

/-- The calls that change the document. -/
inductive Mutation : Type → Type where
  | projectAdd (actor name : String) (paths : List Path) : Mutation String
  | projectPathAdd (actor name : String) (path : Path) : Mutation Unit
  | projectPathRemove (actor name : String) (path : Path) : Mutation Unit
  | projectRemove (actor name : String) : Mutation Unit
  | secretSet (actor project key : String) (value : Bytes) : Mutation Unit
  | secretDelete (actor project key : String) : Mutation Unit
  | agentAdd (actor name : String) : Mutation (String × String)
  | agentRevoke (actor name : String) : Mutation Unit
  | grantAdd (actor agentName projectName : String) (ops : List Op) : Mutation Unit
  | grantRevoke (actor agentName projectName : String) : Mutation Unit
  | leaseCreate (actor agentId project : String) (ops : List Op) (ttlSecs : Nat) : Mutation (Lease × String)
  | leaseRevoke (actor : String) (agentId : Option String) (leaseId : String) : Mutation Unit
  | approvalRequest (actor agentId project key : String) : Mutation Approval
  | approvalDecide (actor approvalId : String) (approve : Bool) : Mutation Unit
  | revealClaim (actor agentId project key approvalId : String) : Mutation Bytes

/-- What can be asked of a session. -/
inductive Call : Type → Type 1 where
  | mutate {α : Type} (m : Mutation α) : Call α
  | projectList (actor : String) : Call (List Project)
  | secretList (project actor : String) : Call (List (String × OffsetDateTime))
  | agentList (actor : String) : Call (List (String × AgentStatus × String))
  | grantList (actor : String) : Call (List GrantSummary)
  | leaseList (actor : String) (agentId : Option String) : Call (List Lease)
  | authorizeLease (agentId project : String) (op : Op) (credential : Option String) : Call String
  | approvalStatus (agentId approvalId : String) : Call String
  | approvalPending (actor : String) : Call (List Approval)
  | revealHuman (actor project key : String) : Call Bytes
  | injectFile (actor project relative : String) (keys : Option (List String)) : Call InjectReport
  | auditShowPage (actor : String) (tail : Nat) (beforeSeq : Option Nat) : Call (List AuditLine × Option Nat)
  | auditVerify : Call VerifyReport
  | auditRecord (record : Record) (priority : Priority) : Call Unit
  | auditRun (record : RunRecord) (priority : Priority) : Call Unit
  | ensureRunUnlocked : Call Unit
  | sessionOpen (actor : String) (ttlSecs : Nat) : Call (String × String × Nat × Nat)
  | authorizeSession (credential : String) : Call String
  | slideSession (credential : String) : Call Unit
  | sessionTouch (credential : String) : Call (String × Nat × Nat)
  | sessionClose (credential : String) : Call String
  | unlock (passphrase : Bytes) : Call Unit
  | unlockWithProof (derived : DerivedKeks) : Call Unit
  | lock : Call Unit
  | lockPersist : Call Unit
  | requireKeys : Call Keys
  | save : Call Unit
  | gcTerminalCredentials : Call GcReport
  | deferIdleLock : Call Unit
  | setAuditLimitsForTest (soft hard : Nat) : Call Unit

/-- What the next calls to the operating system meet: the clocks, the folders, and what will fail. -/
structure Conditions where
  fs : FileSystem
  wall : OffsetDateTime
  mono : Instant
  rng : Nat → Option (Nat → UInt8)
  appends : Nat → AppendOutcome
  saves : Nat → Option IoError
  syscalls : Nat → Option IoError
  patience : Nat

/-- The next attempt to lock the file of the vault meets no error of the operating system. -/
def Conditions.Lockable (c : Conditions) : Prop := c.syscalls 0 = none

/-- A host under other conditions; its two files are the same. -/
def Host.under (h : Host) (c : Conditions) : Host :=
  { h with
    fs := c.fs, wall := c.wall, mono := c.mono, rng := c.rng, appends := c.appends, saves := c.saves,
    syscalls := c.syscalls, patience := c.patience }

/-- What happens next. -/
inductive Input : Type 1 where
  | call {α : Type} (c : Call α)
  | restart (idleTimeout : Nat)

/-- One step of a run. -/
structure Step : Type 1 where
  conditions : Conditions
  input : Input

/-- A process, live or not, on its host. -/
structure World where
  session : Option Session
  host : Host

/-- What the next call of a live process runs on. -/
def World.sys (w : World) (c : Conditions) : Option Sys :=
  w.session.map fun session => { session, host := w.host.under c }

theorem World.sys_eq_some {w : World} {c : Conditions} {s : Sys} :
    w.sys c = some s ↔ w.session = some s.session ∧ s.host = w.host.under c := by
  constructor
  · intro h
    obtain ⟨session, hw, rfl⟩ := Option.map_eq_some_iff.mp h
    exact ⟨hw, rfl⟩
  · rintro ⟨hw, hhost⟩
    rw [World.sys, hw, ← hhost]
    rfl

theorem World.session_of_sys {w : World} {c : Conditions} {s : Sys} (hs : w.sys c = some s) :
    w.session = some s.session :=
  (World.sys_eq_some.mp hs).1

theorem World.wall_of_sys {w : World} {c : Conditions} {s : Sys} (hs : w.sys c = some s) : s.host.wall = c.wall := by
  rw [(World.sys_eq_some.mp hs).2]
  rfl

theorem World.mono_of_sys {w : World} {c : Conditions} {s : Sys} (hs : w.sys c = some s) : s.host.mono = c.mono := by
  rw [(World.sys_eq_some.mp hs).2]
  rfl

/-- The conditions of a step leave the vault file as it is. -/
theorem World.vaultFile_of_sys {w : World} {c : Conditions} {s : Sys} (hs : w.sys c = some s) :
    s.host.vaultFile = w.host.vaultFile := by
  rw [(World.sys_eq_some.mp hs).2]
  rfl

section

variable [Crypto] [VaultJson] [AuditJson] {α : Type}

/-- What a mutation proposes to commit. -/
def Mutation.proposal : Mutation α → SessionProg (Proposal α)
  | .projectAdd actor name paths => projectAddProposal actor name paths
  | .projectPathAdd actor name path => projectPathAddProposal actor name path
  | .projectPathRemove actor name path => projectPathRemoveProposal actor name path
  | .projectRemove actor name => projectRemoveProposal actor name
  | .secretSet actor project key value => secretSetProposal actor project key value
  | .secretDelete actor project key => secretDeleteProposal actor project key
  | .agentAdd actor name => agentAddProposal actor name
  | .agentRevoke actor name => agentRevokeProposal actor name
  | .grantAdd actor agentName projectName ops => grantAddProposal actor agentName projectName ops
  | .grantRevoke actor agentName projectName => grantRevokeProposal actor agentName projectName
  | .leaseCreate actor agentId project ops ttlSecs => leaseCreateProposal actor agentId project ops ttlSecs
  | .leaseRevoke actor agentId leaseId => leaseRevokeProposal actor agentId leaseId
  | .approvalRequest actor agentId project key => approvalRequestProposal actor agentId project key
  | .approvalDecide actor approvalId approve => approvalDecideProposal actor approvalId approve
  | .revealClaim actor agentId project key approvalId => revealClaimProposal actor agentId project key approvalId

/-- The program of a mutation. -/
def Mutation.exec : Mutation α → SessionProg α
  | .projectAdd actor name paths => SecretsVault.projectAdd actor name paths
  | .projectPathAdd actor name path => SecretsVault.projectPathAdd actor name path
  | .projectPathRemove actor name path => SecretsVault.projectPathRemove actor name path
  | .projectRemove actor name => SecretsVault.projectRemove actor name
  | .secretSet actor project key value => SecretsVault.secretSet actor project key value
  | .secretDelete actor project key => SecretsVault.secretDelete actor project key
  | .agentAdd actor name => SecretsVault.agentAdd actor name
  | .agentRevoke actor name => SecretsVault.agentRevoke actor name
  | .grantAdd actor agentName projectName ops => SecretsVault.grantAdd actor agentName projectName ops
  | .grantRevoke actor agentName projectName => SecretsVault.grantRevoke actor agentName projectName
  | .leaseCreate actor agentId project ops ttlSecs => SecretsVault.leaseCreate actor agentId project ops ttlSecs
  | .leaseRevoke actor agentId leaseId => SecretsVault.leaseRevoke actor agentId leaseId
  | .approvalRequest actor agentId project key => SecretsVault.approvalRequest actor agentId project key
  | .approvalDecide actor approvalId approve => SecretsVault.approvalDecide actor approvalId approve
  | .revealClaim actor agentId project key approvalId => SecretsVault.revealClaim actor agentId project key approvalId

/-- Every mutation proposes first, and then commits. -/
theorem Mutation.exec_eq (m : Mutation α) : m.exec = committing m.proposal := by cases m <;> rfl

/-- The program of a call. -/
def Call.exec : Call α → SessionProg α
  | .mutate m => m.exec
  | .projectList actor => SecretsVault.projectList actor
  | .secretList project actor => SecretsVault.secretList project actor
  | .agentList actor => SecretsVault.agentList actor
  | .grantList actor => SecretsVault.grantList actor
  | .leaseList actor agentId => SecretsVault.leaseList actor agentId
  | .authorizeLease agentId project op credential => SecretsVault.authorizeLease agentId project op credential
  | .approvalStatus agentId approvalId => SecretsVault.approvalStatus agentId approvalId
  | .approvalPending actor => SecretsVault.approvalPending actor
  | .revealHuman actor project key => SecretsVault.revealHuman actor project key
  | .injectFile actor project relative keys => SecretsVault.injectFile actor project relative keys
  | .auditShowPage actor tail beforeSeq => SecretsVault.auditShowPage actor tail beforeSeq
  | .auditVerify => SecretsVault.auditVerify
  | .auditRecord record priority => auditRecordWith record priority
  | .auditRun record priority => auditRunWith record priority
  | .ensureRunUnlocked => SecretsVault.ensureRunUnlocked
  | .sessionOpen actor ttlSecs => SecretsVault.sessionOpen actor ttlSecs
  | .authorizeSession credential => SecretsVault.authorizeSession credential
  | .slideSession credential => SecretsVault.slideSession credential
  | .sessionTouch credential => SecretsVault.sessionTouch credential
  | .sessionClose credential => SecretsVault.sessionClose credential
  | .unlock passphrase => SecretsVault.unlock passphrase
  | .unlockWithProof derived => SecretsVault.unlockWithProof derived
  | .lock => modifySession Session.lock
  | .lockPersist => SecretsVault.lockPersist
  | .requireKeys => SecretsVault.requireKeys
  | .save => SecretsVault.save
  | .gcTerminalCredentials => SecretsVault.gcTerminalCredentials
  | .deferIdleLock => modifySession Session.deferIdleLock
  | .setAuditLimitsForTest soft hard => modifySession fun s => s.setAuditLimitsForTest soft hard

/-! ## Runs -/

/-- A process that has run a program: a panic ends it. -/
def World.ran (r : Outcome VaultError α × Sys) : World :=
  match r with
  | (.panic, t) => { session := none, host := t.host }
  | (_, t) => { session := some t.session, host := t.host }

/-- The world after a step. -/
def World.next (w : World) (st : Step) : World :=
  match st.input with
  | .call c =>
    match w.sys st.conditions with
    | none => { w with host := w.host.under st.conditions }
    | some s => World.ran (c.exec.run s)
  | .restart idleTimeout =>
    match (Session.load idleTimeout).run ((w.host.under st.conditions).releaseVault) with
    | (.ok session, host) => { session := some session, host }
    | (_, host) => { session := none, host }

theorem World.next_of_sys {w : World} {cond : Conditions} {c : Call α} {s : Sys} (hs : w.sys cond = some s) :
    w.next ⟨cond, .call c⟩ = World.ran (c.exec.run s) := by
  simp only [World.next, hs]

/-- Without a process a call does nothing. -/
theorem World.next_of_none {w : World} {cond : Conditions} {c : Call α} (hs : w.sys cond = none) :
    w.next ⟨cond, .call c⟩ = { w with host := w.host.under cond } := by
  simp only [World.next, hs]

/-- The world after a run. -/
def World.after (w : World) (run : List Step) : World := run.foldl World.next w

@[simp] theorem World.after_nil (w : World) : w.after [] = w := rfl

@[simp] theorem World.after_append (w : World) (a b : List Step) : w.after (a ++ b) = (w.after a).after b :=
  List.foldl_append

@[simp] theorem World.after_cons (w : World) (st : Step) (run : List Step) :
    w.after (st :: run) = (w.next st).after run := rfl

/-! ## Commits a call attempts -/

/-- A commit that is about to run. -/
structure Attempt where
  state : Sys
  doc : VaultDocument
  record : Record
  priority : Priority

/-- The commit of a lock. -/
def LockAttempt (s : Sys) (a : Attempt) : Prop :=
  ∃ u, s.session.unlocked = some u ∧ a = ⟨s, lockAll s.host.wall u.doc, lockRecord, .lifecycle⟩

/-- The session locks itself on its next call. -/
def Session.locksItself (s : Session) (now : Instant) : Bool := s.idleSelfLock && s.idleExpired now

/-- The commit of an idle lock. -/
def IdleAttempt (s : Sys) (a : Attempt) : Prop :=
  s.session.locksItself s.host.mono = true ∧ LockAttempt s a

/-- Whether a call looks at the idle window first. -/
def Call.idles : Call α → Bool
  | .mutate _ | .projectList _ | .secretList .. | .agentList _ | .grantList _ | .leaseList .. | .authorizeLease ..
  | .approvalStatus .. | .approvalPending _ | .revealHuman .. | .injectFile .. | .ensureRunUnlocked | .requireKeys
  | .save => true
  | _ => false

/-- The commits a call attempts from a state. -/
def Call.Attempts (c : Call α) (s : Sys) (a : Attempt) : Prop :=
  c.idles = true ∧ IdleAttempt s a ∨ match c with
    | .mutate m => ∃ q t, m.proposal.run s = (.ok q, t) ∧ a = ⟨t, q.doc, q.record, q.priority⟩
    | .authorizeLease agentId project op credential =>
      s.session.locksItself s.host.mono = false ∧ ∃ u leaseId, s.session.unlocked = some u ∧
        leaseVerdict u.doc agentId project op credential s.host.wall = .invalidate leaseId ∧
        a = ⟨s, invalidateLease u.doc leaseId s.host.wall,
          { actor := "agent:" ++ agentId, op := "lease.invalidate", project := some project, decision := .allowed },
          .ordinary⟩
    | .lockPersist => LockAttempt s a
    | _ => False

end

end SecretsVault
