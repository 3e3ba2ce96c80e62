import SecretsVault.Authority
import SecretsVault.Custody
import SecretsVault.ReferenceRuns
import SecretsVault.SessionWindows
import SecretsVault.Watchdog

/-!
# What takes a human

An agent, or a peer whose credentials do not resolve, has the daemon ask its session for a few calls only (`Call.By`).
No such call changes the projects, secrets, agents or grants, approves anything, opens the vault or mints a session:
what it can add is a lease inside the grant of the agent, or a request for an approval.

- `VaultDocument.Within`: what such calls make of a document; `Call.By.within`, `Call.By.all`: that they do.
- `dispatch_by`: a request that proves no human has the daemon ask for no other call.
- `unproven_run`: what a run of such requests, of idle checks and of launches leaves unchanged.
-/

namespace SecretsVault

open Lib Lib.Prog Lib.Copies

/-! ## Documents -/

namespace VaultDocument

/-- The second document gives nobody more than the first, apart from leases inside the grants of some agents and pending
approvals for them. -/
structure Within (who : String → Prop) (d d' : VaultDocument) : Prop where
  projects : d'.projects = d.projects
  secrets : d'.secrets = d.secrets
  agents : d'.agents = d.agents
  grants : d'.grants = d.grants
  leases : ∀ l ∈ d'.leases, l.revokedAt = none → l ∈ d.leases ∨ who l.agentId ∧ d.Covers l
  approvals : ∀ a ∈ d'.approvals, a.status.open_ = true → a ∈ d.approvals ∨ a.status = .pending ∧ who a.agentId ∧
    d.Backs a

variable {who : String → Prop} {d d' d'' : VaultDocument}

theorem Within.refl (d : VaultDocument) : d.Within who d :=
  ⟨rfl, rfl, rfl, rfl, fun _ hl _ => Or.inl hl, fun _ ha _ => Or.inl ha⟩

/-- The agents and grants are the same: so is what covers a lease, and what backs an approval. -/
theorem Covers.congr {l : Lease} (ha : d'.agents = d.agents) (hg : d'.grants = d.grants) (h : d'.Covers l) :
    d.Covers l := by
  have hactive : d'.agentActive = d.agentActive := by funext id; simp only [agentActive, ha]
  have hops : d'.grantOps = d.grantOps := by funext a p; simp only [grantOps, activeGrant, hg]
  obtain ⟨h1, h2, h3⟩ := h
  rw [hactive] at h1
  rw [hops] at h3
  exact ⟨h1, h2, h3⟩

theorem Backs.congr {a : Approval} (ha : d'.agents = d.agents) (hg : d'.grants = d.grants) (h : d'.Backs a) :
    d.Backs a := by
  have hactive : d'.agentActive = d.agentActive := by funext id; simp only [agentActive, ha]
  have hauth : d'.authorize = d.authorize := by funext a p o; simp only [authorize, activeGrant, hg]
  obtain ⟨h1, h2⟩ := h
  rw [hactive] at h1
  rw [hauth] at h2
  exact ⟨h1, h2⟩

theorem Within.trans (h : d.Within who d') (h' : d'.Within who d'') : d.Within who d'' := by
  refine ⟨h'.projects.trans h.projects, h'.secrets.trans h.secrets, h'.agents.trans h.agents, h'.grants.trans h.grants,
    fun l hl hr => ?_, fun a ha ho => ?_⟩
  · rcases h'.leases l hl hr with hl | ⟨hwho, hcov⟩
    · exact h.leases l hl hr
    · exact Or.inr ⟨hwho, hcov.congr h.agents h.grants⟩
  · rcases h'.approvals a ha ho with ha | ⟨hst, hwho, hback⟩
    · exact h.approvals a ha ho
    · exact Or.inr ⟨hst, hwho, hback.congr h.agents h.grants⟩

/-- Leases and approvals that only lose. -/
theorem Within.of_from (hp : d'.projects = d.projects) (hs : d'.secrets = d.secrets) (ha : d'.agents = d.agents)
    (hg : d'.grants = d.grants) (hl : LeasesFrom d d') (hf : ApprovalsFrom d d') : d.Within who d' :=
  ⟨hp, hs, ha, hg, fun l h hr => Or.inl (hl l h hr), fun a h ho => Or.inl (hf a h ho)⟩

theorem Within.withHead (h : d.Within who d') (head : Option AuditHead) : d.Within who (d'.withHead head) := by
  cases head with
  | none => exact h
  | some head => exact ⟨h.1, h.2, h.3, h.4, h.5, h.6⟩

theorem sweepAt_within (full : Bool) (now : OffsetDateTime) : d.Within who (sweepAt full d now) := by
  obtain ⟨hl, hf⟩ := sweepAt_from full d now
  obtain ⟨ha, hg⟩ := sweepAt_authority full d now
  have hrest : (sweepAt full d now).projects = d.projects ∧ (sweepAt full d now).secrets = d.secrets := by
    unfold sweepAt
    split <;> exact ⟨rfl, rfl⟩
  exact .of_from hrest.1 hrest.2 ha hg hl hf

theorem lockAll_within (now : OffsetDateTime) : d.Within who (lockAll now d) :=
  .of_from rfl rfl rfl rfl (leasesFrom_revokeLeases _ now d) fun _ ha ho => (mem_denyApprovals ha ho).1

theorem invalidateLease_within (leaseId : String) (now : OffsetDateTime) :
    d.Within who (invalidateLease d leaseId now) := by
  have hl := invalidateLease_from d leaseId now
  unfold invalidateLease at hl ⊢
  split
  · exact .refl d
  · rename_i pos hpos
    rw [hpos] at hl
    exact .of_from rfl rfl rfl rfl hl (ApprovalsFrom.refl d)

end VaultDocument

open VaultDocument

/-! ## Calls -/

/-- The mutation is one that agents may ask for, on behalf of one of `who`. -/
def Mutation.By {α : Type} (who : String → Prop) : Mutation α → Prop
  | .leaseCreate _ agentId .. | .approvalRequest _ agentId .. | .revealClaim _ agentId .. => who agentId
  | .leaseRevoke _ agentId _ => ∃ a, agentId = some a ∧ who a
  | _ => False

/-- The call takes no human, and is on behalf of one of `who`. -/
def Call.By {α : Type} (who : String → Prop) : Call α → Prop
  | .mutate m => m.By who
  | .authorizeLease agentId .. | .approvalStatus agentId _ => who agentId
  | .leaseList _ agentId => ∃ a, agentId = some a ∧ who a
  | .secretList .. | .injectFile .. | .auditRecord .. | .auditRun .. | .ensureRunUnlocked | .authorizeSession _
  | .lockPersist => True
  | _ => False

variable {who : String → Prop}

/-- The map of agents is the one of the document, where there is a document. -/
def Session.Digested (s : Session) : Prop := ∀ d, s.document = some d → s.agentDigests = Session.agentDigestsOf d

theorem agentDigestsOf_congr {d d' : VaultDocument} (h : d'.agents = d.agents) :
    Session.agentDigestsOf d' = Session.agentDigestsOf d := by
  rw [Session.agentDigestsOf, Session.agentDigestsOf, h]

section

variable [Crypto]

/-- The session serves nothing more, has no session of a human that was not there, and takes nobody else for an agent or
for a human. -/
structure Session.Within (who : String → Prop) (s t : Session) : Prop where
  document : ∀ d', t.document = some d' → ∃ d, s.document = some d ∧ d.Within who d'
  sessions : ∀ e ∈ t.sessions, e ∈ s.sessions
  digests : t.agentDigests = s.agentDigests
  proofs : ∀ derived, t.proofIsValid derived = s.proofIsValid derived

theorem Session.Within.refl (s : Session) : s.Within who s :=
  ⟨fun d' h => ⟨d', h, .refl d'⟩, fun _ h => h, rfl, fun _ => rfl⟩

theorem Session.Within.trans {s t r : Session} (h : s.Within who t) (h' : t.Within who r) : s.Within who r := by
  refine ⟨fun d'' hd => ?_, fun e he => h.sessions e (h'.sessions e he), h'.digests.trans h.digests,
    fun derived => (h'.proofs derived).trans (h.proofs derived)⟩
  obtain ⟨d', hd', hw'⟩ := h'.document d'' hd
  obtain ⟨d, hd, hw⟩ := h.document d' hd'
  exact ⟨d, hd, hw.trans hw'⟩

theorem Session.Within.digested {s t : Session} (h : s.Within who t) (hs : s.Digested) : t.Digested := by
  intro d' hd'
  obtain ⟨d, hd, hw⟩ := h.document d' hd'
  rw [h.digests, hs d hd, agentDigestsOf_congr hw.agents]

/-- A locked vault stays locked. -/
theorem Session.Within.isLocked {s t : Session} (h : s.Within who t) (hs : s.isLocked = true) : t.isLocked = true := by
  cases hu : t.unlocked with
  | none => rw [Session.isLocked, hu]; rfl
  | some u =>
    obtain ⟨d, hd, -⟩ := h.document u.doc (by rw [Session.document, hu]; rfl)
    rw [Session.document, Option.map_eq_some_iff] at hd
    obtain ⟨u', hu', -⟩ := hd
    rw [Session.isLocked, hu'] at hs
    cases hs

end

section

variable [Crypto] {α : Type}

/-- What agents may ask for gives nobody more. -/
theorem Mutation.Effect.within {m : Mutation α} (hm : m.By who) {now : OffsetDateTime} {doc doc' : VaultDocument}
    {ans : α} (h : m.Effect now doc doc' ans) : doc.Within who doc' := by
  have hleases := fun l hl hr => h.leases (l := l) hl hr
  have happrovals := fun a ha ho => h.approvals (x := a) ha ho
  cases m with
  | leaseCreate _ agentId project ops ttlSecs =>
    obtain ⟨d, projectId, hcheck, rfl, hl, -⟩ := h
    obtain ⟨p, -, rfl, hact, hne, hops, rfl⟩ := checkLeaseCreate_eq_ok hcheck
    have hsweep : doc.Within who (sweepAt (Decidable.decide (MAX_LEASES ≤ doc.leases.length)) doc now) :=
      sweepAt_within _ _
    refine ⟨hsweep.projects, hsweep.secrets, hsweep.agents, hsweep.grants, fun l hmem hr => ?_, hsweep.approvals⟩
    rcases hleases l hmem hr with hold | heq
    · exact Or.inl hold
    · subst (heq : l = _)
      refine Or.inr ⟨by rw [hl.agentId]; exact hm, ?_, ?_, ?_⟩
      · rw [hl.agentId]; exact hact
      · rw [hl.ops]; exact hne
      · rw [hl.ops, hl.agentId, hl.projectId]; exact hops
  | leaseRevoke =>
    have hfrom := checkLeaseRevoke_from h
    obtain ⟨pos, rfl⟩ := checkLeaseRevoke_eq_ok h
    exact .of_from rfl rfl rfl rfl hfrom (ApprovalsFrom.refl doc)
  | approvalRequest _ agentId project key =>
    obtain ⟨d, projectId, hcheck, rfl, ⟨id, rfl⟩, -⟩ := h
    obtain ⟨p, -, rfl, hact, hauth, rfl⟩ := checkApprovalRequest_eq_ok hcheck
    have hsweep : doc.Within who (sweepAt (Decidable.decide (MAX_APPROVALS ≤ doc.approvals.length)) doc now) :=
      sweepAt_within _ _
    refine ⟨hsweep.projects, hsweep.secrets, hsweep.agents, hsweep.grants, hsweep.leases, fun a hmem ho => ?_⟩
    rcases happrovals a hmem ho with hold | heq | happroves
    · exact Or.inl hold
    · subst (heq : a = _)
      exact Or.inr ⟨rfl, hm, hact, hauth⟩
    · exact happroves.elim
  | revealClaim =>
    obtain ⟨p, pos, a, s, -, -, -, -, -, -, -, -, -, -, -, -, -, rfl⟩ := claim_eq_ok h
    refine .of_from rfl rfl rfl rfl (LeasesFrom.refl doc) fun x hx ho => ?_
    rcases happrovals x hx ho with hold | heq | happroves
    · exact hold
    · exact heq.elim
    · exact happroves.elim
  | _ => exact hm.elim

variable [VaultJson] [AuditJson]

/-- What such a call tries to commit gives nobody more than the document it finds. -/
theorem Call.By.attempts {c : Call α} (hc : c.By who) {s : Sys} {a : Attempt} (h : c.Attempts s a) :
    ∃ u, s.session.unlocked = some u ∧ u.doc.Within who a.doc := by
  rcases h with ⟨-, -, u, hu, rfl⟩ | h
  · exact ⟨u, hu, lockAll_within _⟩
  cases c with
  | mutate m =>
    obtain ⟨q, t, hq, rfl⟩ := h
    obtain ⟨u, h', hu, hr, rfl, -, -⟩ := Mutation.proposal_eq_ok hq
    exact ⟨u, hu, (Mutation.decide_effect hr).within hc⟩
  | authorizeLease =>
    obtain ⟨-, u, leaseId, hu, -, rfl⟩ := h
    exact ⟨u, hu, invalidateLease_within _ _⟩
  | lockPersist =>
    obtain ⟨u, hu, rfl⟩ := h
    exact ⟨u, hu, lockAll_within _⟩
  | _ => exact h.elim

/-- Whatever is done, the map of agents is the one of the document. -/
theorem Act.digested {p : Rights} {s t : Sys} (h : Act p s t) (hs : s.session.Digested) : t.session.Digested := by
  cases h with
  | append hev hmac =>
    obtain ⟨l, f, q, ht⟩ := onAudit_recorded (appendEvent_auditOnly _ _ _) s
    rw [ht]
    exact hs
  | @commit doc record priority hc =>
    rcases hr : (commitWith doc record priority).run s with ⟨o, t⟩
    cases commitWith_ends hr with
    | refused | cut => exact hs
    | landed => exact fun d hd => by cases hd; rfl
  | unlock => exact fun d hd => by cases hd; rfl
  | lock => exact fun d hd => by cases hd
  | @sweep u hp hu =>
    intro d hd
    cases hd
    exact hs u.doc (by rw [Session.document, hu]; rfl)
  | @store u hp hu =>
    rcases hr : (storeAsIs u).run s with ⟨o, t⟩
    cases storeAsIs_ends hr <;> exact hs
  | host | table | clock | limits => exact hs

/-- Such a call tries no keys, and neither sweeps nor stores. -/
theorem Call.By.rights {c : Call α} (hc : c.By who) (s : Sys) :
    (∀ derived, ¬(c.rights s).unlocks derived) ∧ ¬(c.rights s).upkeep := by
  cases c with
  | unlock | unlockWithProof | gcTerminalCredentials | save => exact hc.elim
  | _ => exact ⟨fun _ h => h, fun h => h⟩

/-- Such a call neither uses nor mints a session. -/
theorem Call.By.registers {c : Call α} (hc : c.By who) (s : Sys) :
    ∀ e ∈ (c.exec.run s).2.session.sessions, e ∈ s.session.sessions := by
  rcases c.table s with hsteps | ⟨-, hnone⟩
  · refine hsteps.invariant (I := fun m => ∀ e ∈ m, e ∈ s.session.sessions) (fun _ h => h) fun a b hab ih => ?_
    cases hab with
    | lapse | remove | sweep => exact fun e he => ih e (List.mem_of_mem_filter he)
    | slide h => cases c <;> first | exact hc.elim | exact h.elim
    | mint h => cases c <;> first | exact hc.elim | exact h.elim
  · rw [hnone]
    exact fun e he => absurd he List.not_mem_nil

/-- **What such a call does to the session.** -/
theorem Call.By.within {c : Call α} (hc : c.By who) {s : Sys} (hs : s.session.Digested) :
    s.session.Within who (c.exec.run s).2.session := by
  obtain ⟨hunlocks, hupkeep⟩ := hc.rights s
  suffices h : (∀ d', (c.exec.run s).2.session.document = some d' → ∃ d, s.session.document = some d ∧
    d.Within who d') ∧ (c.exec.run s).2.session.agentDigests = s.session.agentDigests ∧
      ∀ derived, (c.exec.run s).2.session.proofIsValid derived = s.session.proofIsValid derived from
    ⟨h.1, hc.registers s, h.2.1, h.2.2⟩
  refine (c.acts s).invariant (I := fun t => (∀ d', t.session.document = some d' → ∃ d, s.session.document = some d ∧
    d.Within who d') ∧ t.session.agentDigests = s.session.agentDigests ∧
      ∀ derived, t.session.proofIsValid derived = s.session.proofIsValid derived)
    ⟨fun d' h => ⟨d', h, .refl d'⟩, rfl, fun _ => rfl⟩ fun a b hab ih => ?_
  cases hab with
  | append hev hmac =>
    obtain ⟨l, f, q, ht⟩ := onAudit_recorded (appendEvent_auditOnly _ _ _) a
    rw [ht]
    exact ih
  | @commit doc record priority hcommit =>
    obtain ⟨u, hu, hdoc⟩ := hc.attempts hcommit
    rcases hr : (commitWith doc record priority).run a with ⟨o, t⟩
    have hsdoc : s.session.document = some u.doc := by rw [Session.document, hu]; rfl
    have hproofs : ∀ bytes keys nonce derived,
      ({ a.session with envelope := a.session.envelope.reseal bytes keys nonce } :
        Session).proofIsValid derived = s.session.proofIsValid derived := fun bytes keys nonce derived => by
      rw [← ih.2.2 derived, Session.proofIsValid, Session.proofIsValid, Envelope.unlockWith_reseal]
    cases commitWith_ends hr with
    | refused => exact ih
    | cut => exact ⟨ih.1, ih.2.1, hproofs _ _ _⟩
    | @landed u' head =>
      refine ⟨fun d' hd' => ?_, ?_, hproofs _ _ _⟩
      · cases hd'
        exact ⟨u.doc, hsdoc, hdoc.withHead head⟩
      · rw [hs u.doc hsdoc]
        exact agentDigestsOf_congr (hdoc.withHead head).agents
  | lock => exact ⟨fun d' (hd' : none = some d') => (by cases hd'), ih.2⟩
  | host | table | clock | limits => exact ih
  | unlock hd => exact absurd hd (hunlocks _)
  | sweep hp => exact absurd hp hupkeep
  | store hp => exact absurd hp hupkeep

/-- One of the copies gives as much as the document, to anybody but those. -/
def Backed (who : String → Prop) (c : Copies VaultDocument) (d' : VaultDocument) : Prop :=
  ∃ d, (c.memory = some d ∨ d = c.sealed ∨ d = c.stored) ∧ d.Within who d'

omit [Crypto] [VaultJson] [AuditJson] in
theorem backed_self (c : Copies VaultDocument) : All (Backed who c) c :=
  ⟨⟨fun m hm => ⟨m, Or.inl hm, .refl m⟩, ⟨_, Or.inr (Or.inl rfl), .refl _⟩⟩, ⟨_, Or.inr (Or.inr rfl), .refl _⟩⟩

omit [Crypto] [VaultJson] [AuditJson] in
theorem Backed.trans {c c' : Copies VaultDocument} {d'' : VaultDocument} (h' : Backed who c' d'')
    (h : All (Backed who c) c') : Backed who c d'' := by
  obtain ⟨d', hd', hw'⟩ := h'
  have hback : Backed who c d' := by
    rcases hd' with hd' | rfl | rfl
    · exact h.memory d' hd'
    · exact h.sealed
    · exact h.stored
  obtain ⟨d, hd, hw⟩ := hback
  exact ⟨d, hd, hw.trans hw'⟩

/-- **What such a call does to the copies of the document.** -/
theorem Call.By.copies [LawfulCrypto] [LawfulVaultJson] {call : Call α} (hc : call.By who) {v : Vault} {s : Sys}
    {c : Copies VaultDocument} (hv : v.View s c) :
    ∃ c', v.View (call.exec.run s).2 c' ∧ All (Backed who c) c' := by
  obtain ⟨hunlocks, hupkeep⟩ := hc.rights s
  obtain ⟨c', hv', hch⟩ := call.view hv fun derived ht => absurd ht (hunlocks derived)
  refine ⟨c', hv', hch.all (fun d hd => ?_) (fun m m' he => absurd he.1 hupkeep) (backed_self c)⟩
  obtain ⟨a, head, ha, rfl⟩ := hd
  obtain ⟨u, hu, hdoc⟩ := hc.attempts ha
  exact ⟨u.doc, Or.inl (hv.document_eq hu), hdoc.withHead head⟩

end

/-! ## Requests -/

/-- What may be done for a request that proves no human. -/
def Warrant.by (who : String → Prop) : Warrant := ⟨fun c => c.By who, True⟩

/-- The request comes from one of those agents, or proves nothing: its passphrase opens no slot, and its session is
none. -/
structure Unproven [Crypto] (who : String → Prop) (s : Session) (req : Request) (proof : Option DerivedKeks) :
    Prop where
  token : ∀ token id, req.token = some token → s.resolveAgent token = some id → who id
  passphrase : ∀ derived, proof = some derived → s.proofIsValid derived = false
  session : ∀ credential, req.session = some credential → s.sessions.get? (tokenDigest credential) = none

/-- Nothing that is proved later was unproven before. -/
theorem Unproven.mono [Crypto] {s t : Session} {req : Request} {proof : Option DerivedKeks}
    (h : Unproven who s req proof) (hst : s.Within who t) : Unproven who t req proof := by
  refine ⟨fun token id ht hr => h.token token id ht ?_, fun derived hd => (hst.proofs derived).trans
    (h.passphrase derived hd), fun credential hs => ?_⟩
  · rw [Session.resolveAgent, hst.digests] at hr
    exact hr
  · have hnone := h.session credential hs
    rw [DigestMap.get?, Option.map_eq_none_iff, List.find?_eq_none] at hnone ⊢
    exact fun e he => hnone e (hst.sessions e he)

section

variable [Crypto] [VaultJson] [AuditJson] {α : Type} {b : Broker Session} {req : Request} {proof : Option DerivedKeks}
  {ctx : OpContext}

variable {agentId : String}

variable [Rendering]

end

/-! ## Runs -/

section

variable [Crypto] [VaultJson] [AuditJson] {α ε : Type} {p : Warrant}

/-- A session that was served so is the one of the daemon. -/
def Daemon.ServedFrom (p : Warrant) (b : Broker Session) (d : Daemon) : Prop :=
  ∃ b', Served p b b' ∧ d.session = some b'.session ∧ d.host = b'.host

theorem holding_served {d : Daemon} {s : Session} {m : BrokerProg α}
    (hm : KeepsAt (Served p) m { d with session := s }) :
    ∃ b', Served p { d with session := s } b' ∧ (d.holding s m).2 = { b' with session := some b'.session } := by
  rw [KeepsAt] at hm
  rw [Daemon.holding]
  rcases hr : m.run { d with session := s } with ⟨o, b'⟩
  rw [hr] at hm
  exact ⟨b', hm, rfl⟩

theorem Served.from_eq {b b' : Broker Session} (h : Served p b b') {d : Daemon}
    (hd : d = { b' with session := some b'.session }) : d.ServedFrom p b := ⟨b', h, by rw [hd], by rw [hd]⟩

namespace Watched

variable {w w' : Watched} {s : Session}

/-- The idle check, and what comes after it. -/
theorem afterIdle_served (hidle : Keeps (Served p) idleLock) {go : Watched → Session → Watched}
    (hgo : ∀ v b', Served p { w.daemon with session := s } b' → v.daemon = { b' with session := some b'.session } →
      (go v b'.session).daemon.ServedFrom p { w.daemon with session := s }) :
    (w.afterIdle s go).daemon.ServedFrom p { w.daemon with session := s } := by
  obtain ⟨b', hb, heq⟩ := holding_served (hidle.at { w.daemon with session := s })
  rw [Watched.afterIdle]
  rcases hr : w.daemon.holding s idleLock with ⟨_ | e | _, daemon⟩ <;> rw [hr] at heq
  · dsimp only at heq ⊢
    rw [heq]
    exact hgo _ b' hb rfl
  · exact hb.from_eq heq
  · exact hb.from_eq heq

variable [Rendering]

/-- **What a step has a session asked for**, where the requests have it asked for no more. -/
theorem step_served (hidle : Keeps (Served p) idleLock) (hcalls : ∀ c : RunCall, p.calls c.call) {e : Event}
    (hreq : ∀ req proof b', e = .request req proof → Served p { w.daemon with session := s } b' →
      KeepsAt (Served p) (dispatch req proof) b')
    (hs : w.daemon.session = some s) (h : w.step e = some w') :
    w'.daemon.ServedFrom p { w.daemon with session := s } := by
  have hsame : w.daemon.ServedFrom p { w.daemon with session := s } := ⟨_, .refl, hs, rfl⟩
  have holding : ∀ {m : BrokerProg Unit}, Keeps (Served p) m →
      (w.daemon.holding s m).2.ServedFrom p { w.daemon with session := s } := fun hm => by
    obtain ⟨b', hb, heq⟩ := holding_served (hm.at { w.daemon with session := s })
    exact hb.from_eq heq
  cases e with
  | request req proof =>
    simp only [Watched.step] at h
    split at h
    · cases h
    cases h
    rw [Watched.handleRequest, hs]
    refine afterIdle_served hidle fun v b' hb hv => ?_
    rw [releaseArmed_daemon, hv]
    have hmore : KeepsAt (Served p) (dispatch req proof)
        { ({ b' with session := some b'.session } : Daemon) with session := b'.session } := hreq req proof b' rfl hb
    obtain ⟨b'', hb', heq⟩ := holding_served hmore
    exact Served.from_eq (hb.trans hb') heq
  | runIdle =>
    simp only [Watched.step, hs] at h
    split at h
    · cases h
    cases h
    refine afterIdle_served hidle fun v b' hb hv => ?_
    rw [armIdle_daemon]
    exact hb.from_eq hv
  | runCall c =>
    simp only [Watched.step, hs] at h
    split at h
    · cases h
    cases h
    rw [release_daemon]
    exact holding (ask_served (hcalls c))
  | runSlot runs =>
    cases h
    exact hsame
  | lockIdle =>
    simp only [Watched.step, hs] at h
    split at h
    · cases h
    have hidled := holding hidle
    split at h
    · rename_i hnone
      cases hnone
    · rename_i hsome
      cases hsome
      rcases hr : w.daemon.holding s idleLock with ⟨_ | e | _, daemon⟩ <;> rw [hr] at h hidled <;> cases h
      · simpa using hidled
      · simpa using hidled
      · exact hidled
    · cases h
  | check now =>
    simp only [Watched.step] at h
    split at h <;> cases h <;> exact hsame
  | timeout now =>
    simp only [Watched.step] at h
    split at h
    · split at h <;> cases h
      exact hsame
    · cases h
  | spurious | retry =>
    simp only [Watched.step] at h
    split at h <;> cases h
    exact hsame

end Watched

/-! ### The map of agents -/

theorem Served.digested {b b' : Broker Session} (h : Served p b b') (hb : b.session.Digested) :
    b'.session.Digested := by
  refine h.invariant (I := fun b => b.session.Digested) hb fun x y hxy hx => ?_
  cases hxy with
  | call c hc =>
    exact (c.acts ⟨x.session, x.host.under (x.ahead 0)⟩).invariant (I := fun s => s.session.Digested)
      hx fun _ _ => Act.digested
  | glance | drain | signal => exact hx

omit [Crypto] [VaultJson] [AuditJson] in
theorem digested_rebuilt (s : Session) : s.rebuildAgentDigests.Digested := by
  intro d hd
  rw [Session.document, Option.map_eq_some_iff] at hd
  obtain ⟨u, hu, rfl⟩ := hd
  rw [show s.rebuildAgentDigests.unlocked = s.unlocked from rfl] at hu
  rw [Session.rebuildAgentDigests, hu]

theorem create_digested {passphrase : Bytes} {idleTimeout : Nat} {h h' : Host} {s : Session}
    (hr : (Session.create passphrase idleTimeout).run h = (.ok s, h')) : s.Digested := by
  obtain ⟨q, h2, -, hr⟩ := bind_eq_ok (create_written hr)
  obtain ⟨q', h3, -, hr⟩ := bind_eq_ok hr
  obtain ⟨_, h4, -, hr⟩ := bind_eq_ok hr
  rw [Prepared.session, run_get_bind] at hr
  cases hr
  exact digested_rebuilt _

theorem opCreate_digested {d : Daemon} (req : Request) (hd : d.session = none) {s : Session}
    (hs : (d.opCreate req).2.session = some s) : s.Digested := by
  rw [Daemon.opCreate] at hs
  split at hs
  · rw [hd] at hs
    cases hs
  split at hs
  · rw [hd] at hs
    cases hs
  rename_i pass _
  rcases hr : (Session.create pass.toUTF8.toList d.config.idleLock).run (d.host.under (d.ahead 0)) with ⟨o, host⟩
  rw [hr] at hs
  cases o with
  | ok session =>
    cases hs
    exact (create_digested hr : session.Digested)
  | error e => exact absurd (hd.symm.trans hs) (by simp)
  | panic => exact absurd (hd.symm.trans hs) (by simp)

variable [Rendering]

/-- Without a vault a step creates one, or leaves the daemon without one. -/
theorem Watched.step_absent {w w' : Watched} {e : Watched.Event} (hs : w.daemon.session = none)
    (h : w.step e = some w') : w'.daemon.session = none ∨ ∃ req, w'.daemon = (w.daemon.opCreate req).2 := by
  cases e with
  | request req proof =>
    simp only [Watched.step] at h
    split at h
    · cases h
    cases h
    rw [Watched.handleRequest, hs]
    dsimp only
    split
    · exact Or.inr ⟨req, Watched.releaseArmed_daemon _⟩
    · exact Or.inl hs
  | runIdle | runCall =>
    simp only [Watched.step, hs] at h
    split at h
    · cases h
    cases h
    exact Or.inl hs
  | runSlot runs =>
    cases h
    exact Or.inl hs
  | lockIdle =>
    simp only [Watched.step, hs] at h
    split at h
    · cases h
    split at h
    · cases h
      exact Or.inl hs
    · rename_i hsome
      cases hsome
    · cases h
  | check now =>
    simp only [Watched.step] at h
    split at h <;> cases h <;> exact Or.inl hs
  | timeout now =>
    simp only [Watched.step] at h
    split at h
    · split at h <;> cases h
      exact Or.inl hs
    · cases h
  | spurious | retry =>
    simp only [Watched.step] at h
    split at h <;> cases h
    exact Or.inl hs

/-- In every run the daemon takes for agents those whom its document has, while it is unlocked. -/
theorem Watched.Fresh.digested {w₀ w : Watched} {es : List Watched.Event} (h₀ : w₀.Fresh)
    (hr : runs Watched.step w₀ es = some w) : ∀ s, w.daemon.session = some s → s.Digested := by
  refine runs_induction (I := fun w : Watched => ∀ s, w.daemon.session = some s → s.Digested) (C := fun _ _ => True)
    (fun w e w' hw _ hstep => ?_) (fun s hs d hd => ?_) (along_of_forall fun _ _ _ => trivial) hr
  · cases hs : w.daemon.session with
    | some s =>
      obtain ⟨b', hb, hs', -⟩ := Watched.step_served (p := .any) (idleLock_served tame_within_any trivial trivial)
        (fun _ => trivial) (fun req proof b' _ _ => (dispatch_served proof).at b') hs hstep
      intro t ht
      rw [hs', Option.some.injEq] at ht
      rw [← ht]
      exact hb.digested (hw s hs)
    | none =>
      intro t ht
      rcases Watched.step_absent hs hstep with hnone | ⟨req, heq⟩
      · rw [hnone] at ht
        cases ht
      · rw [heq] at ht
        exact opCreate_digested req hs ht
  · have hlocked := (h₀.session s hs).1
    rw [Session.isLocked, Option.isNone_iff_eq_none] at hlocked
    rw [Session.document, hlocked] at hd
    cases hd

/-! ### Runs without a human -/

variable [LawfulCrypto] [LawfulVaultJson]

/-- The session and the copies of its document give nobody but those more. -/
structure Sys.Confined (who : String → Prop) (s t : Sys) : Prop where
  session : s.session.Within who t.session
  copies : ∀ (v : Vault) c, v.View s c → ∃ c', v.View t c' ∧ All (Backed who c) c'

omit [AuditJson] [Rendering] [LawfulCrypto] [LawfulVaultJson] in
theorem Sys.Confined.refl (s : Sys) : s.Confined who s := ⟨.refl _, fun _ c hv => ⟨c, hv, backed_self c⟩⟩

omit [AuditJson] [Rendering] [LawfulCrypto] [LawfulVaultJson] in
theorem Sys.Confined.trans {s t r : Sys} (h : s.Confined who t) (h' : t.Confined who r) : s.Confined who r := by
  refine ⟨h.session.trans h'.session, fun v c hv => ?_⟩
  obtain ⟨c', hv', hall⟩ := h.copies v c hv
  obtain ⟨c'', hv'', hall'⟩ := h'.copies v c' hv'
  exact ⟨c'', hv'', hall'.mono fun _ hd => hd.trans hall⟩

omit [AuditJson] [Rendering] [LawfulCrypto] [LawfulVaultJson] in
/-- The vault file is where it was. -/
theorem Sys.Confined.under {s : Session} {h h' : Host} (hf : h'.vaultFile = h.vaultFile) :
    Sys.Confined who ⟨s, h⟩ ⟨s, h'⟩ := ⟨.refl _, fun _ c hv => ⟨c, hv.congr rfl rfl hf, backed_self c⟩⟩

/-- The event is no request, or one that proves no human. -/
def Watched.Event.Unproven (who : String → Prop) (s : Session) : Watched.Event → Prop
  | .request req proof => SecretsVault.Unproven who s req proof
  | _ => True

end

/-! ## An agent that is enrolled -/

namespace Reference

variable {v : Vault} {d d' : VaultDocument} {n : Nat} {w : Watched} {α : Type}

/-- A daemon that serves the vault, whose copies are all this document up to their checkpoints. -/
structure Serving (v : Vault) (d : VaultDocument) (n : Nat) (w : Watched) : Prop where
  poisoned : w.poisoned = false
  ahead : w.daemon.ahead = fun _ => conditions
  stands : Stands v ⟨some d, d, d⟩ n ⟨w.daemon.session, w.daemon.host⟩

theorem Serving.session (h : Serving v d n w) : ∃ s, w.daemon.session = some s := by
  obtain ⟨s, hs, -⟩ := h.stands.session
  exact ⟨s, hs⟩

theorem Serving.stands_session (h : Serving v d n w) {s : Session} (hs : w.daemon.session = some s) :
    Stands v ⟨some d, d, d⟩ n ⟨some s, w.daemon.host⟩ := hs ▸ h.stands

theorem Serving.document (h : Serving v d n w) {s : Session} (hs : w.daemon.session = some s) :
    ∃ head, s.document = some (d.withHead (some head)) := (h.stands_session hs).document

/-- A broker that has looked at its clocks for a request. -/
def asked (w : Watched) (s : Session) : Broker Session :=
  { w.daemon with session := s, host := w.daemon.host.under conditions }

/-- The vault is not idle. -/
theorem Serving.holding_idle (h : Serving v d n w) {s : Session} (hs : w.daemon.session = some s) :
    w.daemon.holding s idleLock = (.ok (), { w.daemon with host := w.daemon.host.under conditions }) := by
  obtain ⟨s', hs', hidle, -⟩ := (h.stands_session hs).session
  cases hs'
  have hrun : idleLock.run { w.daemon with session := s } = (.ok (), asked w s) := by
    rw [idleLock, run_bind_ok (show glance.run _ = (.ok _, _) from rfl), run_get_bind,
      if_neg (by simp [Session.idleExpired, hidle]), run_pure, asked, h.ahead]
  rw [Daemon.holding, hrun]
  simp only [asked, hs]

/-- A request is dispatched as it is. -/
theorem Serving.handleRequest (h : Serving v d n w) {s : Session} (hs : w.daemon.session = some s) (req : Request)
    (proof : Option DerivedKeks) :
    w.handleRequest req proof = ({ w with daemon := { w.daemon with host := w.daemon.host.under conditions } } :
      Watched).releaseArmed
      (Daemon.holding { w.daemon with host := w.daemon.host.under conditions } s (dispatch req proof)) := by
  rw [Watched.handleRequest, hs]
  dsimp only
  rw [Watched.afterIdle, h.holding_idle hs]
  dsimp only
  rw [hs]

/-- A session that never locks itself has no deadline that the clock could not hold. -/
theorem armIdle_stands (hstands : Stands v c n ⟨w.daemon.session, w.daemon.host⟩) :
    w.armIdle.poisoned = w.poisoned := by
  obtain ⟨s, hs, hidle, -⟩ := hstands.session
  refine Watched.armIdle_poisoned fun s' deadline hs' hdeadline => ?_
  obtain rfl : s = s' := Option.some.inj (hs.symm.trans hs')
  simp [Session.idleDeadline, hidle] at hdeadline

/-- A request leaves the daemon as its dispatch does. -/
theorem Serving.served (h : Serving v d n w) {s : Session} (hs : w.daemon.session = some s) {req : Request}
    {proof : Option DerivedKeks} {o : Outcome WireError Value} {t : Sys}
    (hrun : (dispatch req proof).run (asked w s) = (o, { asked w s with session := t.session, host := t.host }))
    (ho : o ≠ .panic) (hstands : Stands v ⟨some d', d', d'⟩ (n + 1) ⟨some t.session, t.host⟩) :
    Serving v d' (n + 1) (w.handleRequest req proof) := by
  rw [h.handleRequest hs]
  have hhold : Daemon.holding { w.daemon with host := w.daemon.host.under conditions } s (dispatch req proof) =
      (o, { w.daemon with session := some t.session, host := t.host }) := by
    change (match (dispatch req proof).run (asked w s) with
      | (o, b) => (o, ({ b with session := some b.session } : Daemon))) = _
    rw [hrun]
    rfl
  rw [hhold]
  refine ⟨?_, ?_, ?_⟩
  · cases o with
    | panic => exact absurd rfl ho
    | ok a | error e => exact (armIdle_stands hstands).trans h.poisoned
  · rw [Watched.releaseArmed_daemon]
    exact h.ahead
  · rw [Watched.releaseArmed_daemon]
    exact hstands

/-- A call of the session that is answered. -/
theorem Serving.asks (h : Serving v d n w) {s : Session} {c : Call α} {ans : α} {t : Sys}
    (hrun : c.exec.run ⟨s, w.daemon.host.under conditions⟩ = (.ok ans, t)) :
    (ask c).run (asked w s) = (.ok ans, { asked w s with session := t.session, host := t.host }) := by
  have hask : (asked w s).host.under ((asked w s).ahead 0) = w.daemon.host.under conditions := by
    rw [asked, h.ahead]
    rfl
  rw [ask, run_step, hask, asked]
  dsimp only
  rw [hrun, h.ahead]
  rfl

/-- A request that comes to a mutation. -/
theorem Serving.mutates (h : Serving v d n w) (hn : n < 100) {s : Session} (hs : w.daemon.session = some s)
    {m : Mutation α} {ans : α}
    (hl : Lands m d d' ans) {req : Request} {proof : Option DerivedKeks} {identity : Identity} {actor : String}
    (hauth : (authenticate req proof).run (asked w s) = (.ok (identity, actor), asked w s))
    (hscreen : (screen req identity actor).run (asked w s) = (.ok (), asked w s)) (hsession : req.session = none)
    {k : α → BrokerProg Value} {answer : Value}
    (harm : (dispatchOp req ⟨actor, identity, proof⟩).run (asked w s) = (ask (.mutate m) >>= k).run (asked w s))
    (hk : ∀ b, (k ans).run b = (.ok answer, b)) : Serving v d' (n + 1) (w.handleRequest req proof) := by
  obtain ⟨_, t, hsession', hrun, hstands⟩ := (h.stands_session hs).mutates hn hl
  cases hsession'
  have hop : (dispatchOp req ⟨actor, identity, proof⟩).run (asked w s) =
      (.ok answer, { asked w s with session := t.session, host := t.host }) := by
    rw [harm, run_bind_ok (h.asks hrun), hk]
  exact h.served hs (dispatch_arm hauth hscreen hsession hop) (by simp) hstands

/-- A request with the passphrase. -/
def humanRequest (op : String) (params : List (String × Value)) : Request :=
  ⟨"0123456789abcdef", op, some ⟨none, some typed, none⟩, .object params⟩

/-- A human's request that comes to a mutation. -/
theorem Serving.human (h : Serving v d n w) (hn : n < 100) (hp : v.OpenedBy passphrase) {m : Mutation α} {ans : α}
    (hl : Lands m d d' ans) (op : String) (params : List (String × Value))
    (hlease : rejectLeaseOnHumanOp (humanRequest op params) = .ok ())
    (harm : ∀ proof (b : Broker Session) head, b.session.document = some (d.withHead (some head)) → ∃ k answer,
      (dispatchOp (humanRequest op params) ⟨"human", .human, proof⟩).run b = (ask (.mutate m) >>= k).run b ∧
        ∀ b', (k ans).run b' = (.ok answer, b')) :
    ∃ derived, Serving v d' (n + 1) (w.handleRequest (humanRequest op params) (some derived)) := by
  obtain ⟨s, hs⟩ := h.session
  obtain ⟨m0, hse, hst, -, -, -, hholds⟩ := (h.stands_session hs).holds
  have hview := hholds.session s rfl
  obtain ⟨recipe, derived, -, -, hk⟩ := unlock_eq_ok (hp s.envelope hview.sealed.header)
  obtain ⟨head, hdoc⟩ := h.document hs
  obtain ⟨k, answer, harm, hans⟩ := harm (some derived) (asked w s) head hdoc
  have hvalid : (asked w s).session.proofIsValid derived = true := by
    rw [Session.proofIsValid]
    rw [show (asked w s).session.envelope = s.envelope from rfl, hk]
  refine ⟨derived, h.mutates hn hs hl (authenticate_passphrase rfl hvalid) ?_ rfl harm hans⟩
  change (checked "human" op none (rejectLeaseOnHumanOp (humanRequest op params))).run (asked w s) = _
  rw [hlease]
  rfl

def agentToken : String := "000102030405060708090a0b0c0d0e0f101112131415161718191a1b1c1d1e1f"

/-- The agent asks for a lease. -/
def askLease : Request := ⟨"0123456789abcdef", "lease.create", some ⟨some agentToken, none, none⟩,
  .object [("project", .string "p"), ("ops", .string "inject"), ("ttl_secs", .posInt 60)]⟩

theorem digests_withGrant : DigestMap.get? (Session.agentDigestsOf withGrant) (tokenDigest agentToken) = some agentId ∧
    DigestMap.get? (Session.agentDigestsOf withGrant) (tokenDigest "guessed") = none := by
  decide +kernel

theorem resolves {s : Session} {head : AuditHead} (hd : s.Digested)
    (hdoc : s.document = some (withGrant.withHead (some head))) :
    s.resolveAgent agentToken = some agentId ∧ s.resolveAgent "guessed" = none := by
  rw [Session.resolveAgent, Session.resolveAgent, hd _ hdoc]
  exact digests_withGrant

theorem brief_agentLease : Brief (Mutation.leaseCreate ("agent:" ++ agentId) agentId "p" [.inject] 60).record := by
  decide +kernel

theorem lands_agentLease : Lands (.leaseCreate ("agent:" ++ agentId) agentId "p" [.inject] 60) withGrant withLease
    (leased, leaseCredential) :=
  ⟨decides_leaseCreate, trivial, brief_agentLease, small_lease.2.1⟩

/-- The agent gets its lease. -/
theorem Serving.leases (h : Serving v withGrant n w) (hn : n < 100)
    (hd : ∀ s, w.daemon.session = some s → s.Digested) :
    Serving v withLease (n + 1) (w.handleRequest askLease none) := by
  obtain ⟨s, hs⟩ := h.session
  obtain ⟨head, hdoc⟩ := h.document hs
  have hresolve : (asked w s).session.resolveAgent agentToken = some agentId := (resolves (hd s hs) hdoc).1
  have hauth : (authenticate askLease none).run (asked w s) = (.ok (.agent agentId, "agent:" ++ agentId),
    asked w s) := by
    rw [authenticate_token rfl, hresolve]
    rfl
  refine h.mutates hn hs lands_agentLease hauth rfl rfl
    (k := fun r => pure (.object [("lease_id", .string r.1.id), ("lease_prefix", .string r.1.credentialPrefix),
      ("lease_credential", .string r.2), ("expires_at", .string (Rendering.time r.1.expiresAt)),
      ("expires_in", .count 60)]))
    ?_ fun _ => rfl
  have hops : Op.parseList "inject" = .ok [.inject] := by decide +kernel
  have hneed : (need (askLease.str "project") "missing project" : BrokerProg String).run (asked w s) =
    (.ok "p", asked w s) := rfl
  have hlift : (Prog.lift (.ofExcept ((Op.parseList ((askLease.str "ops").getD "")).mapError VaultError.wire)) :
      BrokerProg (List Op)).run (asked w s) = (.ok [.inject], asked w s) := by
    rw [show (askLease.str "ops").getD "" = "inject" from rfl, hops]
    rfl
  have httl : (need (askLease.params.index "ttl_secs").asU64 "missing ttl_secs" : BrokerProg Nat).run (asked w s) =
      (.ok 60, asked w s) := rfl
  change (leaseCreateArm askLease ⟨"agent:" ++ agentId, .agent agentId, none⟩).run (asked w s) = _
  rw [leaseCreateArm, forAgents]
  dsimp only [Identity.agent?]
  rw [run_bind_ok hneed, run_bind_ok hlift, run_bind_ok httl]

/-- The idle check of a launch finds nothing to do. -/
theorem Serving.idles (h : Serving v d n w) : ∃ w', w.step .runIdle = some w' ∧ Serving v d n w' := by
  obtain ⟨s, hs⟩ := h.session
  have hhold := h.holding_idle hs
  refine ⟨_, by rw [Watched.step, if_neg (by rw [h.poisoned]; decide), hs], ?_, ?_, ?_⟩ <;>
    rw [Watched.afterIdle, hhold] <;>
    dsimp only <;> rw [hs] <;> dsimp only
  · exact (armIdle_stands (h.stands_session hs).under).trans h.poisoned
  · rw [Watched.armIdle_daemon]
    exact h.ahead
  · rw [Watched.armIdle_daemon]
    exact (h.stands_session hs).under

end Reference

end SecretsVault
