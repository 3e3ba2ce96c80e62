import SecretsVault.Acts

/-!
# The acts of every call

- `Mutation.decide`, `Mutation.record`, `Mutation.priority`: what a mutation makes of the document, what it is recorded
  as, and whether it may go unrecorded.
- `Mutation.proposal_eq_ok`: what is proposed was decided on the document the call found.
- `Call.rights`, `Call.acts`: a call is a sequence of acts whose commits are those it attempts.
-/

namespace SecretsVault

open Lib Lib.Prog Host

section

variable [Crypto] {α : Type}

/-- The decision of a mutation. -/
def Mutation.decide : Mutation α → VaultDocument → Prog VaultError Host (VaultDocument × α)
  | .projectAdd _ name paths, doc => doProjectAdd doc name paths
  | .projectPathAdd _ name path, doc => doProjectPathAdd doc name path
  | .projectPathRemove _ name path, doc => doProjectPathRemove doc name path
  | .projectRemove _ name, doc => doProjectRemove doc name
  | .secretSet _ project key value, doc => doSecretSet doc project key value
  | .secretDelete _ project key, doc => doSecretDelete doc project key
  | .agentAdd _ name, doc => doAgentAdd doc name
  | .agentRevoke _ name, doc => deciding (agentRevoked doc name)
  | .grantAdd _ agentName projectName ops, doc => deciding (doGrantAdd doc agentName projectName ops)
  | .grantRevoke _ agentName projectName, doc => deciding (doGrantRevoke doc agentName projectName)
  | .leaseCreate _ agentId project ops ttlSecs, doc => do
    let h ← .get
    let (doc, projectId) ← .lift (.ofExcept (checkLeaseCreate doc agentId project ops ttlSecs h.wall))
    mintLease doc agentId projectId ops ttlSecs h.wall
  | .leaseRevoke _ agentId leaseId, doc => deciding (checkLeaseRevoke doc agentId leaseId)
  | .approvalRequest _ agentId project key, doc => do
    let h ← .get
    let (doc, projectId) ← .lift (.ofExcept (checkApprovalRequest doc agentId project key h.wall))
    mintApproval doc agentId projectId key h.wall
  | .approvalDecide _ approvalId approve, doc => deciding (checkApprovalDecide doc approvalId approve)
  | .revealClaim _ agentId project key approvalId, doc => do
    let h ← .get
    .lift (.ofExcept (claim doc agentId project key approvalId h.wall))

/-- What a mutation is recorded as. -/
def Mutation.record : Mutation α → Record
  | .projectAdd actor name _ => { actor, op := "project.add", project := some name, decision := .allowed }
  | .projectPathAdd actor name path =>
    { actor, op := "project.path.add", project := some name, target := some path, decision := .allowed }
  | .projectPathRemove actor name path =>
    { actor, op := "project.path.remove", project := some name, target := some path, decision := .allowed }
  | .projectRemove actor name => { actor, op := "project.remove", project := some name, decision := .allowed }
  | .secretSet actor project key _ =>
    { actor, op := "secret.set", project := some project, keys := [key], decision := .allowed }
  | .secretDelete actor project key =>
    { actor, op := "secret.delete", project := some project, keys := [key], decision := .allowed }
  | .agentAdd actor _ => { actor, op := "agents.add", decision := .allowed }
  | .agentRevoke actor _ => { actor, op := "agents.revoke", decision := .allowed }
  | .grantAdd actor _ projectName _ => { actor, op := "grants.grant", project := some projectName,
                                         decision := .allowed }
  | .grantRevoke actor _ projectName => { actor, op := "grants.revoke", project := some projectName,
                                          decision := .allowed }
  | .leaseCreate actor _ project _ _ => { actor, op := "lease.create", project := some project, decision := .allowed }
  | .leaseRevoke actor _ _ => { actor, op := "lease.revoke", decision := .allowed }
  | .approvalRequest actor _ project key =>
    { actor, op := "approval.request", project := some project, keys := [key], decision := .allowed }
  | .approvalDecide actor _ approve =>
    { actor, op := if approve then "approval.approve" else "approval.deny", decision := .allowed }
  | .revealClaim actor _ project key _ =>
    { actor, op := "reveal", project := some project, keys := [key], decision := .allowed }

/-- The priority a mutation of a document is recorded with. -/
def Mutation.priority : Mutation α → VaultDocument → Priority
  | .agentRevoke .., _ | .grantRevoke .., _ | .leaseRevoke .., _ => .lifecycle
  | .grantAdd _ agentName projectName ops, doc =>
    if isReduction doc agentName projectName ops then .lifecycle else .ordinary
  | _, _ => .ordinary

theorem Mutation.decide_quiet (m : Mutation α) (doc : VaultDocument) : Keeps Quiet (m.decide doc) := by
  cases m with
  | projectAdd => exact doProjectAdd_quiet _ _ _
  | projectPathAdd => exact doProjectPathAdd_quiet _ _ _
  | projectPathRemove => exact doProjectPathRemove_quiet _ _ _
  | projectRemove => exact doProjectRemove_quiet _ _
  | secretSet => exact doSecretSet_quiet _ _ _ _
  | secretDelete => exact doSecretDelete_quiet _ _ _
  | agentAdd => exact doAgentAdd_quiet _ _
  | agentRevoke => exact deciding_quiet _
  | grantAdd => exact deciding_quiet _
  | grantRevoke => exact deciding_quiet _
  | leaseCreate => exact keeps_get.bind fun _ => (keeps_lift _).bind fun _ => mintLease_quiet _ _ _ _ _ _
  | leaseRevoke => exact deciding_quiet _
  | approvalRequest => exact keeps_get.bind fun _ => (keeps_lift _).bind fun _ => mintApproval_quiet _ _ _ _ _
  | approvalDecide => exact deciding_quiet _
  | revealClaim => exact keeps_get.bind fun _ => keeps_lift _

omit [Crypto] in
theorem deciding_run {f : OffsetDateTime → Except VaultError VaultDocument} {h : Host} {doc : VaultDocument}
    (hf : f h.wall = .ok doc) : (deciding f).run h = (.ok (doc, ()), h) := by
  simp only [deciding, run_bind, run_get, run_lift, hf]
  rfl

variable [VaultJson] [AuditJson]

/-- What is proposed was decided on the document the call found. -/
theorem Mutation.proposal_eq_ok {m : Mutation α} {s t : Sys} {q : Proposal α} (h : m.proposal.run s = (.ok q, t)) :
    ∃ u h', s.session.unlocked = some u ∧ (m.decide u.doc).run s.host = (.ok (q.doc, q.answer), h') ∧
      t = { s with host := h' } ∧ q.record = m.record ∧ q.priority = m.priority u.doc := by
  have gated {record : Record} {denied : Option String} {priority : VaultDocument → Priority}
      {decide : VaultDocument → Prog VaultError Host (VaultDocument × α)}
      (h : (propose record denied priority decide).run s = (.ok q, t)) :
      ∃ u h', s.session.unlocked = some u ∧ (decide u.doc).run s.host = (.ok (q.doc, q.answer), h') ∧
        t = { s with host := h' } ∧ q.record = record ∧ q.priority = priority u.doc := propose_eq_ok h
  cases m with
  | projectAdd => rw [Mutation.proposal, projectAddProposal] at h; exact gated h
  | projectPathAdd => rw [Mutation.proposal, projectPathAddProposal] at h; exact gated h
  | projectPathRemove => rw [Mutation.proposal, projectPathRemoveProposal] at h; exact gated h
  | projectRemove => rw [Mutation.proposal, projectRemoveProposal] at h; exact gated h
  | secretSet => rw [Mutation.proposal, secretSetProposal] at h; exact gated h
  | secretDelete => rw [Mutation.proposal, secretDeleteProposal] at h; exact gated h
  | agentAdd => rw [Mutation.proposal, agentAddProposal] at h; exact gated h
  | agentRevoke => rw [Mutation.proposal, agentRevokeProposal] at h; exact gated h
  | grantAdd => rw [Mutation.proposal, grantAddProposal] at h; exact gated h
  | grantRevoke => rw [Mutation.proposal, grantRevokeProposal] at h; exact gated h
  | leaseCreate actor agentId project ops ttlSecs =>
    obtain ⟨u, s1, h1, hk⟩ := bind_eq_ok h
    obtain ⟨rfl, hu, -⟩ := requireOpen_eq_ok h1
    rw [run_get_bind] at hk
    obtain ⟨⟨d, projectId⟩, s2, h2, hk'⟩ := bind_eq_ok hk
    obtain ⟨rfl, hcheck⟩ := decideOr_eq_ok h2
    rw [run_bind, onHost, run_zoom] at hk'
    rcases hr : (mintLease d agentId projectId ops ttlSecs s2.host.wall).run s2.host with ⟨⟨doc, a⟩ | e | _, h'⟩ <;>
      rw [hr] at hk' <;> cases hk'
    refine ⟨u, h', hu, ?_, rfl, rfl, rfl⟩
    simp only [decide, run_bind, run_get, run_lift, hcheck]
    exact hr
  | leaseRevoke actor agentId leaseId =>
    obtain ⟨u, s1, h1, hk⟩ := bind_eq_ok h
    obtain ⟨rfl, hu, -⟩ := requireOpen_eq_ok h1
    rw [run_get_bind] at hk
    obtain ⟨d, s2, h2, hk'⟩ := bind_eq_ok hk
    obtain ⟨rfl, hcheck⟩ := decideOr_eq_ok h2
    cases hk'
    exact ⟨u, _, hu, deciding_run hcheck, rfl, rfl, rfl⟩
  | approvalRequest actor agentId project key =>
    obtain ⟨u, s1, h1, hk⟩ := bind_eq_ok h
    obtain ⟨rfl, hu, -⟩ := requireOpen_eq_ok h1
    rw [run_get_bind] at hk
    obtain ⟨⟨d, projectId⟩, s2, h2, hk'⟩ := bind_eq_ok hk
    obtain ⟨rfl, hcheck⟩ := decideOr_eq_ok h2
    rw [run_bind, onHost, run_zoom] at hk'
    rcases hr : (mintApproval d agentId projectId key s2.host.wall).run s2.host with ⟨⟨doc, a⟩ | e | _, h'⟩ <;>
      rw [hr] at hk' <;> cases hk'
    refine ⟨u, h', hu, ?_, rfl, rfl, rfl⟩
    simp only [decide, run_bind, run_get, run_lift, hcheck]
    exact hr
  | approvalDecide actor approvalId approve =>
    obtain ⟨u, s1, h1, hk⟩ := bind_eq_ok h
    obtain ⟨rfl, hu, -⟩ := requireHuman_eq_ok h1
    rw [run_get_bind] at hk
    obtain ⟨d, s2, h2, hk'⟩ := bind_eq_ok hk
    obtain ⟨rfl, hcheck⟩ := decideOr_eq_ok h2
    cases hk'
    exact ⟨u, _, hu, deciding_run hcheck, rfl, rfl, rfl⟩
  | revealClaim actor agentId project key approvalId =>
    obtain ⟨u, s1, h1, hk⟩ := bind_eq_ok h
    obtain ⟨rfl, hu, -⟩ := requireOpen_eq_ok h1
    rw [run_get_bind] at hk
    obtain ⟨⟨d, value⟩, s2, h2, hk'⟩ := bind_eq_ok hk
    obtain ⟨rfl, hcheck⟩ := decideOr_eq_ok h2
    cases hk'
    refine ⟨u, _, hu, ?_, rfl, rfl, rfl⟩
    simp only [decide, run_bind, run_get, run_lift, hcheck]
    rfl

/-! ## Rights of a call -/

/-- The keys a call tries. -/
def Call.Tries (c : Call α) (e : Envelope) (derived : DerivedKeks) : Prop :=
  match c with
  | .unlock passphrase => ∃ recipe, e.kekRecipe = .ok recipe ∧ recipe.derive passphrase = .ok derived
  | .unlockWithProof d => derived = d
  | _ => False

/-- Whether a call locks the session. -/
def Call.Locks (c : Call α) (s : Sys) : Prop :=
  c.idles = true ∧ s.session.locksItself s.host.mono = true ∨ match c with
    | .lock | .lockPersist => True
    | _ => False

/-- Whether a call may mint a human session. -/
def Call.Mints : Call α → Prop
  | .sessionOpen .. => True
  | _ => False

/-- Whether a call may change the table of human sessions. -/
def Call.Registers : Call α → Prop
  | .sessionOpen .. | .authorizeSession _ | .slideSession _ | .sessionTouch _ | .sessionClose _ => True
  | _ => False

/-- Whether a call may count as activity. -/
def Call.Active : Call α → Prop
  | .unlock _ | .unlockWithProof _ | .requireKeys | .save => True
  | _ => False

/-- Whether a call may write under the folders. -/
def Call.Writes : Call α → Prop
  | .injectFile .. => True
  | _ => False

/-- Whether a call may sweep the document, or store it as it is. -/
def Call.Keeps : Call α → Prop
  | .gcTerminalCredentials | .save => True
  | _ => False

/-- What a call may do from a state. -/
def Call.rights (c : Call α) (s : Sys) : Rights :=
  { commits := c.Attempts s
    unlocks := c.Tries s.session.envelope
    locks := c.Locks s
    mints := c.Mints
    registers := c.Registers
    active := c.Active
    writes := c.Writes
    upkeep := c.Keeps }

variable {p : Rights} {s : Sys}

/-! ## The acts of the operations -/

theorem Mutation.proposal_acts (m : Mutation α) (hc : MayIdle p s) :
    KeepsAt (Acts p) m.proposal s := by
  cases m with
  | projectAdd => exact propose_acts (fun _ => doProjectAdd_quiet _ _ _) hc
  | projectPathAdd => exact propose_acts (fun _ => doProjectPathAdd_quiet _ _ _) hc
  | projectPathRemove => exact propose_acts (fun _ => doProjectPathRemove_quiet _ _ _) hc
  | projectRemove => exact propose_acts (fun _ => doProjectRemove_quiet _ _) hc
  | secretSet => exact propose_acts (fun _ => doSecretSet_quiet _ _ _ _) hc
  | secretDelete => exact propose_acts (fun _ => doSecretDelete_quiet _ _ _) hc
  | agentAdd => exact propose_acts (fun _ => doAgentAdd_quiet _ _) hc
  | agentRevoke => exact propose_acts (fun _ => deciding_quiet _) hc
  | grantAdd => exact propose_acts (fun _ => deciding_quiet _) hc
  | grantRevoke => exact propose_acts (fun _ => deciding_quiet _) hc
  | leaseCreate actor agentId project ops ttlSecs =>
    refine (requireOpen_acts _ _ _ _ hc).bind fun u t _ => Keeps.at ?_ t
    exact keeps_get.bind fun _ => (decideOr_acts _ _ _ _ _).bind fun _ =>
      (onHost_acts (mintLease_quiet _ _ _ _ _ _)).bind
      fun _ => keeps_pure _
  | leaseRevoke actor agentId leaseId =>
    refine (requireOpen_acts _ _ _ _ hc).bind fun u t _ => Keeps.at ?_ t
    exact keeps_get.bind fun _ => (decideOr_acts _ _ _ _ _).bind fun _ => keeps_pure _
  | approvalRequest actor agentId project key =>
    refine (requireOpen_acts _ _ _ _ hc).bind fun u t _ => Keeps.at ?_ t
    exact keeps_get.bind fun _ => (decideOr_acts _ _ _ _ _).bind fun _ =>
      (onHost_acts (mintApproval_quiet _ _ _ _ _)).bind
      fun _ => keeps_pure _
  | approvalDecide actor approvalId approve =>
    refine (requireHuman_acts _ _ hc).bind fun u t _ => Keeps.at ?_ t
    exact keeps_get.bind fun _ => (decideOr_acts _ _ _ _ _).bind fun _ => keeps_pure _
  | revealClaim actor agentId project key approvalId =>
    refine (requireOpen_acts _ _ _ _ hc).bind fun u t _ => Keeps.at ?_ t
    exact keeps_get.bind fun _ => (decideOr_acts _ _ _ _ _).bind fun _ => keeps_pure _

/-- A mutation is the acts of its proposal and the commit of what was proposed. -/
theorem committing_acts {prepare : SessionProg (Proposal α)} (hp : KeepsAt (Acts p) prepare s)
    (hc : ∀ q t, prepare.run s = (.ok q, t) → p.commits ⟨t, q.doc, q.record, q.priority⟩) :
    KeepsAt (Acts p) (committing prepare) s := by
  refine hp.bind fun q t ht => ?_
  exact KeepsAt.bind (.single (.commit (hc q t ht))) fun _ t _ => (keeps_pure _).at t

theorem reading_acts {record : Record} {f : VaultDocument → Except VaultError α}
    (hc : MayIdle p s) : KeepsAt (Acts p) (reading record f) s := by
  refine (gate_acts _ _ _ _ hc).bind fun _ t _ => Keeps.at (requireUnlocked_acts.bind fun u => ?_) t
  split
  · exact (auditRecord_acts _).bind fun _ => keeps_pure _
  · exact deny_acts _ _ _ _ _

theorem authorizeLease_acts {agentId project : String} {op : Op} {credential : Option String}
    (hc : ∀ a, (Call.authorizeLease agentId project op credential).Attempts s a → p.commits a)
    (hl : s.session.locksItself s.host.mono = true → p.locks) :
    KeepsAt (Acts p) (authorizeLease agentId project op credential) s := by
  refine (requireOpen_acts _ _ _ _ ⟨fun a ha => hc a (Or.inl ⟨rfl, ha⟩), hl⟩).bind fun u t ht => ?_
  obtain ⟨rfl, hu, hidle⟩ := requireOpen_eq_ok ht
  refine (keeps_get.at t).bind fun t' _ h => ?_
  cases h
  split
  · exact (deny_acts _ _ _ _ _).at t
  · rename_i leaseId hv
    refine KeepsAt.bind (KeepsAt.ignore (.single (.commit (hc _ (Or.inr ?_))))) fun _ t' _ =>
      (deny_acts _ _ _ _ _).at t'
    exact ⟨hidle, u, leaseId, hu, hv, rfl⟩
  · exact ((auditRecord_acts _).ignore.bind fun _ => keeps_pure _).at t

theorem injectFile_acts {actor project relative : String} {keys : Option (List String)} (hp : p.writes)
    (hc : MayIdle p s) : KeepsAt (Acts p) (injectFile actor project relative keys) s := by
  refine (gate_acts _ _ _ _ hc).bind fun _ t _ => Keeps.at (requireUnlocked_acts.bind fun u => ?_) t
  refine (onHost_writes hp (doInjectFile_undisturbed _ _ _ _)).attempt.bind fun r => ?_
  split
  · exact (auditRecord_acts _).bind fun _ => keeps_pure _
  · exact deny_acts _ _ _ _ _

/-! ## The acts of human sessions -/

theorem table_acts {f : DigestMap HumanSession → DigestMap HumanSession} (hp : p.registers)
    (hf : ∀ t, ((f t).map (·.1)).Sublist (t.map (·.1))) :
    Keeps (Acts p) (modifySession fun t => { t with sessions := f t.sessions }) :=
  fun _ => .single (.table hp (Or.inr (hf _)))

omit [Crypto] [VaultJson] [AuditJson] in
theorem mem_remove {β : Type} {m : DigestMap β} {d : Digest} {e : Digest × β} (h : e ∈ m.remove d) : e ∈ m :=
  List.mem_of_mem_filter h

theorem remove_acts (hp : p.registers) (d : Digest) :
    Keeps (Acts p) (modifySession fun t => { t with sessions := t.sessions.remove d }) :=
  table_acts hp fun _ => List.filter_sublist.map _

omit [Crypto] [VaultJson] [AuditJson] in
/-- Making room only drops sessions. -/
theorem makeRoom_sub (s : Session) (now : Instant) :
    ∃ t, s.makeRoom now = { s with sessions := t } ∧ t.Sublist s.sessions := by
  have hsweep : (s.sweepLapsedSessions now).sessions.Sublist s.sessions := List.filter_sublist
  unfold Session.makeRoom
  dsimp only
  split
  · split
    · exact ⟨_, rfl, List.filter_sublist.trans hsweep⟩
    · exact ⟨_, rfl, hsweep⟩
  · exact ⟨_, rfl, hsweep⟩

theorem slideSession_acts (hp : p.registers) (credential : String) : Keeps (Acts p) (slideSession credential) := by
  intro s
  have hdigests : (s.session.slide (tokenDigest credential) s.host.mono).sessions.map (·.1) =
      s.session.sessions.map (·.1) := by
    simp only [Session.slide, List.map_map]
    exact List.map_congr_left fun e _ => by dsimp only [Function.comp]; split <;> rfl
  have hsub : ((s.session.slide (tokenDigest credential) s.host.mono).sessions.map (·.1)).Sublist
      (s.session.sessions.map (·.1)) := by rw [hdigests]
  exact .single (.table hp (Or.inr hsub))

theorem validSession_acts (hp : p.registers) (op credential : String) :
    Keeps (Acts p) (validSession op credential) := by
  have hv : Keeps (Acts p) (validateSession credential) := by
    refine keeps_get.bind fun s => ?_
    dsimp only
    split
    · exact keeps_fail _
    · split
      · exact (remove_acts hp _).bind fun _ => keeps_fail _
      · exact keeps_pure _
  refine hv.attempt.bind fun r => ?_
  split
  · exact keeps_pure _
  · exact deny_acts _ _ _ _ _

theorem authorizeSession_acts (hp : p.registers) (credential : String) : Keeps (Acts p) (authorizeSession credential) :=
  (validSession_acts hp _ _).bind fun _ => keeps_pure _

theorem sessionTouch_acts (hp : p.registers) (credential : String) : Keeps (Acts p) (sessionTouch credential) := by
  refine (validSession_acts hp _ _).bind fun _ => keeps_get.bind fun s => ?_
  dsimp only
  split
  · exact keeps_lift _
  · exact deny_acts _ _ _ _ _
  · refine (slideSession_acts hp _).bind fun _ => keeps_get.bind fun s => ?_
    split
    · exact keeps_lift _
    · exact (auditRecord_acts _).ignore.bind fun _ => keeps_pure _

theorem sessionClose_acts (hp : p.registers) (credential : String) : Keeps (Acts p) (sessionClose credential) :=
  (validSession_acts hp _ _).bind fun _ => (remove_acts hp _).bind fun _ => (auditRecordWith_acts _ _).ignore.bind
    fun _ =>
    keeps_pure _

omit [VaultJson] in
/-- Staging looks at the log, the audit file and the wall clock only. -/
theorem stage_congr {log : AuditLog} {record : Record} {key : Option SecretKey} {priority : Priority} {h h' : Host}
    (hf : h'.auditFile = h.auditFile) (hw : h'.wall = h.wall) :
    log.stage record key priority h' = log.stage record key priority h := by
  simp only [AuditLog.stage, AuditLog.stageEvent, hf, hw]

/-- Writing an entry that was staged at an equal log and host is an append. -/
theorem appendStaged_act {record : Record} {priority : Priority} {staged : StagedEntry}
    (hs : s.session.audit.stage record s.session.auditKey priority s.host = .ok staged) :
    Act p s ((onAudit (AuditLog.appendStaged staged)).run s).2 := by
  have hrun : (onAudit (AuditLog.appendEvent record.event s.session.auditKey priority)).run s =
      (onAudit (AuditLog.appendStaged staged)).run s := by
    rw [onAudit, run_zoom, onAudit, run_zoom, AuditLog.appendEvent_run]
    rw [AuditLog.stage] at hs
    rw [hs]
  rw [← hrun]
  exact .append (positioned_record record) (Or.inr rfl)

theorem sessionOpen_acts (actor : String) (ttlSecs : Nat) (hp : p.mints) (hr : p.registers) :
    Keeps (Acts p) (sessionOpen actor ttlSecs) := by
  refine keeps_get_bind fun s => ?_
  split
  · exact deny_acts _ _ _ _ _ s
  · split
    · exact deny_acts _ _ _ _ _ s
    · -- The entry is staged before the mint and written behind it: the log is the same at both.
      refine KeepsAt.bind (R := Acts p) ?_ fun _ s1 h1 => ?_
      · obtain ⟨t, ht, hsub⟩ := makeRoom_sub s.session s.host.mono
        show Acts p s { s with session := s.session.makeRoom s.host.mono }
        rw [ht]
        exact .single (.table hr (Or.inr (hsub.map _)))
      refine (keeps_get.at s1).bind fun s1' _ h => ?_
      cases h
      refine ((keeps_lift _).at s1).bind fun staged s2 h2 => ?_
      obtain ⟨hstage, rfl⟩ : _ ∧ s1 = s2 := by simpa using h2
      refine ((onHost_acts generateCapability_quiet).at s1).bind fun cap s3 h3 => ?_
      obtain ⟨r, y, hq⟩ := (generateCapability_quiet s1.host).eq
      have h3' : s3 = { s1 with host := { s1.host with rng := r, syscalls := y } } := by
        have := congrArg Prod.snd h3
        rw [onHost, run_zoom, hq] at this
        exact this.symm
      subst h3'
      refine KeepsAt.bind (R := Acts p) (.single (.table hr (Or.inl hp))) fun _ s4 h4 => ?_
      cases h4
      refine KeepsAt.bind (R := Acts p)
        (KeepsAt.attempt (.single (appendStaged_act ((stage_congr rfl rfl).trans hstage))))
        fun r s5 _ => ?_
      split
      · exact (keeps_pure _).at s5
      · exact ((remove_acts hr _).bind fun _ => keeps_fail _).at s5

/-! ## The acts of a call -/

theorem unlockWithProof_acts {derived : DerivedKeks} (hp : p.unlocks derived) (ha : p.active) :
    Keeps (Acts p) (unlockWithProof derived) := by
  have hdo : Keeps (Acts p) (doUnlock derived) := by
    refine keeps_get_bind fun s => (keeps_lift _).at s |>.bind fun u t h => ?_
    obtain ⟨hu, rfl⟩ : _ ∧ s = t := by simpa using h
    exact .single (.unlock hp hu)
  refine hdo.attempt.bind fun r => ?_
  split
  · refine (auditRecordWith_acts _ _).ignore.bind fun _ => ?_
    exact fun s => .single (.clock s.host.mono s.session.idleSelfLock (Or.inr ha) id)
  · split
    · exact (onAudit_append_acts _ _).ignore.bind fun _ => keeps_fail _
    · exact keeps_fail _

theorem unlock_acts {passphrase : Bytes} (ha : p.active)
    (hp : ∀ derived, (Call.unlock passphrase).Tries s.session.envelope derived → p.unlocks derived) :
    KeepsAt (Acts p) (unlock passphrase) s := by
  refine (keeps_get.at s).bind fun s' _ h => ?_
  cases h
  refine ((keeps_lift _).at s).bind fun derived t h => ?_
  obtain ⟨hd, rfl⟩ : _ ∧ s = t := by simpa using h
  obtain ⟨recipe, hr, hd⟩ := Except.bind_eq_ok (Outcome.ofExcept_eq_ok hd)
  exact unlockWithProof_acts (hp derived ⟨recipe, hr, hd⟩) ha s

theorem activity_acts (ha : p.active) : Keeps (Acts p) (.modify fun s : Sys =>
    { s with session := { s.session with lastActivity := s.host.mono } } : SessionProg Unit) :=
  fun s => .single (.clock s.host.mono s.session.idleSelfLock (Or.inr ha) id)

theorem save_acts (hp : p.upkeep) (ha : p.active) (hc : MayIdle p s) : KeepsAt (Acts p) save s := by
  refine (checkIdle_acts hc).bind fun _ s1 _ => (requireUnlocked_acts.at s1).bind fun u s2 h2 => ?_
  obtain ⟨rfl, hu⟩ := requireUnlocked_eq_ok h2
  refine ((activity_acts ha).at s2).bind fun _ s3 h3 => ?_
  cases h3
  exact .single (.store hp hu)

/-- A call is a sequence of acts it has the right to. -/
theorem Call.acts (c : Call α) (s : Sys) : Acts (c.rights s) s (c.exec.run s).2 := by
  have idle (hi : c.idles = true) : MayIdle (c.rights s) s :=
    ⟨fun a ha => Or.inl ⟨hi, ha⟩, fun h => Or.inl ⟨hi, h⟩⟩
  cases c with
  | mutate m =>
    rw [Call.exec, m.exec_eq]
    exact committing_acts (m.proposal_acts (idle rfl)) fun q t hq => Or.inr ⟨q, t, hq, rfl⟩
  | projectList => exact reading_acts (idle rfl)
  | secretList => exact reading_acts (idle rfl)
  | agentList => exact reading_acts (idle rfl)
  | grantList => exact reading_acts (idle rfl)
  | leaseList =>
    refine (requireOpen_acts _ _ _ _ (idle rfl)).bind fun _ t _ => Keeps.at ?_ t
    exact (auditRecord_acts _).ignore.bind fun _ => keeps_pure _
  | authorizeLease => exact authorizeLease_acts (fun a ha => ha) fun h => Or.inl ⟨rfl, h⟩
  | approvalStatus =>
    refine (requireOpen_acts _ _ _ _ (idle rfl)).bind fun _ t _ => Keeps.at ?_ t
    exact keeps_get.bind fun _ => (decideOr_acts _ _ _ _ _).bind fun _ => (auditRecord_acts _).ignore.bind fun _ =>
      keeps_pure _
  | approvalPending =>
    refine (requireHuman_acts _ _ (idle rfl)).bind fun _ t _ => Keeps.at ?_ t
    exact keeps_get.bind fun _ => (auditRecord_acts _).ignore.bind fun _ => keeps_pure _
  | revealHuman =>
    refine (requireOpen_acts _ _ _ _ (idle rfl)).bind fun _ t _ => Keeps.at ?_ t
    exact (decideOr_acts _ _ _ _ _).bind fun _ => (auditRecord_acts _).bind fun _ => keeps_pure _
  | injectFile => exact injectFile_acts trivial (idle rfl)
  | auditShowPage =>
    exact (keeps_get.bind fun _ => (keeps_lift _).bind fun _ => (auditRecord_acts _).bind fun _ => keeps_pure _).at s
  | auditVerify => exact (keeps_get.bind fun _ => keeps_lift _).at s
  | auditRecord => exact auditRecordWith_acts _ _ s
  | auditRun => exact auditRunWith_acts _ _ s
  | ensureRunUnlocked =>
    refine (checkIdle_acts (idle rfl)).bind fun _ t _ => Keeps.at (keeps_get.bind fun _ => ?_) t
    split
    · exact keeps_fail _
    · exact keeps_pure _
  | sessionOpen => exact sessionOpen_acts _ _ trivial trivial s
  | authorizeSession => exact authorizeSession_acts trivial _ s
  | slideSession => exact slideSession_acts trivial _ s
  | sessionTouch => exact sessionTouch_acts trivial _ s
  | sessionClose => exact sessionClose_acts trivial _ s
  | unlock => exact unlock_acts trivial fun _ h => h
  | unlockWithProof => exact unlockWithProof_acts (show _ = _ from rfl) trivial s
  | lock => exact lock_acts (Or.inr trivial) s
  | lockPersist => exact lockPersist_acts (fun a ha => Or.inr ha) (Or.inr trivial)
  | requireKeys =>
    refine (checkIdle_acts (idle rfl)).bind fun _ t _ => Keeps.at ?_ t
    exact requireUnlocked_acts.bind fun _ => (activity_acts trivial).bind fun _ => keeps_pure _
  | save => exact save_acts trivial trivial (idle rfl)
  | gcTerminalCredentials =>
    refine (keeps_get.at s).bind fun s' _ h => ?_
    cases h
    split
    · exact (keeps_pure _).at s
    · rename_i u hu
      refine KeepsAt.bind (R := Acts _) (.single (.sweep (s := s) trivial hu)) fun _ t _ => (keeps_pure _).at t
  | deferIdleLock =>
    exact .single (.clock s.session.lastActivity false (Or.inl rfl) nofun)
  | setAuditLimitsForTest soft hard => exact .single (.limits soft hard)

end

end SecretsVault
