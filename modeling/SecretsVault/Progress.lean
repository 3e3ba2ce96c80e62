import SecretsVault.Coherence

/-!
# What succeeds

What a call comes to when nothing stands in its way, and when one write fails.

- `recordCommit_written`, `recordCommit_stopped`: an entry that fits is written; without it only a lifecycle commit goes
  on.
- `commitWith_refused`: a commit that is not recorded fails.
- `commitWith_lands`, `commitWith_cut`, `commitWith_unsealed`: a commit that is recorded lands, is cut at its save, or
  stops before it is sealed.
- `Mutation.proposal_run`: a mutation that is decided is proposed.
-/

namespace SecretsVault

open Lib Lib.Prog Lib.Copies Host

/-! ## Recording -/

section

variable [Crypto] [AuditJson] {s : Sys} {content : Bytes} {w : Walk} {key : Option SecretKey} {record : Record}
  {priority : Priority} {ts : String}

/-- A record fits behind a text, under the ceiling of its priority. -/
def Fits (log : AuditLog) (content : Bytes) (w : Walk) (record : Record) (priority : Priority) (ts : String) : Prop :=
  content.length + (AuditJson.lineToString (AuditLog.probe (record.event ts (w.seq + 1) (hex w.prev.1)))).length + 1 ≤
    log.limits.ceiling priority

/-- An entry that fits is written. -/
theorem recordCommit_written (hf : s.host.auditFile = some content) (hch : Chain key content w)
    (hsync : InSync s.session.audit w) (hts : AuditLog.timestamp s.host.wall = .ok ts)
    (hfit : Fits s.session.audit content w record priority ts) (happ : s.host.appends 0 = .ok) :
    (recordCommit record priority).run s =
      let staged := w.stage record.event s.session.auditKey ts
      (.ok (some ⟨w.seq + 1, staged.hashHex⟩), ⟨{ s.session with audit := s.session.audit.advanced w staged },
        { s.host with auditFile := some (content ++ staged.bytes), appends := fun i => s.host.appends (i + 1) }⟩) := by
  have hst : s.session.audit.stage record s.session.auditKey priority s.host =
      .ok (w.stage record.event s.session.auditKey ts) := hch.stageEvent_fits hsync hf hts hfit
  have hrun := AuditLog.appendStaged_run (w.stage_at (positioned_record record) s.session.auditKey ts) hch hsync hf
  rw [happ] at hrun
  rw [recordCommit, run_get_bind, run_bind, run_attempt, run_lift, hst]
  dsimp only
  rw [run_bind, run_attempt, onAudit, run_zoom, hrun]
  rfl

theorem auditRecordWith_written (hf : s.host.auditFile = some content) (hch : Chain key content w)
    (hsync : InSync s.session.audit w) (hts : AuditLog.timestamp s.host.wall = .ok ts)
    (hfit : Fits s.session.audit content w record priority ts) (happ : s.host.appends 0 = .ok) :
    (auditRecordWith record priority).run s =
      let staged := w.stage record.event s.session.auditKey ts
      (.ok (), ⟨{ s.session with audit := s.session.audit.advanced w staged },
        { s.host with auditFile := some (content ++ staged.bytes), appends := fun i => s.host.appends (i + 1) }⟩) := by
  have hst : s.session.audit.stageEvent record.event s.session.auditKey priority s.host =
      .ok (w.stage record.event s.session.auditKey ts) := hch.stageEvent_fits hsync hf hts hfit
  have hrun := AuditLog.appendStaged_run (w.stage_at (positioned_record record) s.session.auditKey ts) hch hsync hf
  rw [happ] at hrun
  rw [auditRecordWith, run_get_bind, onAudit, run_zoom, AuditLog.append, AuditLog.appendEvent_run, hst]
  dsimp only
  rw [hrun]

/-- Without the entry that could not be written an ordinary commit fails, and a lifecycle commit goes on. -/
theorem recordCommit_stopped (hf : s.host.auditFile = some content) (hch : Chain key content w)
    (hsync : InSync s.session.audit w) (hts : AuditLog.timestamp s.host.wall = .ok ts)
    (hfit : Fits s.session.audit content w record priority ts) {k : Nat} {e : IoError}
    (happ : s.host.appends 0 = .stop k e) :
    (recordCommit record priority).run s =
      let staged := w.stage record.event s.session.auditKey ts
      (if priority = .ordinary then .error (.auditWrite e.toVaultError.display) else .ok none,
        ⟨{ s.session with audit := s.session.audit.synced w },
          { s.host with
            auditFile := some (content ++ staged.bytes.take k), appends := fun i => s.host.appends (i + 1) }⟩) := by
  have hst : s.session.audit.stage record s.session.auditKey priority s.host =
      .ok (w.stage record.event s.session.auditKey ts) := hch.stageEvent_fits hsync hf hts hfit
  have hrun := AuditLog.appendStaged_run (w.stage_at (positioned_record record) s.session.auditKey ts) hch hsync hf
  rw [happ] at hrun
  rw [recordCommit, run_get_bind, run_bind, run_attempt, run_lift, hst]
  dsimp only
  rw [run_bind, run_attempt, onAudit, run_zoom, hrun]
  cases priority <;> rfl

/-- The checkpoint of a commit is that of the entry it staged. -/
theorem recordCommit_some {head : AuditHead} {t : Sys} (h : (recordCommit record priority).run s =
    (.ok (some head), t)) : ∃ staged, s.session.audit.stage record s.session.auditKey priority s.host = .ok staged ∧
      head = ⟨staged.event.seq, staged.hashHex⟩ := by
  rw [recordCommit, run_get_bind] at h
  obtain ⟨r, s1, hst, h⟩ := bind_eq_ok h
  rw [run_attempt, run_lift] at hst
  cases hstaged : s.session.audit.stage record s.session.auditKey priority s.host with
  | ok staged =>
    rw [hstaged] at hst
    cases hst
    obtain ⟨r, s2, -, h⟩ := bind_eq_ok h
    cases r with
    | ok _ =>
      cases h
      exact ⟨staged, rfl, rfl⟩
    | error e =>
      dsimp only at h
      split at h <;> cases h
  | error e =>
    rw [hstaged] at hst
    cases hst
    dsimp only at h
    split at h <;> cases h
  | panic =>
    rw [hstaged] at hst
    cases hst

end

/-! ## Committing -/

section

variable [Crypto] [VaultJson] [AuditJson] {s t : Sys} {u : Unlocked} {doc : VaultDocument} {record : Record}
  {priority : Priority} {head : Option AuditHead} {bytes : Bytes}

/-- A document that was recorded is not refused. -/
theorem commitWith_seals (hu : s.session.unlocked = some u)
    (hrec : (recordCommit record priority).run s = (.ok head, t)) (hb : docToVec (doc.withHead head) = .ok bytes)
    (hrng : s.host.rng 0 ≠ none) : ¬(s.session.unlocked = none ∨
      (∀ head t, (recordCommit record priority).run s ≠ (.ok head, t)) ∨
      ∃ head t, (recordCommit record priority).run s = (.ok head, t) ∧
        (s.host.rng 0 = none ∨ ∀ bytes, docToVec (doc.withHead head) ≠ .ok bytes)) := by
  rintro (hlocked | hrefused | ⟨head', t1, hrec', hwhy⟩)
  · rw [hu] at hlocked
    cases hlocked
  · exact hrefused _ _ hrec
  · rw [hrec] at hrec'
    cases hrec'
    rcases hwhy with h0 | hno
    · exact hrng h0
    · exact hno _ hb

/-- A document that cannot be recorded is not committed. -/
theorem commitWith_refused (hu : s.session.unlocked = some u) {e : VaultError}
    (hrec : (recordCommit record priority).run s = (.error e, t)) :
    (commitWith doc record priority).run s = (.error e, t) := by
  rw [commitWith, run_get_bind, run_bind, run_lift, hu]
  simp only [Outcome.ofOption_some]
  rw [run_bind, hrec]

/-- A document that was recorded is sealed and stored. -/
theorem commitWith_lands (hu : s.session.unlocked = some u) (hrec : (recordCommit record priority).run s =
    (.ok head, t))
    (hb : docToVec (doc.withHead head) = .ok bytes) (hrng : s.host.rng 0 ≠ none) (hsave : s.host.saves 0 = none)
    (hval : ∀ nonce, (s.session.envelope.reseal bytes u.keys nonce).validatePersistable = .ok ()) :
    ∃ nonce rng saves, (commitWith doc record priority).run s = (.ok (),
      ⟨({ s.session with
          audit := t.session.audit
          envelope := s.session.envelope.reseal bytes u.keys nonce
          unlocked := some { u with doc := doc.withHead head } }).rebuildAgentDigests,
        { s.host with
          vaultFile := some (s.session.envelope.reseal bytes u.keys nonce).toBytes
          auditFile := t.host.auditFile, appends := t.host.appends, rng, saves }⟩) := by
  rcases hr : (commitWith doc record priority).run s with ⟨o, t'⟩
  cases commitWith_ends hr with
  | refused _ _ hwhy => exact (commitWith_seals hu hrec hb hrng hwhy).elim
  | @cut e u' head' bytes' nonce audit auditFile appends rng saves hu' hrec' hb' _ hcut =>
    rw [hu] at hu'
    rw [hrec] at hrec'
    cases hu'
    cases hrec'
    rw [hb] at hb'
    cases hb'
    rcases hcut with hcut | hcut
    · exact (hcut (hval _)).elim
    · exact (hcut hsave).elim
  | @landed u' head' bytes' nonce audit auditFile appends rng saves hu' hrec' hb' _ _ =>
    rw [hu] at hu'
    rw [hrec] at hrec'
    cases hu'
    cases hrec'
    rw [hb] at hb'
    cases hb'
    exact ⟨nonce, rng, saves, rfl⟩

/-- A document that was recorded is sealed, and not stored when the save fails. -/
theorem commitWith_cut (hu : s.session.unlocked = some u) (hrec : (recordCommit record priority).run s = (.ok head, t))
    (hb : docToVec (doc.withHead head) = .ok bytes) (hrng : s.host.rng 0 ≠ none) (hsave : s.host.saves 0 ≠ none) :
    ∃ e nonce rng saves, (commitWith doc record priority).run s = (.error e,
      ⟨{ s.session with audit := t.session.audit, envelope := s.session.envelope.reseal bytes u.keys nonce },
        { s.host with auditFile := t.host.auditFile, appends := t.host.appends, rng, saves }⟩) := by
  rcases hr : (commitWith doc record priority).run s with ⟨o, t'⟩
  cases commitWith_ends hr with
  | refused _ _ hwhy => exact (commitWith_seals hu hrec hb hrng hwhy).elim
  | @cut e u' head' bytes' nonce audit auditFile appends rng saves hu' hrec' hb' _ _ =>
    rw [hu] at hu'
    rw [hrec] at hrec'
    cases hu'
    cases hrec'
    rw [hb] at hb'
    cases hb'
    exact ⟨e, nonce, rng, saves, rfl⟩
  | landed _ _ _ _ hs => exact (hsave hs).elim

/-- A document that was recorded is not sealed without a nonce. -/
theorem commitWith_unsealed (hu : s.session.unlocked = some u)
    (hrec : (recordCommit record priority).run s = (.ok head, t)) (hb : docToVec (doc.withHead head) = .ok bytes)
    (hrng : s.host.rng 0 = none) :
    ∃ e rng, (commitWith doc record priority).run s = (.error e, ⟨{ s.session with audit := t.session.audit },
      { s.host with auditFile := t.host.auditFile, appends := t.host.appends, rng }⟩) := by
  have hrecorded := recordCommit_recorded record priority s
  rw [hrec] at hrecorded
  obtain ⟨audit, auditFile, appends, rfl⟩ := hrecorded
  rw [commitWith, run_get_bind, run_bind, run_lift, hu]
  simp only [Outcome.ofOption_some]
  rw [run_bind, hrec]
  dsimp only
  rw [run_bind, resealSession, run_bind, run_lift, hb]
  dsimp only
  rw [run_get_bind, run_bind, onHost, run_zoom, Envelope.resealDocument, run_bind, randomBytes, run_step, hrng]
  exact ⟨_, _, rfl⟩

/-! ## Proposing -/

theorem checkIdle_ok (hidle : s.session.locksItself s.host.mono = false) : checkIdle.run s = (.ok (), s) := by
  rw [checkIdle_run, hidle]
  rfl

theorem gate_ok (hidle : s.session.locksItself s.host.mono = false) (hu : s.session.unlocked = some u)
    (actor op : String) (project : Option String) (keys : List String) :
    (gate actor op project keys).run s = (.ok (), s) := by
  rw [gate, run_bind, checkIdle_ok hidle]
  dsimp only
  rw [run_get_bind, if_neg (by simp [Session.isLocked, hu])]
  rfl

theorem requireOpen_ok (hidle : s.session.locksItself s.host.mono = false) (hu : s.session.unlocked = some u)
    (actor op : String) (project : Option String) (keys : List String) :
    (requireOpen actor op project keys).run s = (.ok u, s) := by
  rw [requireOpen, run_bind, checkIdle_ok hidle]
  dsimp only
  rw [run_get_bind, hu]
  rfl

theorem requireHuman_ok (hidle : s.session.locksItself s.host.mono = false) (hu : s.session.unlocked = some u)
    {actor : String} (hactor : isHumanIdentity actor = true) (op : String) :
    (requireHuman actor op).run s = (.ok u, s) := by
  rw [requireHuman, run_bind, checkIdle_ok hidle]
  dsimp only
  rw [if_neg (by simp [hactor]), run_get_bind, hu]
  rfl

/-- Only a human decides on an approval. -/
def Mutation.ByHuman {α : Type} : Mutation α → Prop
  | .approvalDecide actor _ _ => isHumanIdentity actor = true
  | _ => True

omit [Crypto] [VaultJson] [AuditJson] in
theorem deciding_run_eq_ok {f : OffsetDateTime → Except VaultError VaultDocument} {h h' : Host} {a : Unit}
    (hr : (deciding f).run h = (.ok (doc, a), h')) : f h.wall = .ok doc ∧ h' = h := by
  have hf := deciding_eq_ok hr
  rw [deciding_run hf] at hr
  cases hr
  exact ⟨hf, rfl⟩

/-- A mutation that is decided is proposed. -/
theorem Mutation.proposal_run {α : Type} {m : Mutation α} {ans : α} {h' : Host}
    (hidle : s.session.locksItself s.host.mono = false) (hu : s.session.unlocked = some u) (hm : m.ByHuman)
    (hd : (m.decide u.doc).run s.host = (.ok (doc, ans), h')) :
    m.proposal.run s = (.ok ⟨doc, m.record, m.priority u.doc, ans⟩, { s with host := h' }) := by
  have gated {record : Record} {denied : Option String} {priority : VaultDocument → Priority}
      {decide : VaultDocument → Prog VaultError Host (VaultDocument × α)}
      (hd : (decide u.doc).run s.host = (.ok (doc, ans), h')) :
      (propose record denied priority decide).run s = (.ok ⟨doc, record, priority u.doc, ans⟩,
        { s with host := h' }) := by
    rw [propose, run_bind, gate_ok hidle hu]
    dsimp only
    rw [run_bind, requireUnlocked, run_get_bind, run_lift, hu]
    dsimp only [Outcome.ofOption_some]
    rw [run_bind, run_attempt, onHost, run_zoom, hd]
    rfl
  cases m with
  | projectAdd => rw [Mutation.proposal, projectAddProposal]; exact gated hd
  | projectPathAdd => rw [Mutation.proposal, projectPathAddProposal]; exact gated hd
  | projectPathRemove => rw [Mutation.proposal, projectPathRemoveProposal]; exact gated hd
  | projectRemove => rw [Mutation.proposal, projectRemoveProposal]; exact gated hd
  | secretSet => rw [Mutation.proposal, secretSetProposal]; exact gated hd
  | secretDelete => rw [Mutation.proposal, secretDeleteProposal]; exact gated hd
  | agentAdd => rw [Mutation.proposal, agentAddProposal]; exact gated hd
  | agentRevoke => rw [Mutation.proposal, agentRevokeProposal]; exact gated hd
  | grantAdd => rw [Mutation.proposal, grantAddProposal]; exact gated hd
  | grantRevoke => rw [Mutation.proposal, grantRevokeProposal]; exact gated hd
  | leaseCreate actor agentId project ops ttlSecs =>
    rw [Mutation.decide, run_get_bind] at hd
    obtain ⟨⟨d, projectId⟩, h1, hcheck, hd⟩ := bind_eq_ok hd
    rw [run_lift, Prod.mk.injEq] at hcheck
    obtain ⟨hcheck, rfl⟩ := hcheck
    dsimp only at hd
    rw [Mutation.proposal, leaseCreateProposal, run_bind, requireOpen_ok hidle hu]
    dsimp only
    rw [run_get_bind, Outcome.ofExcept_eq_ok hcheck, run_bind, decideOr]
    simp only [run_pure]
    rw [run_bind, onHost, run_zoom, hd]
    rfl
  | leaseRevoke actor agentId leaseId =>
    obtain ⟨hcheck, rfl⟩ := deciding_run_eq_ok hd
    rw [Mutation.proposal, leaseRevokeProposal, run_bind, requireOpen_ok hidle hu]
    dsimp only
    rw [run_get_bind, hcheck]
    rfl
  | approvalRequest actor agentId project key =>
    rw [Mutation.decide, run_get_bind] at hd
    obtain ⟨⟨d, projectId⟩, h1, hcheck, hd⟩ := bind_eq_ok hd
    rw [run_lift, Prod.mk.injEq] at hcheck
    obtain ⟨hcheck, rfl⟩ := hcheck
    dsimp only at hd
    rw [Mutation.proposal, approvalRequestProposal, run_bind, requireOpen_ok hidle hu]
    dsimp only
    rw [run_get_bind, Outcome.ofExcept_eq_ok hcheck, run_bind, decideOr]
    simp only [run_pure]
    rw [run_bind, onHost, run_zoom, hd]
    rfl
  | approvalDecide actor approvalId approve =>
    obtain ⟨hcheck, rfl⟩ := deciding_run_eq_ok hd
    rw [Mutation.proposal, approvalDecideProposal, run_bind, requireHuman_ok hidle hu hm]
    dsimp only
    rw [run_get_bind, hcheck]
    rfl
  | revealClaim actor agentId project key approvalId =>
    rw [Mutation.decide, run_get_bind, run_lift, Prod.mk.injEq] at hd
    obtain ⟨hcheck, rfl⟩ := hd
    rw [Mutation.proposal, revealClaimProposal, run_bind, requireOpen_ok hidle hu]
    dsimp only
    rw [run_get_bind, Outcome.ofExcept_eq_ok hcheck]
    rfl

end

end SecretsVault
