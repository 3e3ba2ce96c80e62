import SecretsVault.Lib.Sweep
import SecretsVault.Approvals
import SecretsVault.Broker

/-!
# The collection of what is over

Dropping the leases and approvals that are over (`purgeTerminal`) does not change what is authorized, at that time or
later. It does where the document repeats a credential digest or an id: then what is over may stand before what is not
(`VaultDocument.Unshadowed`), and hides it until it is dropped.

- `VaultDocument.Alike`: documents that differ in nothing but what is over.
- `Agree`: two decisions that both accept, with related results, or both refuse.
- `leaseVerdict_purge`, `claim_purge`, `checkApprovalDecide_purge`: the decisions on a swept document.
- `collection_is_invisible`: the operations on a session whose document was swept.
-/

namespace SecretsVault

open Lib Lib.Prog

variable {d e : VaultDocument} {t now : OffsetDateTime}

/-- No lease that is over stands before one of its credential that is not, and no approval before one of its id. -/
structure VaultDocument.Unshadowed (d : VaultDocument) (now : OffsetDateTime) : Prop where
  leases : Lib.Unshadowed (fun l : Lease => l.credentialHash) (fun l => l.terminal now) d.leases
  approvals : Lib.Unshadowed (fun a : Approval => a.id) (fun a => a.terminal now) d.approvals

/-- The documents differ in nothing but what is over. -/
def VaultDocument.Alike (now : OffsetDateTime) (d e : VaultDocument) : Prop := purgeTerminal d now = purgeTerminal e now

/-- Both decisions accept, with related results, or both refuse; the second may refuse because it finds nothing. -/
inductive Agree {α β : Type} (R : α → β → Prop) : Except VaultError α → Except VaultError β → Prop where
  | accepted {a : α} {b : β} (h : R a b) : Agree R (.ok a) (.ok b)
  | refused {e e' : VaultError} (h : e' = e ∨ e' = .notFound) : Agree R (.error e) (.error e')

theorem Agree.symm_ok {α β : Type} {R : α → β → Prop} {x : Except VaultError α} {y : Except VaultError β}
    (h : Agree R x y) {b : β} (hy : y = .ok b) : ∃ a, x = .ok a ∧ R a b := by
  cases h with
  | accepted hr =>
    cases hy
    exact ⟨_, rfl, hr⟩
  | refused => cases hy

theorem Agree.ok {α β : Type} {R : α → β → Prop} {x : Except VaultError α} {y : Except VaultError β}
    (h : Agree R x y) {a : α} (hx : x = .ok a) : ∃ b, y = .ok b ∧ R a b := by
  cases h with
  | accepted hr =>
    cases hx
    exact ⟨_, rfl, hr⟩
  | refused => cases hx

/-- A decision with nothing to answer. -/
theorem Agree.unit {R : VaultDocument → VaultDocument → Prop} {x y : Except VaultError VaultDocument}
    (h : Agree R x y) : Agree (fun p q => R p.1 q.1 ∧ p.2 = q.2) (x.map fun d => (d, ())) (y.map fun d => (d, ())) := by
  cases h with
  | accepted h => exact .accepted ⟨h, rfl⟩
  | refused h => exact .refused h

/-! ## Leases -/

/-- Sweeping changes no verdict on a request. -/
theorem leaseVerdict_purge [Crypto] (hd : d.Unshadowed t) (ht : t ≤ now) (agentId project : String) (op : Op)
    (credential : Option String) :
    leaseVerdict (purgeTerminal d t) agentId project op credential now =
      leaseVerdict d agentId project op credential now := by
  cases credential with
  | none => rfl
  | some presented =>
    unfold leaseVerdict
    rw [show (purgeTerminal d t).projectByName project = d.projectByName project from rfl]
    cases d.projectByName project with
    | none => rfl
    | some p =>
      dsimp only
      rw [show (purgeTerminal d t).agentActive agentId = d.agentActive agentId from rfl]
      by_cases hactive : d.agentActive agentId = true
      · rw [hactive, Bool.not_true, if_neg Bool.false_ne_true, if_neg Bool.false_ne_true,
          show (purgeTerminal d t).leases = d.leases.filter fun l => !l.terminal t from rfl,
          find?_sweep hd.leases (tokenDigest presented).1]
        cases hl : d.leases.find? fun l => l.credentialHash == (tokenDigest presented).1 with
        | none => rfl
        | some l =>
          rw [Option.filter_some]
          by_cases hover : l.terminal t = true
          · have hlater := Lease.terminal_mono ht hover
            rw [hover, Bool.not_true, if_neg Bool.false_ne_true]
            dsimp only
            by_cases hother : l.agentId ≠ agentId ∨ l.projectId ≠ p.id
            · rw [if_pos hother]
            · rw [if_neg hother, if_pos]
              unfold Lease.terminal at hlater
              simp only [Bool.or_eq_true, decide_eq_true_eq] at hlater
              exact hlater.symm
          · rw [Bool.not_eq_true] at hover
            rw [hover, Bool.not_false, if_pos rfl]
            rfl
      · rw [Bool.not_eq_true] at hactive
        rw [hactive]
        rfl

/-! ## Approvals -/

/-- The approval of an id in a swept document: it was over and is not found, or it is the one that was found before. -/
theorem approval_purge (hd : d.Unshadowed t) (approvalId : String) :
    ((purgeTerminal d t).approvals.findIdx? (fun a => a.id == approvalId) = none ∧
      ∀ pos a, d.approvals.findIdx? (fun a => a.id == approvalId) = some pos → d.approvals[pos]? = some a →
        a.terminal t = true) ∨
    ∃ pos pos' a, d.approvals.findIdx? (fun a => a.id == approvalId) = some pos ∧ d.approvals[pos]? = some a ∧
      (purgeTerminal d t).approvals.findIdx? (fun a => a.id == approvalId) = some pos' ∧
      (purgeTerminal d t).approvals[pos']? = some a ∧
      ∀ now a', t ≤ now → VaultDocument.Alike now { d with approvals := d.approvals.set pos a' }
        { purgeTerminal d t with approvals := (purgeTerminal d t).approvals.set pos' a' } := by
  cases hpos : d.approvals.findIdx? fun a => a.id == approvalId with
  | none =>
    refine Or.inl ⟨List.findIdx?_eq_none_iff.mpr fun a ha => ?_, fun pos a hsome => nomatch hsome⟩
    exact List.findIdx?_eq_none_iff.mp hpos a (List.mem_of_mem_filter ha)
  | some pos =>
    obtain ⟨a, ha⟩ : ∃ a, d.approvals[pos]? = some a := by
      obtain ⟨hlt, -⟩ := List.findIdx?_eq_some_iff_getElem.mp hpos
      exact ⟨_, List.getElem?_eq_getElem hlt⟩
    by_cases hover : a.terminal t = true
    · refine Or.inl ⟨locate_dead hd.approvals hpos ha hover, fun pos' b hpos' hb => ?_⟩
      cases hpos'
      rw [ha] at hb
      cases hb
      exact hover
    · obtain ⟨pos', hpos', ha', hset⟩ := locate_live (fun a => a.terminal t) hpos ha (by simpa using hover)
      refine Or.inr ⟨pos, pos', a, rfl, ha, hpos', ha', fun now a' ht => ?_⟩
      rw [VaultDocument.Alike, purgeTerminal, purgeTerminal, VaultDocument.mk.injEq]
      exact ⟨rfl, rfl, rfl, rfl, rfl, rfl, (filter_sweep_later (fun l => Lease.terminal_mono ht) d.leases).symm,
        (hset _ (fun a => Approval.terminal_mono ht) a').symm, rfl⟩

/-- A claim is granted on the swept document exactly if it is granted on the document, with one value. -/
theorem claim_purge (hd : d.Unshadowed t) (ht : t ≤ now) (agentId project key approvalId : String) :
    Agree (fun x y => x.1.Alike now y.1 ∧ x.2 = y.2) (claim d agentId project key approvalId now)
      (claim (purgeTerminal d t) agentId project key approvalId now) := by
  have hproject : (purgeTerminal d t).projectByName project = d.projectByName project := rfl
  rcases approval_purge hd approvalId with ⟨hnone, hover⟩ | ⟨pos, pos', a, hpos, ha, hpos', ha', halike⟩
  · have hswept : claim (purgeTerminal d t) agentId project key approvalId now = .error .notFound := by
      unfold claim
      rw [hproject, hnone]
      cases d.projectByName project <;> rfl
    rw [hswept]
    cases hclaim : claim d agentId project key approvalId now with
    | error e => exact .refused (Or.inr rfl)
    | ok r =>
      obtain ⟨p, pos, a, s, -, hpos, ha, -, -, -, -, -, -, hst, hexp, -⟩ := claim_eq_ok hclaim
      have hterminal := Approval.terminal_mono ht (hover pos a hpos ha)
      rw [Approval.terminal, hst] at hterminal
      cases hclaimed : a.claimExpiresAt with
      | none =>
        rw [hclaimed] at hterminal
        cases hterminal
      | some exp =>
        rw [hclaimed, decide_eq_true_eq] at hterminal
        exact (Int.not_le.mpr (hexp exp hclaimed) hterminal).elim
  · unfold claim
    rw [hproject]
    cases d.projectByName project with
    | none => exact .refused (Or.inl rfl)
    | some p =>
      dsimp only
      rw [hpos, hpos']
      dsimp only
      rw [ha, ha']
      dsimp only
      by_cases hother : a.agentId ≠ agentId ∨ a.projectId ≠ p.id ∨ a.key ≠ key
      · rw [if_pos hother, if_pos hother]
        exact .refused (Or.inl rfl)
      rw [if_neg hother, if_neg hother,
        show (purgeTerminal d t).authorize agentId p.id .reveal = d.authorize agentId p.id .reveal from rfl]
      by_cases hgrant : (!d.authorize agentId p.id .reveal) = true
      · rw [if_pos hgrant, if_pos hgrant]
        exact .refused (Or.inl rfl)
      rw [if_neg hgrant, if_neg hgrant]
      cases a.status with
      | denied | consumed => exact .refused (Or.inl rfl)
      | pending =>
        dsimp only
        split <;> exact .refused (Or.inl rfl)
      | approved =>
        dsimp only
        by_cases hexp : (a.claimExpiresAt.any fun exp => decide (exp ≤ now)) = true
        · rw [if_pos hexp, if_pos hexp]
          exact .refused (Or.inl rfl)
        rw [if_neg hexp, if_neg hexp, show (purgeTerminal d t).secret p.id key = d.secret p.id key from rfl]
        cases d.secret p.id key with
        | none => exact .refused (Or.inl rfl)
        | some s => exact .accepted ⟨halike now _ ht, rfl⟩

/-- A decision on an approval is taken on the swept document exactly if it is taken on the document. -/
theorem checkApprovalDecide_purge (hd : d.Unshadowed t) (ht : t ≤ now) (approvalId : String) (approve : Bool) :
    Agree (VaultDocument.Alike now) (checkApprovalDecide d approvalId approve now)
      (checkApprovalDecide (purgeTerminal d t) approvalId approve now) := by
  rcases approval_purge hd approvalId with ⟨hnone, hover⟩ | ⟨pos, pos', a, hpos, ha, hpos', ha', halike⟩
  · have hswept : checkApprovalDecide (purgeTerminal d t) approvalId approve now = .error .notFound := by
      rw [checkApprovalDecide, hnone]
    rw [hswept]
    cases hdecide : checkApprovalDecide d approvalId approve now with
    | error e => exact .refused (Or.inr rfl)
    | ok d' =>
      obtain ⟨pos, a, hpos, ha, -, -, hst, hlt, -⟩ := checkApprovalDecide_eq_ok hdecide
      have hterminal := Approval.terminal_mono ht (hover pos a hpos ha)
      rw [Approval.terminal, hst, decide_eq_true_eq] at hterminal
      exact (Int.not_le.mpr hlt hterminal).elim
  · unfold checkApprovalDecide
    rw [hpos, hpos']
    dsimp only
    rw [ha, ha']
    dsimp only
    cases a.status with
    | denied | consumed | approved => exact .refused (Or.inl rfl)
    | pending =>
      dsimp only
      by_cases hexp : a.pendingExpiresAt ≤ now
      · rw [if_pos hexp, if_pos hexp]
        exact .refused (Or.inl rfl)
      · rw [if_neg hexp, if_neg hexp]
        exact .accepted (halike now _ ht)

/-- What is answered about an approval is answered on the swept document too, or the approval is not found there. -/
theorem checkApprovalStatus_purge (hd : d.Unshadowed t) (agentId approvalId : String) :
    checkApprovalStatus (purgeTerminal d t) agentId approvalId now = checkApprovalStatus d agentId approvalId now ∨
      checkApprovalStatus (purgeTerminal d t) agentId approvalId now = .error .notFound := by
  unfold checkApprovalStatus
  rw [show (purgeTerminal d t).approvals = d.approvals.filter fun a => !a.terminal t from rfl,
    find?_sweep hd.approvals approvalId]
  cases d.approvals.find? fun a => a.id == approvalId with
  | none => exact Or.inr rfl
  | some a =>
    rw [Option.filter_some]
    by_cases hlive : (!a.terminal t) = true
    · rw [if_pos hlive]
      exact Or.inl rfl
    · rw [if_neg hlive]
      exact Or.inr rfl

/-! ## Counts and caps -/

theorem Lease.live_eq (l : Lease) (now : OffsetDateTime) : l.live now = !l.terminal now := by
  have hend : decide (now < l.expiresAt) = !decide (l.expiresAt ≤ now) := by
    rw [← decide_not]
    exact decide_eq_decide.mpr Int.not_le.symm
  unfold Lease.live Lease.terminal
  rw [hend, Bool.not_or, Bool.and_comm]
  cases l.revokedAt <;> rfl

/-- The leases that are shown as active. -/
theorem active_purge (ht : t ≤ now) : (purgeTerminal d t).leases.filter (fun l => l.live now) =
    d.leases.filter fun l => l.live now :=
  filter_sweep (fun l hlive => by
    rw [Lease.live_eq] at hlive
    by_contra hover
    rw [Lease.terminal_mono ht (by simpa using hover)] at hlive
    cases hlive) d.leases

/-- The approvals that are shown as pending. -/
theorem pending_purge (ht : t ≤ now) :
    (purgeTerminal d t).approvals.filter (fun a => a.status == .pending && decide (now < a.pendingExpiresAt)) =
      d.approvals.filter fun a => a.status == .pending && decide (now < a.pendingExpiresAt) :=
  filter_sweep (fun a hpending => by
    simp only [Bool.and_eq_true, beq_iff_eq, decide_eq_true_eq] at hpending
    rw [Approval.terminal, hpending.1, decide_eq_false_iff_not]
    exact fun hle => Int.not_lt.mpr (Int.le_trans hle ht) hpending.2) d.approvals

/-- There are too many leases only if as many are not over. -/
theorem too_many_leases {agentId project : String} {ops : List Op} {ttlSecs : Nat}
    (h : checkLeaseCreate d agentId project ops ttlSecs now = .error (.invalidInput "too many leases")) :
    MAX_LEASES ≤ (d.leases.filter fun l => l.live now).length := by
  unfold checkLeaseCreate at h
  split at h; · simp at h
  split at h; · simp at h
  split at h; · simp at h
  split at h; · simp at h
  split at h; · simp at h
  split at h; · simp at h
  split at h; · simp at h
  dsimp only at h
  split at h
  · rename_i hcap
    unfold sweepAt at hcap
    split at hcap
    · simp only [Lease.live_eq]
      exact hcap
    · rename_i hfull
      exact (hfull (decide_eq_true hcap)).elim
  · cases h

/-- There are too many approvals only if as many are not over. -/
theorem too_many_approvals {agentId project key : String}
    (h : checkApprovalRequest d agentId project key now = .error (.invalidInput "too many approvals")) :
    MAX_APPROVALS ≤ (d.approvals.filter fun a => !a.terminal now).length := by
  unfold checkApprovalRequest at h
  split at h; · simp at h
  split at h; · simp at h
  split at h; · simp at h
  split at h; · simp at h
  dsimp only at h
  split at h
  · rename_i hcap
    unfold sweepAt at hcap
    split at hcap
    · exact hcap
    · rename_i hfull
      exact (hfull (decide_eq_true hcap)).elim
  · cases h

/-! ## The operations -/

/-- The process after what was over at a time is dropped from its document. -/
def Sys.sweep (s : Sys) (t : OffsetDateTime) : Sys :=
  { s with
    session := { s.session with
      unlocked := s.session.unlocked.map fun u => { u with doc := purgeTerminal u.doc t } } }

/-- Proposals with one answer and one record, of documents that differ in nothing but what is over. -/
structure Proposal.Alike {α : Type} (now : OffsetDateTime) (q q' : Proposal α) : Prop where
  doc : q.doc.Alike now q'.doc
  record : q'.record = q.record
  priority : q'.priority = q.priority
  answer : q'.answer = q.answer

/-- Both propose alike, or neither proposes. -/
structure ProposeAlike {α : Type} (now : OffsetDateTime) (o o' : Outcome VaultError (Proposal α)) : Prop where
  forth : ∀ q, o = .ok q → ∃ q', o' = .ok q' ∧ q.Alike now q'
  back : ∀ q', o' = .ok q' → ∃ q, o = .ok q ∧ q.Alike now q'

section

variable [Crypto] [VaultJson] [AuditJson] {s : Sys} {u : Unlocked} {α : Type}

omit [Crypto] [VaultJson] [AuditJson] in
/-- The collector drops what is over now. -/
theorem gcTerminalCredentials_sweep (hu : s.session.unlocked = some u) :
    gcTerminalCredentials.run s = (.ok (gcReport u.doc (purgeTerminal u.doc s.host.wall)), s.sweep s.host.wall) := by
  rw [gcTerminalCredentials, run_get_bind, hu, Sys.sweep, hu]
  rfl

omit [VaultJson] in
/-- Recording does not look at the document. -/
theorem auditRecord_sweep (record : Record) (s : Sys) (t : OffsetDateTime) :
    ((auditRecord record).ignore.run (s.sweep t)).1 = ((auditRecord record).ignore.run s).1 := by
  have hkey : (s.sweep t).session.auditKey = s.session.auditKey := by
    rw [Session.auditKey, Session.auditKey, Sys.sweep, Option.map_map]
    rfl
  rw [run_ignore, run_ignore, auditRecord, auditRecordWith, run_get_bind, run_get_bind, hkey, onAudit, run_zoom,
    run_zoom]
  rw [show (s.sweep t).session.audit = s.session.audit from rfl, show (s.sweep t).host = s.host from rfl]
  rcases (AuditLog.append record s.session.auditKey .ordinary).run (s.session.audit, s.host) with ⟨_ | _ | _, _⟩ <;> rfl

/-- What is authorized: the verdict allows it, and the record does not fail. -/
theorem authorizeLease_ok_iff {agentId project actor : String} {op : Op} {credential : Option String} :
    ((authorizeLease agentId project op credential).run s).1 = .ok actor ↔
      ∃ u, s.session.unlocked = some u ∧ s.session.locksItself s.host.mono = false ∧
        leaseVerdict u.doc agentId project op credential s.host.wall = .allow actor ∧
        ((auditRecord { actor, op := "authorize", project := some project, decision := .allowed }).ignore.run s).1 =
          .ok () := by
  constructor
  · intro h
    obtain ⟨u, s1, h1, hk⟩ := bind_eq_ok (Prod.ext h rfl)
    obtain ⟨rfl, hu, hidle⟩ := requireOpen_eq_ok h1
    rw [run_get_bind] at hk
    refine ⟨u, hu, hidle, ?_⟩
    cases hv : leaseVerdict u.doc agentId project op credential s1.host.wall with
    | deny e =>
      rw [hv] at hk
      exact (deny_ne_ok hk).elim
    | invalidate leaseId =>
      rw [hv] at hk
      obtain ⟨_, _, _, hd⟩ := bind_eq_ok hk
      exact (deny_ne_ok hd).elim
    | allow leasedActor =>
      rw [hv] at hk
      obtain ⟨_, _, hrec, hp⟩ := bind_eq_ok hk
      cases hp
      exact ⟨rfl, congrArg Prod.fst hrec⟩
  · rintro ⟨u, hu, hidle, hv, hrec⟩
    rw [authorizeLease, run_bind_ok (requireOpen_ok hidle hu _ _ _ _), run_get_bind, hv]
    dsimp only
    rw [run_bind_ok (Prod.ext hrec rfl)]
    rfl

/-- What is authorized after a collection is what is authorized without it. -/
theorem authorizeLease_sweep (hu : s.session.unlocked = some u) (hd : u.doc.Unshadowed t) (ht : t ≤ s.host.wall)
    (agentId project : String) (op : Op) (credential : Option String) (actor : String) :
    ((authorizeLease agentId project op credential).run (s.sweep t)).1 = .ok actor ↔
      ((authorizeLease agentId project op credential).run s).1 = .ok actor := by
  have hswept : (s.sweep t).session.unlocked = some { u with doc := purgeTerminal u.doc t } := by
    rw [Sys.sweep, hu]; rfl
  rw [authorizeLease_ok_iff, authorizeLease_ok_iff, hswept, hu, auditRecord_sweep]
  constructor
  · rintro ⟨_, ⟨⟩, hidle, hv, hrec⟩
    exact ⟨u, rfl, hidle, (leaseVerdict_purge hd ht _ _ _ _).symm.trans hv, hrec⟩
  · rintro ⟨_, ⟨⟩, hidle, hv, hrec⟩
    exact ⟨_, rfl, hidle, (leaseVerdict_purge hd ht _ _ _ _).trans hv, hrec⟩

/-- A session that proposes does not lock itself. -/
theorem Mutation.proposal_awake {m : Mutation α} {q : Proposal α} {s' : Sys} (h : m.proposal.run s = (.ok q, s')) :
    s.session.locksItself s.host.mono = false := by
  by_contra hlocks
  rw [Bool.not_eq_false] at hlocks
  rcases hpersist : lockPersist.run s with ⟨o, s1⟩
  rcases lockPersist_locked hpersist with ⟨rfl, hlocked, -⟩ | rfl
  · rw [m.proposal_idling.locks hlocks hpersist] at h
    obtain ⟨u, _, hu, -⟩ := Mutation.proposal_eq_ok h
    rw [hlocked] at hu
    cases hu
  · rw [m.proposal_idling.panics hlocks hpersist] at h
    cases h

/-- What only a human decides was decided by one. -/
theorem Mutation.proposal_byHuman {m : Mutation α} {q : Proposal α} {s' : Sys} (h : m.proposal.run s = (.ok q, s')) :
    m.ByHuman := by
  cases m with
  | approvalDecide =>
    obtain ⟨u, s1, hu, -⟩ := bind_eq_ok h
    exact (requireHuman_eq_ok hu).2.2.1
  | _ => trivial

/-- What is proposed: what is decided on the document of an unlocked vault. -/
theorem Mutation.proposal_ok_iff {m : Mutation α} {q : Proposal α} : (m.proposal.run s).1 = .ok q ↔
    m.ByHuman ∧ s.session.locksItself s.host.mono = false ∧ ∃ u, s.session.unlocked = some u ∧ q.record = m.record ∧
      q.priority = m.priority u.doc ∧ ((m.decide u.doc).run s.host).1 = .ok (q.doc, q.answer) := by
  constructor
  · intro h
    have hrun : m.proposal.run s = (.ok q, (m.proposal.run s).2) := Prod.ext h rfl
    obtain ⟨u, h', hu, hd, -, hrec, hprio⟩ := Mutation.proposal_eq_ok hrun
    exact ⟨Mutation.proposal_byHuman hrun, Mutation.proposal_awake hrun, u, hu, hrec, hprio, congrArg Prod.fst hd⟩
  · rintro ⟨hm, hidle, u, hu, hrec, hprio, hd⟩
    rw [Mutation.proposal_run hidle hu hm (Prod.ext hd (Eq.refl ((m.decide u.doc).run s.host).2))]
    rcases q with ⟨doc, record, priority, answer⟩
    dsimp only at hrec hprio
    rw [hrec, hprio]

/-- A mutation that is a decision of its own on the document is proposed alike after a collection. -/
theorem Mutation.proposal_sweep {m : Mutation α} {f : VaultDocument → Except VaultError (VaultDocument × α)}
    (hu : s.session.unlocked = some u) (hdecide : ∀ d, ((m.decide d).run s.host).1 = .ofExcept (f d))
    (hpriority : ∀ d, m.priority d = .ordinary)
    (hagree : Agree (fun x y => x.1.Alike s.host.wall y.1 ∧ x.2 = y.2) (f u.doc) (f (purgeTerminal u.doc t))) :
    ProposeAlike s.host.wall (m.proposal.run s).1 (m.proposal.run (s.sweep t)).1 := by
  have hswept : (s.sweep t).session.unlocked = some { u with doc := purgeTerminal u.doc t } := by
    rw [Sys.sweep, hu]; rfl
  constructor
  · intro q hq
    obtain ⟨hm, hidle, _, hu', hrec, hprio, hd⟩ := Mutation.proposal_ok_iff.mp hq
    rw [hu] at hu'
    cases hu'
    rw [hdecide] at hd
    obtain ⟨⟨doc, answer⟩, hok, halike, hanswer⟩ := hagree.ok (Outcome.ofExcept_eq_ok hd)
    refine ⟨⟨doc, m.record, .ordinary, answer⟩, Mutation.proposal_ok_iff.mpr ⟨hm, hidle, _, hswept, rfl,
      (hpriority _).symm, ?_⟩, halike, hrec.symm, ((hprio.trans (hpriority _)).symm), hanswer.symm⟩
    exact (hdecide _).trans (by rw [hok]; rfl)
  · intro q' hq'
    obtain ⟨hm, hidle, _, hu', hrec, hprio, hd⟩ := Mutation.proposal_ok_iff.mp hq'
    rw [hswept] at hu'
    cases hu'
    obtain ⟨⟨doc, answer⟩, hok, halike, hanswer⟩ := hagree.symm_ok (Outcome.ofExcept_eq_ok ((hdecide _).symm.trans hd))
    refine ⟨⟨doc, m.record, .ordinary, answer⟩, Mutation.proposal_ok_iff.mpr ⟨hm, hidle, _, hu, rfl,
      (hpriority _).symm, ?_⟩, halike, hrec, hprio.trans (hpriority _), hanswer.symm⟩
    rw [hdecide, hok]
    rfl

/-- A claim is proposed after a collection as it is without it. -/
theorem revealClaim_sweep (hu : s.session.unlocked = some u) (hd : u.doc.Unshadowed t) (ht : t ≤ s.host.wall)
    (actor agentId project key approvalId : String) :
    ProposeAlike s.host.wall ((revealClaimProposal actor agentId project key approvalId).run s).1
      ((revealClaimProposal actor agentId project key approvalId).run (s.sweep t)).1 :=
  Mutation.proposal_sweep (m := .revealClaim actor agentId project key approvalId) hu
    (f := fun d => claim d agentId project key approvalId s.host.wall) (fun _ => rfl) (fun _ => rfl)
    (claim_purge hd ht _ _ _ _)

/-- A decision on an approval is proposed after a collection as it is without it. -/
theorem approvalDecide_sweep (hu : s.session.unlocked = some u) (hd : u.doc.Unshadowed t) (ht : t ≤ s.host.wall)
    (actor approvalId : String) (approve : Bool) :
    ProposeAlike s.host.wall ((approvalDecideProposal actor approvalId approve).run s).1
      ((approvalDecideProposal actor approvalId approve).run (s.sweep t)).1 := by
  refine Mutation.proposal_sweep (m := .approvalDecide actor approvalId approve) hu
    (f := fun d => (checkApprovalDecide d approvalId approve s.host.wall).map fun doc => (doc, ())) (fun d => ?_)
    (fun _ => rfl) ?_
  · change ((deciding (checkApprovalDecide d approvalId approve)).run s.host).1 = _
    rw [deciding, run_get_bind, run_bind, run_lift]
    cases checkApprovalDecide d approvalId approve s.host.wall <;> rfl
  · exact (checkApprovalDecide_purge hd ht approvalId approve).unit

omit [Crypto] [VaultJson] [AuditJson] in
/-- The dashboard shows after a collection what it shows without it. -/
theorem vaultHealth_sweep {h : Host} (ht : t ≤ h.wall) (idleLockSecs runsActive : Nat) :
    (s.sweep t).session.vaultHealth h idleLockSecs runsActive = s.session.vaultHealth h idleLockSecs runsActive := by
  rcases s with ⟨session, host⟩
  rcases session with ⟨envelope, _ | u, _⟩
  · rfl
  · change Value.object [_, _, _, _, _, _, _, _, _, ("leases_active", .count _), ("approvals_pending", .count _)] = _
    rw [active_purge ht, pending_purge ht]
    rfl

/-- Where nothing that is over stands before what is not, a collection is invisible to authorization, then and later:
the same requests are authorized for the same actor, the same claims and decisions are made, with the same value and
with documents that differ in nothing but what is over, and the same counts are shown. A refusal may be that nothing is
found. A cap is reached by what is not over only. -/
theorem collection_is_invisible (d : VaultDocument) (t now : OffsetDateTime) (hd : d.Unshadowed t) (ht : t ≤ now) :
    (∀ agentId project op credential, leaseVerdict (purgeTerminal d t) agentId project op credential now =
      leaseVerdict d agentId project op credential now) ∧
    (∀ agentId project key approvalId, Agree (fun x y => x.1.Alike now y.1 ∧ x.2 = y.2)
      (claim d agentId project key approvalId now) (claim (purgeTerminal d t) agentId project key approvalId now)) ∧
    (∀ approvalId approve, Agree (VaultDocument.Alike now) (checkApprovalDecide d approvalId approve now)
      (checkApprovalDecide (purgeTerminal d t) approvalId approve now)) ∧
    (∀ agentId approvalId,
      checkApprovalStatus (purgeTerminal d t) agentId approvalId now = checkApprovalStatus d agentId approvalId now ∨
      checkApprovalStatus (purgeTerminal d t) agentId approvalId now = .error .notFound) ∧
    (∀ (s : Sys) (u : Unlocked), s.session.unlocked = some u → u.doc = d → s.host.wall = now →
      (∀ agentId project op credential actor,
        ((authorizeLease agentId project op credential).run (s.sweep t)).1 = .ok actor ↔
          ((authorizeLease agentId project op credential).run s).1 = .ok actor) ∧
      (∀ actor agentId project key approvalId, ProposeAlike now
        ((revealClaimProposal actor agentId project key approvalId).run s).1
        ((revealClaimProposal actor agentId project key approvalId).run (s.sweep t)).1) ∧
      (∀ actor approvalId approve, ProposeAlike now ((approvalDecideProposal actor approvalId approve).run s).1
        ((approvalDecideProposal actor approvalId approve).run (s.sweep t)).1) ∧
      ∀ idleLockSecs runsActive, (s.sweep t).session.vaultHealth s.host idleLockSecs runsActive =
        s.session.vaultHealth s.host idleLockSecs runsActive) ∧
    (∀ agentId project ops ttlSecs,
      checkLeaseCreate d agentId project ops ttlSecs now = .error (.invalidInput "too many leases") →
      MAX_LEASES ≤ (d.leases.filter fun l => l.live now).length) ∧
    ∀ agentId project key, checkApprovalRequest d agentId project key now =
      .error (.invalidInput "too many approvals") →
      MAX_APPROVALS ≤ (d.approvals.filter fun a => !a.terminal now).length := by
  refine ⟨fun _ _ _ _ => leaseVerdict_purge hd ht _ _ _ _, fun _ _ _ _ => claim_purge hd ht _ _ _ _,
    fun _ _ => checkApprovalDecide_purge hd ht _ _, fun _ _ => checkApprovalStatus_purge hd _ _, ?_,
    fun _ _ _ _ => too_many_leases, fun _ _ _ => too_many_approvals⟩
  rintro s u hu rfl rfl
  exact ⟨fun _ _ _ _ _ => authorizeLease_sweep hu hd ht _ _ _ _ _, fun _ _ _ _ _ =>
    revealClaim_sweep hu hd ht _ _ _ _ _,
    fun _ _ _ => approvalDecide_sweep hu hd ht _ _ _, fun _ _ => vaultHealth_sweep ht _ _⟩

end

/-- The claimed approval of a document is collected, and a claim of it finds nothing. -/
theorem collection_is_invisible_claimed :
    Agree (fun x y => x.1.Alike 1 y.1 ∧ x.2 = y.2)
    (claim Reference.withClaim Reference.agentId "p" "K" "0001020304050607" 1)
      (claim (purgeTerminal Reference.withClaim 0) Reference.agentId "p" "K" "0001020304050607" 1) :=
  (collection_is_invisible Reference.withClaim 0 1 ⟨.nil, .cons (fun _ hmem => (nomatch hmem)) .nil⟩
    (by decide)).2.1 _ _ _ _

/-- A claimed approval and an approved one under its id. -/
def Reference.withTwins : VaultDocument :=
  { Reference.withClaim with approvals := Reference.withClaim.approvals ++ Reference.withApproval.approvals }

/-- What was hidden by a claimed approval of its id is claimed after a collection, and the poll of a claimed approval
finds nothing after it. -/
theorem collection_shows :
    claim Reference.withTwins Reference.agentId "p" "K" "0001020304050607" 1 = .error .approvalConsumed ∧
    (∃ doc value,
      claim (purgeTerminal Reference.withTwins 0) Reference.agentId "p" "K" "0001020304050607" 1 = .ok (doc, value)) ∧
    checkApprovalStatus Reference.withClaim Reference.agentId "0001020304050607" 1 = .ok "consumed" ∧
    checkApprovalStatus (purgeTerminal Reference.withClaim 0) Reference.agentId "0001020304050607" 1 =
      .error .notFound :=
  ⟨by decide +kernel, ⟨_, _, rfl⟩, by decide +kernel, by decide +kernel⟩

end SecretsVault
