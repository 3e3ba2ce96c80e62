import SecretsVault.CallActs

/-!
# Effects of the mutations

`Mutation.Effect` says what a mutation makes of the document, as an equation for each of them; `Mutation.decide_effect`
that its decision does.

Leases and approvals only lose: a lease that is not revoked, or an approval that is open, was there before or was minted
by this mutation (`Effect.leases`, `Effect.approvals`).
-/

namespace SecretsVault

open Lib Lib.Prog

/-! ## What is minted -/

theorem freshIdWithin_eq_ok {taken : String → Bool} {n : Nat} {h h' : Host} {id : String}
    (hr : (freshIdWithin taken n).run h = (.ok id, h')) : taken id = false := by
  induction n generalizing h with
  | zero => cases hr
  | succ n ih =>
    obtain ⟨x, h1, -, hr⟩ := bind_eq_ok hr
    split at hr
    · exact ih hr
    · rename_i hx
      cases hr
      simpa using hx

theorem freshId_eq_ok {taken : String → Bool} {h h' : Host} {id : String} (hr : (freshId taken).run h = (.ok id, h')) :
    taken id = false := by
  rw [freshId, run_get_bind] at hr
  exact freshIdWithin_eq_ok hr

theorem generateCapability_eq_ok [Crypto] {h h' : Host} {token displayPrefix : String} {digest : Digest}
    (hr : generateCapability.run h = (.ok (token, digest, displayPrefix), h')) : digest = tokenDigest token := by
  obtain ⟨b, h1, -, hr⟩ := bind_eq_ok hr
  cases hr
  rfl

/-- A lease made for a request at `now`, with the credential it is presented by. -/
structure Lease.MintedFor [Crypto] (l : Lease) (credential agentId projectId : String) (ops : List Op) (ttlSecs : Nat)
    (now : OffsetDateTime) : Prop where
  agentId : l.agentId = agentId
  projectId : l.projectId = projectId
  ops : l.ops = ops
  credentialHash : l.credentialHash = (tokenDigest credential).1
  createdAt : l.createdAt = now
  expiresAt : l.expiresAt = now + seconds ttlSecs
  revokedAt : l.revokedAt = none

theorem mintLease_eq_ok [Crypto] {doc doc' : VaultDocument} {agentId projectId credential : String} {ops : List Op}
    {ttlSecs : Nat} {now : OffsetDateTime} {h h' : Host} {l : Lease}
    (hr : (mintLease doc agentId projectId ops ttlSecs now).run h = (.ok (doc', l, credential), h')) :
    doc' = { doc with leases := doc.leases ++ [l] } ∧ l.MintedFor credential agentId projectId ops ttlSecs now ∧
      ∀ l' ∈ doc.leases, l'.id ≠ l.id := by
  obtain ⟨id, h1, hid, hr⟩ := bind_eq_ok hr
  obtain ⟨⟨c, d, pre⟩, h2, hcap, hr⟩ := bind_eq_ok hr
  cases hr
  have hd := generateCapability_eq_ok hcap
  subst hd
  exact ⟨rfl, ⟨rfl, rfl, rfl, rfl, rfl, rfl, rfl⟩, by simpa using freshId_eq_ok hid⟩

theorem mintApproval_eq_ok {doc doc' : VaultDocument} {agentId projectId key : String} {now : OffsetDateTime}
    {h h' : Host} {a : Approval} (hr : (mintApproval doc agentId projectId key now).run h = (.ok (doc', a), h')) :
    doc' = { doc with approvals := doc.approvals ++ [a] } ∧
      (∃ id, a = .new id agentId projectId key now) ∧ ∀ b ∈ doc.approvals, b.id ≠ a.id := by
  obtain ⟨id, h1, hid, hr⟩ := bind_eq_ok hr
  cases hr
  have hfree := freshId_eq_ok hid
  exact ⟨rfl, ⟨id, rfl⟩, by simpa [Approval.new] using hfree⟩

/-! ## Effects -/

section

variable [Crypto] {α : Type}

/-- What a mutation makes of the document at a time, with its answer. -/
def Mutation.Effect : Mutation α → OffsetDateTime → VaultDocument → VaultDocument → α → Prop
  | .projectAdd _ _ _, _, doc, doc', _ => ∃ projects, doc' = { doc with projects }
  | .projectPathAdd _ _ _, _, doc, doc', _ => ∃ projects, doc' = { doc with projects }
  | .projectPathRemove _ _ _, _, doc, doc', _ => ∃ projects, doc' = { doc with projects }
  | .projectRemove _ _, _, doc, doc', _ => ∃ projects, doc' = { doc with projects }
  | .secretSet _ _ _ _, _, doc, doc', _ => ∃ secrets, doc' = { doc with secrets }
  | .secretDelete _ _ _, _, doc, doc', _ => ∃ secrets, doc' = { doc with secrets }
  | .agentAdd _ _, _, doc, doc', _ => ∃ agent, doc' = { doc with agents := doc.agents ++ [agent] }
  | .agentRevoke _ name, now, doc, doc', _ => agentRevoked doc name now = .ok doc'
  | .grantAdd _ agentName projectName ops, now, doc, doc', _ => doGrantAdd doc agentName projectName ops now = .ok doc'
  | .grantRevoke _ agentName projectName, now, doc, doc', _ => doGrantRevoke doc agentName projectName now = .ok doc'
  | .leaseCreate _ agentId project ops ttlSecs, now, doc, doc', (lease, credential) =>
    ∃ d projectId, checkLeaseCreate doc agentId project ops ttlSecs now = .ok (d, projectId) ∧
      doc' = { d with leases := d.leases ++ [lease] } ∧ lease.MintedFor credential agentId projectId ops ttlSecs now ∧
      ∀ l ∈ d.leases, l.id ≠ lease.id
  | .leaseRevoke _ agentId leaseId, now, doc, doc', _ => checkLeaseRevoke doc agentId leaseId now = .ok doc'
  | .approvalRequest _ agentId project key, now, doc, doc', a =>
    ∃ d projectId, checkApprovalRequest doc agentId project key now = .ok (d, projectId) ∧
      doc' = { d with approvals := d.approvals ++ [a] } ∧
      (∃ id, a = .new id agentId projectId key now) ∧ ∀ b ∈ d.approvals, b.id ≠ a.id
  | .approvalDecide _ approvalId approve, now, doc, doc', _ => checkApprovalDecide doc approvalId approve now = .ok doc'
  | .revealClaim _ agentId project key approvalId, now, doc, doc', value =>
    claim doc agentId project key approvalId now = .ok (doc', value)

omit [Crypto] in
theorem deciding_eq_ok {f : OffsetDateTime → Except VaultError VaultDocument} {h h' : Host} {doc : VaultDocument}
    {a : Unit} (hr : (deciding f).run h = (.ok (doc, a), h')) : f h.wall = .ok doc := by
  rw [deciding, run_get_bind] at hr
  obtain ⟨d, h1, hd, hr⟩ := bind_eq_ok hr
  cases hr
  exact Outcome.ofExcept_eq_ok (congrArg Prod.fst hd)

omit [Crypto] in
theorem updateProject_eq_ok {doc doc' : VaultDocument} {name : String} {f : Project → Except VaultError Project}
    (h : updateProject doc name f = .ok doc') : ∃ projects, doc' = { doc with projects } := by
  unfold updateProject at h
  split at h
  · cases h
  · split at h
    · cases h
    · obtain ⟨p, -, h⟩ := Except.bind_eq_ok h
      cases h
      exact ⟨_, rfl⟩

/-- A decision that came to a document has its effect. -/
theorem Mutation.decide_effect {m : Mutation α} {doc doc' : VaultDocument} {a : α} {h h' : Host}
    (hr : (m.decide doc).run h = (.ok (doc', a), h')) : m.Effect h.wall doc doc' a := by
  cases m with
  | projectAdd _ name paths =>
    obtain ⟨_, _, _, hr⟩ := bind_eq_ok hr
    obtain ⟨_, _, _, hr⟩ := bind_eq_ok hr
    obtain ⟨_, _, _, hr⟩ := bind_eq_ok hr
    obtain ⟨_, _, _, hr⟩ := bind_eq_ok hr
    cases hr
    exact ⟨_, rfl⟩
  | projectPathAdd _ name path =>
    obtain ⟨_, _, _, hr⟩ := bind_eq_ok hr
    obtain ⟨d, _, hd, hr⟩ := bind_eq_ok hr
    cases hr
    exact updateProject_eq_ok (Outcome.ofExcept_eq_ok (congrArg Prod.fst hd))
  | projectPathRemove _ name path =>
    obtain ⟨_, _, _, hr⟩ := bind_eq_ok hr
    obtain ⟨d, _, hd, hr⟩ := bind_eq_ok hr
    cases hr
    exact updateProject_eq_ok (Outcome.ofExcept_eq_ok (congrArg Prod.fst hd))
  | projectRemove _ name =>
    rw [Mutation.decide, doProjectRemove] at hr
    split at hr
    · cases hr
    · split at hr
      · cases hr
      · obtain ⟨_, _, _, hr⟩ := bind_eq_ok hr
        cases hr
        exact ⟨_, rfl⟩
  | secretSet _ project key value =>
    rw [Mutation.decide, doSecretSet] at hr
    obtain ⟨_, _, _, hr⟩ := bind_eq_ok hr
    split at hr
    · cases hr
    · obtain ⟨_, _, _, hr⟩ := bind_eq_ok hr
      split at hr
      · cases hr
        exact ⟨_, rfl⟩
      · obtain ⟨_, _, _, hr⟩ := bind_eq_ok hr
        cases hr
        exact ⟨_, rfl⟩
  | secretDelete _ project key =>
    rw [Mutation.decide, doSecretDelete] at hr
    split at hr
    · cases hr
    · split at hr
      · cases hr
      · cases hr
        exact ⟨_, rfl⟩
  | agentAdd _ name =>
    obtain ⟨_, _, _, hr⟩ := bind_eq_ok hr
    obtain ⟨_, _, _, hr⟩ := bind_eq_ok hr
    obtain ⟨_, _, _, hr⟩ := bind_eq_ok hr
    obtain ⟨_, _, _, hr⟩ := bind_eq_ok hr
    cases hr
    exact ⟨_, rfl⟩
  | agentRevoke => exact deciding_eq_ok hr
  | grantAdd => exact deciding_eq_ok hr
  | grantRevoke => exact deciding_eq_ok hr
  | leaseCreate _ agentId project ops ttlSecs =>
    obtain ⟨lease, credential⟩ := a
    rw [Mutation.decide, run_get_bind] at hr
    obtain ⟨⟨d, projectId⟩, h1, hd, hr⟩ := bind_eq_ok hr
    rw [run_lift, Prod.mk.injEq] at hd
    obtain ⟨hd, rfl⟩ := hd
    exact ⟨d, projectId, Outcome.ofExcept_eq_ok hd, mintLease_eq_ok hr⟩
  | leaseRevoke => exact deciding_eq_ok hr
  | approvalRequest _ agentId project key =>
    rw [Mutation.decide, run_get_bind] at hr
    obtain ⟨⟨d, projectId⟩, h1, hd, hr⟩ := bind_eq_ok hr
    rw [run_lift, Prod.mk.injEq] at hd
    obtain ⟨hd, rfl⟩ := hd
    exact ⟨d, projectId, Outcome.ofExcept_eq_ok hd, mintApproval_eq_ok hr⟩
  | approvalDecide => exact deciding_eq_ok hr
  | revealClaim =>
    rw [Mutation.decide, run_get_bind] at hr
    exact Outcome.ofExcept_eq_ok (congrArg Prod.fst hr)

end

/-! ## Leases and approvals only lose -/

/-- Every lease that is not revoked was there before. -/
def LeasesFrom (d d' : VaultDocument) : Prop := ∀ l ∈ d'.leases, l.revokedAt = none → l ∈ d.leases

/-- Every open approval was there before. -/
def ApprovalsFrom (d d' : VaultDocument) : Prop := ∀ a ∈ d'.approvals, a.status.open_ = true → a ∈ d.approvals

theorem LeasesFrom.refl (d : VaultDocument) : LeasesFrom d d := fun _ hl _ => hl

theorem LeasesFrom.trans {a b c : VaultDocument} (h : LeasesFrom a b) (h' : LeasesFrom b c) : LeasesFrom a c :=
  fun l hl hr => h l (h' l hl hr) hr

theorem ApprovalsFrom.refl (d : VaultDocument) : ApprovalsFrom d d := fun _ ha _ => ha

theorem ApprovalsFrom.trans {a b c : VaultDocument} (h : ApprovalsFrom a b) (h' : ApprovalsFrom b c) :
    ApprovalsFrom a c :=
  fun x hx ho => h x (h' x hx ho) ho

theorem mem_revokeLeases {pick : Lease → Bool} {now : OffsetDateTime} {d : VaultDocument} {l : Lease}
    (hl : l ∈ (revokeLeases pick now d).leases) (hr : l.revokedAt = none) : l ∈ d.leases ∧ pick l = false := by
  obtain ⟨x, hx, rfl⟩ := List.mem_map.mp hl
  split at hr
  · cases hr
  · rename_i hp
    split
    · rename_i hp'
      exact absurd hp' hp
    · refine ⟨hx, ?_⟩
      simpa [hr] using hp

theorem mem_denyApprovals {pick : Approval → Bool} {d : VaultDocument} {a : Approval}
    (ha : a ∈ (denyApprovals pick d).approvals) (ho : a.status.open_ = true) : a ∈ d.approvals ∧ pick a = false := by
  obtain ⟨x, hx, rfl⟩ := List.mem_map.mp ha
  split at ho
  · cases ho
  · rename_i hp
    split
    · rename_i hp'
      exact absurd hp' hp
    · refine ⟨hx, ?_⟩
      simpa [ho] using hp

theorem leasesFrom_revokeLeases (pick : Lease → Bool) (now : OffsetDateTime) (d : VaultDocument) :
    LeasesFrom d (revokeLeases pick now d) := fun _ hl hr => (mem_revokeLeases hl hr).1

theorem approvalsFrom_denyApprovals (pick : Approval → Bool) (d : VaultDocument) :
    ApprovalsFrom d (denyApprovals pick d) := fun _ ha ho => (mem_denyApprovals ha ho).1

/-- What is not over later is not over now. -/
theorem Approval.terminal_later {a : Approval} {t t' : OffsetDateTime} (h : t ≤ t') (ha : a.terminal t' = false) :
    a.terminal t = false := by
  unfold Approval.terminal at *
  split <;> simp_all
  · exact Int.lt_of_le_of_lt h ha
  · split <;> simp_all
    exact Int.lt_of_le_of_lt h ha

/-- A lease that is over stays so. -/
theorem Lease.terminal_mono {l : Lease} {t now : OffsetDateTime} (ht : t ≤ now) (h : l.terminal t = true) :
    l.terminal now = true := by
  unfold Lease.terminal at *
  simp only [Bool.or_eq_true, decide_eq_true_eq] at *
  exact h.imp_left fun h => Int.le_trans h ht

/-- An approval that is over stays so. -/
theorem Approval.terminal_mono {a : Approval} {t now : OffsetDateTime} (ht : t ≤ now) (h : a.terminal t = true) :
    a.terminal now = true := by
  by_contra hnot
  rw [Approval.terminal_later ht (by simpa using hnot)] at h
  cases h

theorem purgeTerminal_sub (d : VaultDocument) (now : OffsetDateTime) :
    (∀ l ∈ (purgeTerminal d now).leases, l ∈ d.leases) ∧ ∀ a ∈ (purgeTerminal d now).approvals, a ∈ d.approvals :=
  ⟨fun _ hl => List.mem_of_mem_filter hl, fun _ ha => List.mem_of_mem_filter ha⟩

theorem sweepAt_sub (full : Bool) (d : VaultDocument) (now : OffsetDateTime) :
    (∀ l ∈ (sweepAt full d now).leases, l ∈ d.leases) ∧ ∀ a ∈ (sweepAt full d now).approvals, a ∈ d.approvals := by
  unfold sweepAt
  split
  · exact purgeTerminal_sub d now
  · exact ⟨fun _ h => h, fun _ h => h⟩

/-- A lock leaves no lease unrevoked and no approval open. -/
theorem lockAll_dead (now : OffsetDateTime) (d : VaultDocument) :
    (∀ l ∈ (lockAll now d).leases, l.revokedAt ≠ none) ∧ ∀ a ∈ (lockAll now d).approvals, a.status.open_ = false := by
  constructor
  · intro l hl hr
    exact absurd (@mem_revokeLeases (fun _ => true) _ _ _ hl hr).2 (by simp)
  · intro a ha
    by_contra ho
    exact absurd (@mem_denyApprovals (fun _ => true) _ _ ha (by simpa using ho)).2 (by simp)

end SecretsVault
