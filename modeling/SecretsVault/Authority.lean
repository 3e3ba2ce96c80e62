import SecretsVault.Effects

/-!
# Authority behind leases and approvals

`Covered`: a lease that is not revoked belongs to an active agent, and its operations are among those of the agent's
grant in force on its project. `Backed`: an open approval belongs to an active agent that may reveal on its project.
Approval ids are unique. `Sane` puts them together; it holds of a new document and every mutation keeps it.

- `Mutation.Effect.sane`, `lockAll_sane`, `purgeTerminal_sane`, `invalidateLease_sane`: what keeps it.
- `Mutation.Effect.leases`, `Mutation.Effect.approvals`: where live leases and open approvals come from.
- `leaseVerdict_covered`: on a covered document no request finds a lease its grant does not cover.
-/

namespace SecretsVault

open Lib Lib.Prog

namespace VaultDocument

/-- The lease is a part of what its agent has. -/
structure Covers (d : VaultDocument) (l : Lease) : Prop where
  active : d.agentActive l.agentId = true
  ne_nil : l.ops ≠ []
  ops : ∀ o ∈ l.ops, o ∈ d.grantOps l.agentId l.projectId

/-- The approval is for an agent that may reveal on its project. -/
structure Backs (d : VaultDocument) (a : Approval) : Prop where
  active : d.agentActive a.agentId = true
  reveal : d.authorize a.agentId a.projectId .reveal = true

/-- What holds of every document of a vault. -/
structure Sane (d : VaultDocument) : Prop where
  covered : ∀ l ∈ d.leases, l.revokedAt = none → d.Covers l
  backed : ∀ a ∈ d.approvals, a.status.open_ = true → d.Backs a
  ids : (d.approvals.map (·.id)).Nodup

theorem sane_new (t : OffsetDateTime) : (new t).Sane :=
  ⟨fun _ hl => absurd hl (List.not_mem_nil), fun _ ha => absurd ha (List.not_mem_nil), List.nodup_nil⟩

/-- A covered lease has a grant in force behind it. -/
theorem Covers.grant {d : VaultDocument} {l : Lease} (h : d.Covers l) :
    ∃ g, d.activeGrant l.agentId l.projectId = some g ∧ ∀ o ∈ l.ops, o ∈ g.ops := by
  have hops := h.ops
  unfold grantOps at hops
  split at hops
  · rename_i g hg
    exact ⟨g, hg, hops⟩
  · obtain ⟨o, ho⟩ := List.exists_mem_of_ne_nil _ h.ne_nil
    exact absurd (hops o ho) (List.not_mem_nil)

/-- An agent stays active when more are added. -/
theorem agentActive_append (d : VaultDocument) (agents : List AgentRecord) {id : String} (h : d.agentActive id = true) :
    ({ d with agents := d.agents ++ agents }).agentActive id = true := by
  unfold agentActive at *
  rw [List.any_append, h, Bool.true_or]

end VaultDocument

open VaultDocument

/-- Losing leases and approvals keeps what stands behind the others. -/
theorem VaultDocument.Sane.of_sub {d d' : VaultDocument} (h : d.Sane) (hl : LeasesFrom d d') (ha : ApprovalsFrom d d')
    (hact : ∀ id, d.agentActive id = true → d'.agentActive id = true) (hg : d'.grants = d.grants)
    (hids : (d'.approvals.map (·.id)).Nodup) : d'.Sane := by
  have hops : d'.grantOps = d.grantOps := by funext a p; simp only [grantOps, activeGrant, hg]
  have hauth : d'.authorize = d.authorize := by funext a p o; simp only [authorize, activeGrant, hg]
  refine ⟨fun l hl' hr => ?_, fun a ha' ho => ?_, hids⟩
  · obtain ⟨h1, h2, h3⟩ := h.covered l (hl l hl' hr) hr
    exact ⟨hact _ h1, h2, by rw [hops]; exact h3⟩
  · obtain ⟨h1, h2⟩ := h.backed a (ha a ha' ho) ho
    exact ⟨hact _ h1, by rw [hauth]; exact h2⟩

theorem map_id_denyApprovals (pick : Approval → Bool) (d : VaultDocument) :
    (denyApprovals pick d).approvals.map (·.id) = d.approvals.map (·.id) := by
  unfold denyApprovals
  rw [List.map_map]
  refine List.map_congr_left fun a _ => ?_
  dsimp only [Function.comp]
  split <;> rfl

theorem lockAll_sane {d : VaultDocument} (h : d.Sane) (now : OffsetDateTime) : (lockAll now d).Sane :=
  h.of_sub ((leasesFrom_revokeLeases _ now d)) (fun a ha ho => (mem_denyApprovals ha ho).1) (fun _ h => h) rfl
    (by rw [lockAll, map_id_denyApprovals]; exact h.ids)

theorem purgeTerminal_sane {d : VaultDocument} (h : d.Sane) (now : OffsetDateTime) : (purgeTerminal d now).Sane :=
  h.of_sub (fun l hl _ => (purgeTerminal_sub d now).1 l hl) (fun a ha _ => (purgeTerminal_sub d now).2 a ha)
    (fun _ h => h)
    rfl (h.ids.sublist (List.filter_sublist.map _))

theorem sweepAt_sane {d : VaultDocument} (h : d.Sane) (full : Bool) (now : OffsetDateTime) :
    (sweepAt full d now).Sane := by
  unfold sweepAt
  split
  · exact purgeTerminal_sane h now
  · exact h

theorem withHead_sane {d : VaultDocument} (h : d.Sane) (head : Option AuditHead) : (d.withHead head).Sane := by
  cases head with
  | none => exact h
  | some head => exact h.of_sub (LeasesFrom.refl d) (ApprovalsFrom.refl d) (fun _ h => h) rfl h.ids

/-- Revoking leases by changing some of them in place. -/
theorem leasesFrom_modify {d : VaultDocument} {pos : Nat} {f : Lease → Lease} (hf : ∀ l, (f l).revokedAt ≠ none) :
    LeasesFrom d { d with leases := d.leases.modify pos f } := by
  intro l hl hr
  obtain ⟨i, hi, rfl⟩ := List.mem_iff_getElem.mp hl
  rw [List.getElem_modify] at hr ⊢
  split at hr
  · exact absurd hr (hf _)
  · rename_i hne
    rw [if_neg hne]
    exact List.getElem_mem _

theorem invalidateLease_from (d : VaultDocument) (leaseId : String) (now : OffsetDateTime) :
    LeasesFrom d (invalidateLease d leaseId now) := by
  unfold invalidateLease
  split
  · exact LeasesFrom.refl d
  · exact leasesFrom_modify fun l => by simp

theorem invalidateLease_sane {d : VaultDocument} (h : d.Sane) (leaseId : String) (now : OffsetDateTime) :
    (invalidateLease d leaseId now).Sane := by
  refine h.of_sub (invalidateLease_from d leaseId now) ?_ ?_ ?_ ?_ <;> unfold invalidateLease <;> split
  · exact ApprovalsFrom.refl d
  · exact ApprovalsFrom.refl d
  · exact fun _ h => h
  · exact fun _ h => h
  · rfl
  · rfl
  · exact h.ids
  · exact h.ids

/-! ## What the decisions checked -/

theorem checkLeaseCreate_eq_ok {doc d : VaultDocument} {agentId project projectId : String} {ops : List Op}
    {ttlSecs : Nat}
    {now : OffsetDateTime} (h : checkLeaseCreate doc agentId project ops ttlSecs now = .ok (d, projectId)) :
    ∃ p, doc.projectByName project = some p ∧ projectId = p.id ∧ doc.agentActive agentId = true ∧ ops ≠ [] ∧
      (∀ o ∈ ops, o ∈ doc.grantOps agentId p.id) ∧
      d = sweepAt (decide (MAX_LEASES ≤ doc.leases.length)) doc now := by
  unfold checkLeaseCreate at h
  split at h; · cases h
  split at h; · cases h
  rename_i hne
  split at h; · cases h
  rename_i p hp
  split at h; · cases h
  rename_i a ha
  split at h; · cases h
  rename_i hact
  split at h; · cases h
  rename_i g hg
  split at h; · cases h
  rename_i hops
  dsimp only at h
  split at h; · cases h
  cases h
  refine ⟨p, hp, rfl, ?_, by simpa using hne, fun o ho => ?_, rfl⟩
  · refine List.any_eq_true.mpr ⟨a, List.mem_of_find?_eq_some ha, ?_⟩
    have := List.find?_some ha
    simp only [beq_iff_eq] at this
    simp [this, Classical.not_not.mp hact]
  · rw [grantOps, hg]
    simp only [Bool.not_eq_true', Bool.not_eq_false, List.all_eq_true, List.contains_eq_mem, decide_eq_true_eq] at hops
    exact hops o ho

theorem checkApprovalRequest_eq_ok {doc d : VaultDocument} {agentId project projectId key : String}
    {now : OffsetDateTime} (h : checkApprovalRequest doc agentId project key now = .ok (d, projectId)) :
    ∃ p, doc.projectByName project = some p ∧ projectId = p.id ∧ doc.agentActive agentId = true ∧
      doc.authorize agentId p.id .reveal = true ∧ d = sweepAt (decide (MAX_APPROVALS ≤ doc.approvals.length))
      doc now := by
  unfold checkApprovalRequest at h
  split at h; · cases h
  rename_i p hp
  split at h; · cases h
  rename_i hact
  split at h; · cases h
  rename_i hauth
  split at h; · cases h
  dsimp only at h
  split at h; · cases h
  cases h
  exact ⟨p, hp, rfl, by simpa using hact, by simpa using hauth, rfl⟩

theorem checkLeaseRevoke_eq_ok {doc d : VaultDocument} {agentId : Option String} {leaseId : String}
    {now : OffsetDateTime} (h : checkLeaseRevoke doc agentId leaseId now = .ok d) :
    ∃ pos, d = { doc with leases := doc.leases.modify pos fun l =>
      if l.revokedAt.isNone then { l with revokedAt := some now } else l } := by
  unfold checkLeaseRevoke at h
  split at h; · cases h
  rename_i pos _
  split at h; · cases h
  split at h; · cases h
  cases h
  exact ⟨pos, rfl⟩

theorem findIdx?_getElem? {β : Type} {l : List β} {q : β → Bool} {i : Nat} {x : β} (h : l.findIdx? q = some i)
    (hx : l[i]? = some x) : x ∈ l ∧ q x = true := by
  obtain ⟨hi, hq, -⟩ := List.findIdx?_eq_some_iff_getElem.mp h
  rw [List.getElem?_eq_getElem hi, Option.some.injEq] at hx
  subst hx
  exact ⟨List.getElem_mem _, hq⟩

theorem checkApprovalDecide_eq_ok {doc d : VaultDocument} {approvalId : String} {approve : Bool} {now : OffsetDateTime}
    (h : checkApprovalDecide doc approvalId approve now = .ok d) :
    ∃ pos a, doc.approvals.findIdx? (fun a => a.id == approvalId) = some pos ∧ doc.approvals[pos]? = some a ∧
      a ∈ doc.approvals ∧ a.id = approvalId ∧ a.status = .pending ∧ now < a.pendingExpiresAt ∧
      d = { doc with approvals := doc.approvals.set pos (
        if approve then
          { a with
            status := .approved, approvedAt := some now, claimExpiresAt := some (now + seconds APPROVAL_CLAIM_SECS) }
        else { a with status := .denied }) } := by
  unfold checkApprovalDecide at h
  split at h; · cases h
  rename_i pos hpos
  split at h; · cases h
  rename_i a ha
  obtain ⟨hmem, hid⟩ := findIdx?_getElem? hpos ha
  split at h <;> try cases h
  rename_i hst
  split at h; · cases h
  rename_i hlt
  cases h
  exact ⟨pos, a, hpos, ha, hmem, by simpa using hid, hst, Int.not_le.mp hlt, rfl⟩

theorem claim_eq_ok {doc d : VaultDocument} {agentId project key approvalId : String} {now : OffsetDateTime}
    {value : Bytes} (h : claim doc agentId project key approvalId now = .ok (d, value)) :
    ∃ p pos a s, doc.projectByName project = some p ∧ doc.approvals.findIdx? (fun a => a.id == approvalId) = some pos ∧
      doc.approvals[pos]? = some a ∧ a ∈ doc.approvals ∧ a.id = approvalId ∧ a.agentId = agentId ∧ a.projectId = p.id ∧
      a.key = key ∧ doc.authorize agentId p.id .reveal = true ∧ a.status = .approved ∧
      (∀ exp, a.claimExpiresAt = some exp → now < exp) ∧ doc.secret p.id key = some s ∧ value = s.value ∧
      d = { doc with approvals := doc.approvals.set pos { a with status := .consumed } } := by
  unfold claim at h
  split at h; · cases h
  rename_i p hp
  split at h; · cases h
  rename_i pos hpos
  split at h; · cases h
  rename_i a ha
  obtain ⟨hmem, hid⟩ := findIdx?_getElem? hpos ha
  split at h; · cases h
  rename_i hbind
  simp only [not_or, ne_eq, Classical.not_not] at hbind
  split at h; · cases h
  rename_i hauth
  split at h <;> try (split at h <;> cases h)
  · cases h
  · cases h
  · rename_i hst
    split at h; · cases h
    rename_i hexp
    split at h; · cases h
    rename_i s hs
    cases h
    refine ⟨p, pos, a, s, hp, hpos, ha,
      hmem, by simpa using hid, hbind.1, hbind.2.1, hbind.2.2, by simpa using hauth, hst,
      fun exp he => ?_, hs, rfl, rfl⟩
    rw [he] at hexp
    simpa using hexp

/-! ## Narrowing an agent or a grant -/

theorem mem_set {β : Type} {l : List β} {i : Nat} {x y : β} (h : y ∈ l.set i x) : y = x ∨ y ∈ l :=
  (List.mem_or_eq_of_mem_set h).symm

theorem agentRevoked_eq_ok {doc d : VaultDocument} {name : String} {now : OffsetDateTime}
    (h : agentRevoked doc name now = .ok d) : ∃ idx a, doc.agents[idx]? = some a ∧
      d = denyAgentApprovals a.id (revokeAgentLeases a.id now
        { doc with agents := doc.agents.set idx { a with status := .revoked } }) := by
  obtain ⟨⟨d1, agentId⟩, h1, h⟩ := Except.bind_eq_ok h
  cases h
  unfold doAgentRevoke at h1
  split at h1; · cases h1
  rename_i idx _
  split at h1; · cases h1
  rename_i a ha
  cases h1
  exact ⟨idx, a, ha, rfl⟩

/-- Revoking one agent leaves the others active. -/
theorem agentActive_set {d : VaultDocument} {idx : Nat} {a : AgentRecord} (ha : d.agents[idx]? = some a) {id : String}
    (hid : id ≠ a.id) (h : d.agentActive id = true) :
    ({ d with agents := d.agents.set idx { a with status := .revoked } }).agentActive id = true := by
  unfold agentActive at *
  obtain ⟨x, hx, hq⟩ := List.any_eq_true.mp h
  refine List.any_eq_true.mpr ⟨x, ?_, hq⟩
  obtain ⟨i, hi, rfl⟩ := List.mem_iff_getElem.mp hx
  have hne : idx ≠ i := by
    rintro rfl
    rw [List.getElem?_eq_getElem hi, Option.some.injEq] at ha
    rw [ha] at hq
    simp only [Bool.and_eq_true, beq_iff_eq] at hq
    exact hid hq.1.symm
  rw [List.mem_iff_getElem]
  exact ⟨i, by simpa using hi, List.getElem_set_ne hne (by simpa using hi)⟩

theorem agentRevoked_sane {doc d : VaultDocument} (hs : doc.Sane) {name : String} {now : OffsetDateTime}
    (h : agentRevoked doc name now = .ok d) : d.Sane := by
  obtain ⟨idx, a, ha, rfl⟩ := agentRevoked_eq_ok h
  refine ⟨fun l hl hr => ?_, fun b hb ho => ?_, ?_⟩
  · obtain ⟨hl, hpick⟩ := mem_revokeLeases hl hr
    obtain ⟨h1, h2, h3⟩ := hs.covered l hl hr
    exact ⟨agentActive_set ha (by simpa using hpick) h1, h2, h3⟩
  · obtain ⟨hb, hpick⟩ := mem_denyApprovals hb ho
    obtain ⟨h1, h2⟩ := hs.backed b hb ho
    exact ⟨agentActive_set ha (by simpa using hpick) h1, h2⟩
  · rw [denyAgentApprovals, map_id_denyApprovals]
    exact hs.ids

/-- A search that passes over an element before and after it is changed does not see the change. -/
theorem find?_modify {β : Type} {q : β → Bool} {f : β → β} {l : List β} {i : Nat}
    (h : ∀ x, l[i]? = some x → q x = false ∧ q (f x) = false) : (l.modify i f).find? q = l.find? q := by
  induction l generalizing i with
  | nil => simp
  | cons a l ih =>
    cases i with
    | zero =>
      obtain ⟨h1, h2⟩ := h a rfl
      simp [h1, h2]
    | succ i =>
      simp only [List.modify_succ_cons, List.find?_cons]
      rw [ih fun x hx => h x hx]

/-- A change of the grants that the pair of an agent and a project is about. -/
structure GrantChange (d d' : VaultDocument) (agentId projectId : String) : Prop where
  eq : ∃ grants, d' = { d with grants }
  other : ∀ a p, (a, p) ≠ (agentId, projectId) → d'.activeGrant a p = d.activeGrant a p

theorem isActiveGrant_other {agentId projectId a p : String} (hne : (a, p) ≠ (agentId, projectId)) {g : Grant}
    (h : isActiveGrant agentId projectId g = true) : isActiveGrant a p g = false := by
  simp only [isActiveGrant, Bool.and_eq_true, beq_iff_eq] at h ⊢
  obtain ⟨⟨rfl, rfl⟩, -⟩ := h
  by_contra hc
  simp only [Bool.not_eq_false, Bool.and_eq_true, beq_iff_eq] at hc
  exact hne (by rw [hc.1.1, hc.1.2])

/-- Changing the operations or the end of the grant in force. -/
theorem grantChange_modify {d : VaultDocument} {agentId projectId : String} {idx : Nat} {f : Grant → Grant}
    (hidx : d.grants.findIdx? (isActiveGrant agentId projectId) = some idx)
    (hf : ∀ g, (f g).agentId = g.agentId ∧ (f g).projectId = g.projectId) :
    GrantChange d { d with grants := d.grants.modify idx f } agentId projectId := by
  refine ⟨⟨_, rfl⟩, fun a p hne => find?_modify fun g hg => ?_⟩
  have hact := (findIdx?_getElem? hidx hg).2
  have hpair : g.agentId = agentId ∧ g.projectId = projectId := by
    simp only [isActiveGrant, Bool.and_eq_true, beq_iff_eq] at hact
    exact hact.1
  refine ⟨isActiveGrant_other hne hact, ?_⟩
  obtain ⟨h1, h2⟩ := hf g
  by_contra hc
  simp only [isActiveGrant, Bool.not_eq_false, Bool.and_eq_true, beq_iff_eq] at hc
  exact hne (by rw [← hc.1.1, ← hc.1.2, h1, h2, hpair.1, hpair.2])

/-- A new grant behind the others. -/
theorem grantChange_append {d : VaultDocument} {agentId projectId : String} {g : Grant} (ha : g.agentId = agentId)
    (hp : g.projectId = projectId) : GrantChange d { d with grants := d.grants ++ [g] } agentId projectId := by
  refine ⟨⟨_, rfl⟩, fun a p hne => ?_⟩
  have hq : isActiveGrant a p g = false := by
    by_contra hc
    simp only [isActiveGrant, Bool.not_eq_false, Bool.and_eq_true, beq_iff_eq] at hc
    exact hne (by rw [← hc.1.1, ← hc.1.2, ha, hp])
  simp [activeGrant, List.find?_append, hq]

/-- What both operations on grants do behind the change. -/
def settleGrant (agentId projectId : String) (now : OffsetDateTime) (d : VaultDocument) : VaultDocument :=
  denyPairApprovalsIfRevealLost agentId projectId (revokeUncoveredLeases agentId projectId now d)

theorem doGrantAdd_eq_ok {doc d : VaultDocument} {agentName projectName : String} {ops : List Op} {now : OffsetDateTime}
    (h : doGrantAdd doc agentName projectName ops now = .ok d) : ∃ agent project d1,
    doc.agentByName agentName = some agent ∧
      doc.projectByName projectName = some project ∧ GrantChange doc d1 agent.id project.id ∧
      d = settleGrant agent.id project.id now d1 := by
  unfold doGrantAdd at h
  split at h; · cases h
  split at h; · cases h
  rename_i agent hagent
  split at h; · cases h
  rename_i project hproject
  extract_lets grants at h
  cases h
  refine ⟨agent, project, { doc with grants }, hagent, hproject, ?_, rfl⟩
  cases hidx : doc.grants.findIdx? (isActiveGrant agent.id project.id) with
  | some idx =>
    have : grants = doc.grants.modify idx fun g => { g with ops } := by simp only [grants, hidx]
    rw [this]
    exact grantChange_modify hidx fun g => ⟨rfl, rfl⟩
  | none =>
    have : grants = doc.grants ++
        [{ agentId := agent.id, projectId := project.id, ops, createdAt := now, revokedAt := none }] := by
      simp only [grants, hidx]
    rw [this]
    exact grantChange_append rfl rfl

theorem doGrantRevoke_eq_ok {doc d : VaultDocument} {agentName projectName : String} {now : OffsetDateTime}
    (h : doGrantRevoke doc agentName projectName now = .ok d) :
    ∃ agent project d1, doc.agentByName agentName = some agent ∧
      doc.projectByName projectName = some project ∧ GrantChange doc d1 agent.id project.id ∧
      d = settleGrant agent.id project.id now d1 := by
  unfold doGrantRevoke at h
  split at h; · cases h
  rename_i agent hagent
  split at h; · cases h
  rename_i project hproject
  split at h; · cases h
  rename_i idx hidx
  cases h
  have hgc := grantChange_modify (f := fun g => { g with revokedAt := some now }) hidx fun g => ⟨rfl, rfl⟩
  exact ⟨agent, project, _, hagent, hproject, hgc, rfl⟩

theorem denyPair_eq (agentId projectId : String) (d : VaultDocument) : ∃ approvals,
    denyPairApprovalsIfRevealLost agentId projectId d = { d with approvals } := by
  unfold denyPairApprovalsIfRevealLost
  split
  · exact ⟨d.approvals, rfl⟩
  · exact ⟨_, rfl⟩

/-- A change of a grant takes with it what it no longer covers. -/
theorem settleGrant_sane {d d1 : VaultDocument} (hs : d.Sane) {agentId projectId : String} (now : OffsetDateTime)
    (hc : GrantChange d d1 agentId projectId) : (settleGrant agentId projectId now d1).Sane := by
  obtain ⟨⟨grants, rfl⟩, hother⟩ := hc
  obtain ⟨approvals, heq⟩ := denyPair_eq agentId projectId (revokeUncoveredLeases agentId projectId now
    { d with grants })
  unfold settleGrant
  rw [heq]
  refine ⟨fun l hl hr => ?_, fun a ha ho => ?_, ?_⟩
  · obtain ⟨hl, hpick⟩ := mem_revokeLeases hl hr
    obtain ⟨h1, h2, h3⟩ := hs.covered l hl hr
    refine ⟨h1, h2, fun o ho => ?_⟩
    by_cases hpair : (l.agentId, l.projectId) = (agentId, projectId)
    · simp only [Prod.mk.injEq] at hpair
      obtain ⟨rfl, rfl⟩ := hpair
      simp only [beq_self_eq_true, Bool.true_and, Bool.not_eq_false', List.all_eq_true, List.contains_eq_mem,
        decide_eq_true_eq] at hpick
      exact hpick o ho
    · have := hother _ _ hpair
      change o ∈ ({ d with grants }).grantOps l.agentId l.projectId
      unfold grantOps at h3 ⊢
      rw [this]
      exact h3 o ho
  · have ha' : a ∈ (denyPairApprovalsIfRevealLost agentId projectId
        (revokeUncoveredLeases agentId projectId now { d with grants })).approvals := by rw [heq]; exact ha
    unfold denyPairApprovalsIfRevealLost at ha'
    have hreveal : ∀ x : VaultDocument, x.grants = grants → x.authorize = ({ d with grants }).authorize := by
      intro x hx
      funext a p o
      simp only [authorize, activeGrant, hx]
    have hback : a ∈ d.approvals ∧ ((a.agentId, a.projectId) = (agentId, projectId) →
        ({ d with grants }).authorize agentId projectId .reveal = true) := by
      split at ha'
      · rename_i hauth
        rw [hreveal _ rfl] at hauth
        exact ⟨ha', fun _ => hauth⟩
      · obtain ⟨hm, hp⟩ := mem_denyApprovals ha' ho
        refine ⟨hm, fun hpair => ?_⟩
        simp only [Prod.mk.injEq] at hpair
        simp [hpair.1, hpair.2] at hp
    obtain ⟨h1, h2⟩ := hs.backed a hback.1 ho
    refine ⟨h1, ?_⟩
    rw [hreveal _ rfl]
    by_cases hpair : (a.agentId, a.projectId) = (agentId, projectId)
    · have := hback.2 hpair
      simp only [Prod.mk.injEq] at hpair
      rw [hpair.1, hpair.2]
      exact this
    · have := hother _ _ hpair
      unfold authorize at h2 ⊢
      rw [this]
      exact h2
  · have : ((denyPairApprovalsIfRevealLost agentId projectId
        (revokeUncoveredLeases agentId projectId now { d with grants })).approvals.map (·.id)).Nodup := by
      unfold denyPairApprovalsIfRevealLost
      split
      · exact hs.ids
      · rw [map_id_denyApprovals]
        exact hs.ids
    rw [heq] at this
    exact this

/-- A change of a grant opens nothing. -/
theorem settleGrant_from {d d1 : VaultDocument} {agentId projectId : String} (now : OffsetDateTime)
    (hc : GrantChange d d1 agentId projectId) : LeasesFrom d (settleGrant agentId projectId now d1) ∧
      ApprovalsFrom d (settleGrant agentId projectId now d1) := by
  obtain ⟨⟨grants, rfl⟩, -⟩ := hc
  unfold settleGrant denyPairApprovalsIfRevealLost
  split
  · exact ⟨leasesFrom_revokeLeases _ _ _, ApprovalsFrom.refl _⟩
  · exact ⟨leasesFrom_revokeLeases _ _ _, approvalsFrom_denyApprovals _ _⟩

/-! ## Every mutation -/

theorem sweepAt_from (full : Bool) (d : VaultDocument) (now : OffsetDateTime) :
    LeasesFrom d (sweepAt full d now) ∧ ApprovalsFrom d (sweepAt full d now) :=
  ⟨fun l hl _ => (sweepAt_sub full d now).1 l hl, fun a ha _ => (sweepAt_sub full d now).2 a ha⟩

theorem sweepAt_authority (full : Bool) (d : VaultDocument) (now : OffsetDateTime) :
    (sweepAt full d now).agents = d.agents ∧ (sweepAt full d now).grants = d.grants := by
  unfold sweepAt
  split <;> exact ⟨rfl, rfl⟩

theorem checkLeaseRevoke_from {doc d : VaultDocument} {agentId : Option String} {leaseId : String}
    {now : OffsetDateTime} (h : checkLeaseRevoke doc agentId leaseId now = .ok d) : LeasesFrom doc d := by
  obtain ⟨pos, rfl⟩ := checkLeaseRevoke_eq_ok h
  refine leasesFrom_modify fun l hl => ?_
  cases hr : l.revokedAt <;> simp [hr] at hl

/-- A lease that was checked and minted is covered. -/
theorem lease_created_sane [Crypto] {doc d : VaultDocument} (hs : doc.Sane)
    {agentId project projectId credential : String} {ops : List Op} {ttlSecs : Nat} {now : OffsetDateTime} {l : Lease}
    (h : checkLeaseCreate doc agentId project ops ttlSecs now = .ok (d, projectId))
    (hl : l.MintedFor credential agentId projectId ops ttlSecs now) : ({ d with leases := d.leases ++ [l] }).Sane := by
  obtain ⟨p, -, rfl, hact, hne, hops, rfl⟩ := checkLeaseCreate_eq_ok h
  set full := decide (MAX_LEASES ≤ doc.leases.length)
  have hd := sweepAt_sane hs full now
  obtain ⟨hagents, hgrants⟩ := sweepAt_authority full doc now
  refine ⟨fun x hx hr => ?_, fun a ha ho => ?_, hd.ids⟩
  · rcases List.mem_append.mp hx with hx | hx
    · obtain ⟨h1, h2, h3⟩ := hd.covered x hx hr
      exact ⟨h1, h2, h3⟩
    · obtain rfl := List.mem_singleton.mp hx
      refine ⟨?_, by rw [hl.ops]; exact hne, fun o ho => ?_⟩
      · rw [hl.agentId]
        simpa only [agentActive, hagents] using hact
      · rw [hl.ops] at ho
        rw [hl.agentId, hl.projectId]
        have := hops o ho
        simpa only [grantOps, activeGrant, hgrants] using this
  · obtain ⟨h1, h2⟩ := hd.backed a ha ho
    exact ⟨h1, h2⟩

/-- An approval that was checked and minted is backed. -/
theorem approval_requested_sane {doc d : VaultDocument} (hs : doc.Sane) {agentId project projectId key id : String}
    {now : OffsetDateTime} (h : checkApprovalRequest doc agentId project key now = .ok (d, projectId))
    (hfree : ∀ b ∈ d.approvals, b.id ≠ id) :
    ({ d with approvals := d.approvals ++ [Approval.new id agentId projectId key now] }).Sane := by
  obtain ⟨p, -, rfl, hact, hauth, rfl⟩ := checkApprovalRequest_eq_ok h
  set full := decide (MAX_APPROVALS ≤ doc.approvals.length)
  have hd := sweepAt_sane hs full now
  obtain ⟨hagents, hgrants⟩ := sweepAt_authority full doc now
  refine ⟨fun x hx hr => ?_, fun a ha ho => ?_, ?_⟩
  · obtain ⟨h1, h2, h3⟩ := hd.covered x hx hr
    exact ⟨h1, h2, h3⟩
  · rcases List.mem_append.mp ha with ha | ha
    · obtain ⟨h1, h2⟩ := hd.backed a ha ho
      exact ⟨h1, h2⟩
    · obtain rfl := List.mem_singleton.mp ha
      refine ⟨?_, ?_⟩
      · simpa only [Approval.new, agentActive, hagents] using hact
      · simpa only [Approval.new, authorize, activeGrant, hgrants] using hauth
  · rw [List.map_append, List.nodup_append]
    refine ⟨hd.ids, List.pairwise_singleton _ _, fun i hi j hj => ?_⟩
    obtain ⟨b, hb, rfl⟩ := List.mem_map.mp hi
    obtain rfl := List.mem_singleton.mp hj
    exact hfree b hb

/-- Changing the state of an approval in its place, without opening one that was closed. -/
theorem setApproval_sane {d : VaultDocument} (hs : d.Sane) {pos : Nat} {a a' : Approval}
    (ha : d.approvals[pos]? = some a)
    (hid : a'.id = a.id) (hagent : a'.agentId = a.agentId) (hproject : a'.projectId = a.projectId)
    (ho : a'.status.open_ = true → a.status.open_ = true) : ({ d with approvals := d.approvals.set pos a' }).Sane := by
  refine ⟨fun x hx hr => ?_, fun x hx hxo => ?_, ?_⟩
  · obtain ⟨h1, h2, h3⟩ := hs.covered x hx hr
    exact ⟨h1, h2, h3⟩
  · rcases mem_set hx with rfl | hx
    · obtain ⟨h1, h2⟩ := hs.backed a (List.mem_of_getElem? ha) (ho hxo)
      exact ⟨by rw [hagent]; exact h1, by rw [hagent, hproject]; exact h2⟩
    · obtain ⟨h1, h2⟩ := hs.backed x hx hxo
      exact ⟨h1, h2⟩
  · have hids : (d.approvals.set pos a').map (·.id) = d.approvals.map (·.id) := by
      rw [List.map_set, hid]
      obtain ⟨hpos, rfl⟩ := List.getElem?_eq_some_iff.mp ha
      exact @List.set_getElem_self _ (d.approvals.map (·.id)) _ (by simpa using hpos) ▸ by simp
    change ((d.approvals.set pos a').map (·.id)).Nodup
    rw [hids]
    exact hs.ids

/-- The approval approved at a time. -/
def Approval.approvedAtTime (a : Approval) (now : OffsetDateTime) : Approval :=
  { a with status := .approved, approvedAt := some now, claimExpiresAt := some (now + seconds APPROVAL_CLAIM_SECS) }

section

variable [Crypto] {α : Type}

/-- A mutation keeps the document sane. -/
theorem Mutation.Effect.sane {m : Mutation α} {now : OffsetDateTime} {doc doc' : VaultDocument} {ans : α}
    (h : m.Effect now doc doc' ans) (hs : doc.Sane) : doc'.Sane := by
  cases m with
  | projectAdd | projectPathAdd | projectPathRemove | projectRemove =>
    obtain ⟨_, rfl⟩ := h
    exact hs.of_sub (LeasesFrom.refl doc) (ApprovalsFrom.refl doc) (fun _ h => h) rfl hs.ids
  | secretSet | secretDelete =>
    obtain ⟨_, rfl⟩ := h
    exact hs.of_sub (LeasesFrom.refl doc) (ApprovalsFrom.refl doc) (fun _ h => h) rfl hs.ids
  | agentAdd =>
    obtain ⟨_, rfl⟩ := h
    exact hs.of_sub (LeasesFrom.refl doc) (ApprovalsFrom.refl doc) (fun _ h => doc.agentActive_append _ h) rfl hs.ids
  | agentRevoke => exact agentRevoked_sane hs h
  | grantAdd =>
    obtain ⟨agent, project, d1, -, -, hc, rfl⟩ := doGrantAdd_eq_ok h
    exact settleGrant_sane hs now hc
  | grantRevoke =>
    obtain ⟨agent, project, d1, -, -, hc, rfl⟩ := doGrantRevoke_eq_ok h
    exact settleGrant_sane hs now hc
  | leaseCreate =>
    obtain ⟨d, projectId, hcheck, rfl, hl, -⟩ := h
    exact lease_created_sane hs hcheck hl
  | leaseRevoke =>
    have hfrom := checkLeaseRevoke_from h
    obtain ⟨pos, rfl⟩ := checkLeaseRevoke_eq_ok h
    exact hs.of_sub hfrom (ApprovalsFrom.refl doc) (fun _ h => h) rfl hs.ids
  | approvalRequest =>
    obtain ⟨d, projectId, hcheck, rfl, ⟨id, rfl⟩, hfree⟩ := h
    exact approval_requested_sane hs hcheck hfree
  | approvalDecide _ approvalId approve =>
    obtain ⟨pos, a, -, ha, -, -, hst, -, rfl⟩ := checkApprovalDecide_eq_ok h
    refine setApproval_sane hs ha ?_ ?_ ?_ fun _ => by rw [hst]; rfl
    · split <;> rfl
    · split <;> rfl
    · split <;> rfl
  | revealClaim =>
    obtain ⟨p, pos, a, s, -, -, ha, -, -, -, -, -, -, -, -, -, -, rfl⟩ := claim_eq_ok h
    exact setApproval_sane hs ha rfl rfl rfl fun ho => by cases ho

/-- The mutation mints the lease. -/
def Mutation.Mints : Mutation α → α → Lease → Prop
  | .leaseCreate .., (lease, _), l => l = lease
  | _, _, _ => False

/-- The mutation asks for the approval. -/
def Mutation.Requests : Mutation α → α → Approval → Prop
  | .approvalRequest .., a, x => x = a
  | _, _, _ => False

/-- The mutation approves a pending approval of the document, which becomes `x`. -/
def Mutation.Approves : Mutation α → OffsetDateTime → VaultDocument → Approval → Prop
  | .approvalDecide _ approvalId approve, now, doc, x =>
    approve = true ∧ ∃ y ∈ doc.approvals, y.id = approvalId ∧ y.status = .pending ∧ now < y.pendingExpiresAt ∧
      x = y.approvedAtTime now
  | _, _, _, _ => False

/-- A lease that is not revoked was there before, or was minted. -/
theorem Mutation.Effect.leases {m : Mutation α} {now : OffsetDateTime} {doc doc' : VaultDocument} {ans : α}
    (h : m.Effect now doc doc' ans) {l : Lease} (hl : l ∈ doc'.leases) (hr : l.revokedAt = none) :
    l ∈ doc.leases ∨ m.Mints ans l := by
  cases m with
  | projectAdd | projectPathAdd | projectPathRemove | projectRemove => obtain ⟨_, rfl⟩ := h; exact Or.inl hl
  | secretSet | secretDelete => obtain ⟨_, rfl⟩ := h; exact Or.inl hl
  | agentAdd => obtain ⟨_, rfl⟩ := h; exact Or.inl hl
  | agentRevoke =>
    obtain ⟨idx, a, -, rfl⟩ := agentRevoked_eq_ok h
    exact Or.inl (@mem_revokeLeases (fun l => l.agentId == a.id) _ _ _ hl hr).1
  | grantAdd =>
    obtain ⟨agent, project, d1, -, -, hc, rfl⟩ := doGrantAdd_eq_ok h
    exact Or.inl ((settleGrant_from now hc).1 l hl hr)
  | grantRevoke =>
    obtain ⟨agent, project, d1, -, -, hc, rfl⟩ := doGrantRevoke_eq_ok h
    exact Or.inl ((settleGrant_from now hc).1 l hl hr)
  | leaseCreate =>
    obtain ⟨d, projectId, hcheck, rfl, -, -⟩ := h
    obtain ⟨p, -, -, -, -, -, rfl⟩ := checkLeaseCreate_eq_ok hcheck
    rcases List.mem_append.mp hl with hl | hl
    · exact Or.inl ((sweepAt_from _ doc now).1 l hl hr)
    · exact Or.inr (List.mem_singleton.mp hl)
  | leaseRevoke => exact Or.inl (checkLeaseRevoke_from h l hl hr)
  | approvalRequest =>
    obtain ⟨d, projectId, hcheck, rfl, -, -⟩ := h
    obtain ⟨p, -, -, -, -, rfl⟩ := checkApprovalRequest_eq_ok hcheck
    exact Or.inl ((sweepAt_from _ doc now).1 l hl hr)
  | approvalDecide =>
    obtain ⟨pos, a, -, -, -, -, -, -, rfl⟩ := checkApprovalDecide_eq_ok h
    exact Or.inl hl
  | revealClaim =>
    obtain ⟨p, pos, a, s, -, -, -, -, -, -, -, -, -, -, -, -, -, rfl⟩ := claim_eq_ok h
    exact Or.inl hl

/-- An open approval was there before, was asked for, or was pending before and is approved now. -/
theorem Mutation.Effect.approvals {m : Mutation α} {now : OffsetDateTime} {doc doc' : VaultDocument} {ans : α}
    (h : m.Effect now doc doc' ans) {x : Approval} (hx : x ∈ doc'.approvals) (ho : x.status.open_ = true) :
    x ∈ doc.approvals ∨ m.Requests ans x ∨ m.Approves now doc x := by
  cases m with
  | projectAdd | projectPathAdd | projectPathRemove | projectRemove => obtain ⟨_, rfl⟩ := h; exact Or.inl hx
  | secretSet | secretDelete => obtain ⟨_, rfl⟩ := h; exact Or.inl hx
  | agentAdd => obtain ⟨_, rfl⟩ := h; exact Or.inl hx
  | agentRevoke =>
    obtain ⟨idx, a, -, rfl⟩ := agentRevoked_eq_ok h
    exact Or.inl (@mem_denyApprovals (fun x => x.agentId == a.id) _ _ hx ho).1
  | grantAdd =>
    obtain ⟨agent, project, d1, -, -, hc, rfl⟩ := doGrantAdd_eq_ok h
    exact Or.inl ((settleGrant_from now hc).2 x hx ho)
  | grantRevoke =>
    obtain ⟨agent, project, d1, -, -, hc, rfl⟩ := doGrantRevoke_eq_ok h
    exact Or.inl ((settleGrant_from now hc).2 x hx ho)
  | leaseCreate =>
    obtain ⟨d, projectId, hcheck, rfl, -, -⟩ := h
    obtain ⟨p, -, -, -, -, -, rfl⟩ := checkLeaseCreate_eq_ok hcheck
    exact Or.inl ((sweepAt_from _ doc now).2 x hx ho)
  | leaseRevoke =>
    obtain ⟨pos, rfl⟩ := checkLeaseRevoke_eq_ok h
    exact Or.inl hx
  | approvalRequest =>
    obtain ⟨d, projectId, hcheck, rfl, -, -⟩ := h
    obtain ⟨p, -, -, -, -, rfl⟩ := checkApprovalRequest_eq_ok hcheck
    rcases List.mem_append.mp hx with hx | hx
    · exact Or.inl ((sweepAt_from _ doc now).2 x hx ho)
    · exact Or.inr (Or.inl (List.mem_singleton.mp hx))
  | approvalDecide _ approvalId approve =>
    obtain ⟨pos, a, -, -, hmem, hid, hst, hlt, rfl⟩ := checkApprovalDecide_eq_ok h
    rcases mem_set hx with rfl | hx
    · cases approve with
      | true => exact Or.inr (Or.inr ⟨rfl, a, hmem, hid, hst, hlt, rfl⟩)
      | false => cases ho
    · exact Or.inl hx
  | revealClaim =>
    obtain ⟨p, pos, a, s, -, -, -, -, -, -, -, -, -, -, -, -, -, rfl⟩ := claim_eq_ok h
    rcases mem_set hx with rfl | hx
    · cases ho
    · exact Or.inl hx

/-! ## The verdict on a covered document -/

/-- On a sane document the grant of an unrevoked lease covers it. -/
theorem leaseVerdict_covered {doc : VaultDocument} (hs : doc.Sane) (agentId project : String) (op : Op)
    (credential : Option String) (now : OffsetDateTime) (leaseId : String) :
    leaseVerdict doc agentId project op credential now ≠ .invalidate leaseId := by
  intro h
  unfold leaseVerdict at h
  split at h; · cases h
  rename_i p _
  split at h; · cases h
  split at h
  · split at h <;> cases h
  · split at h; · cases h
    rename_i lease hl
    split at h; · cases h
    rename_i hpair
    split at h; · cases h
    rename_i hlive
    simp only [not_or, ne_eq, not_not, Option.not_isSome_iff_eq_none] at hpair hlive
    obtain ⟨g, hg, hops⟩ := (hs.covered lease (List.mem_of_find?_eq_some hl) hlive.1).grant
    rw [hpair.1, hpair.2] at hg
    simp only [hg] at h
    rw [if_neg (by simpa using hops)] at h
    split at h <;> cases h

/-- What an allowed request with a credential rests on. -/
theorem leaseVerdict_allow {doc : VaultDocument} {agentId project credential actor : String} {op : Op}
    {now : OffsetDateTime} (h : leaseVerdict doc agentId project op (some credential) now = .allow actor) :
    ∃ p l g, doc.projectByName project = some p ∧ l ∈ doc.leases ∧ l.credentialHash = (tokenDigest credential).1 ∧
      l.agentId = agentId ∧ l.projectId = p.id ∧ l.revokedAt = none ∧ now < l.expiresAt ∧ op ∈ l.ops ∧
      doc.agentActive agentId = true ∧ doc.activeGrant agentId p.id = some g ∧ (∀ o ∈ l.ops, o ∈ g.ops) ∧
      actor = "lease:" ++ l.id := by
  unfold leaseVerdict at h
  split at h; · cases h
  rename_i p hp
  split at h; · cases h
  rename_i hact
  dsimp only at h
  split at h; · cases h
  rename_i l hl
  split at h; · cases h
  rename_i hpair
  split at h; · cases h
  rename_i hlive
  split at h; · cases h
  rename_i g hg
  split at h; · cases h
  rename_i hcov
  split at h; · cases h
  rename_i hop
  cases h
  simp only [not_or, ne_eq, not_not, Option.not_isSome_iff_eq_none, Int.not_le] at hpair hlive
  have hcred := List.find?_some hl
  refine ⟨p, l, g, hp, List.mem_of_find?_eq_some hl, by simpa using hcred, hpair.1, hpair.2, hlive.1, hlive.2,
    by simpa using hop, by simpa using hact, hg, by simpa using hcov, rfl⟩

end

end SecretsVault
