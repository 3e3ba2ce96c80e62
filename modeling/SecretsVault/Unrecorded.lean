import SecretsVault.ReferenceRuns
import SecretsVault.WellFormed

/-!
# Changes without an entry

A commit of lifecycle priority goes on when its entry cannot be written. What it stores then takes authority away from
what was stored, and nothing else: `VaultDocument.Reduces d d'`.

- `Attempt.Made.reduces`: a document that may be committed without an entry takes away from the one in memory.
- `unrecorded_reduces`: so does what a commit without an entry stores, in a run whose recorded commits are stored once
  they are sealed. `unrecorded_adds_agent`: not in every run.
-/

namespace SecretsVault

open Lib Lib.Prog Lib.Copies Host VaultDocument

/-- The second document grants no more than the first, and is about the same secrets and the same checkpoint. -/
structure VaultDocument.Reduces (d d' : VaultDocument) : Prop where
  authorize : ∀ agentId projectId op, d'.authorize agentId projectId op = true → d.authorize agentId projectId op = true
  active : ∀ agentId, d'.agentActive agentId = true → d.agentActive agentId = true
  leases : LeasesFrom d d'
  approvals : ApprovalsFrom d d'
  projects : d'.projects = d.projects
  secrets : d'.secrets = d.secrets
  auditHead : d'.auditHead = d.auditHead

namespace VaultDocument

variable {d d' d'' : VaultDocument}

theorem Reduces.refl (d : VaultDocument) : d.Reduces d :=
  ⟨fun _ _ _ h => h, fun _ h => h, LeasesFrom.refl d, ApprovalsFrom.refl d, rfl, rfl, rfl⟩

theorem Reduces.trans (h : d.Reduces d') (h' : d'.Reduces d'') : d.Reduces d'' :=
  ⟨fun a p o ho => h.authorize a p o (h'.authorize a p o ho), fun a ha => h.active a (h'.active a ha),
    h.leases.trans h'.leases, h.approvals.trans h'.approvals, h'.projects.trans h.projects, h'.secrets.trans h.secrets,
    h'.auditHead.trans h.auditHead⟩

instance : IsPreorder VaultDocument Reduces := { refl := Reduces.refl, trans := fun _ _ _ => Reduces.trans }

/-- Leases and approvals that come from the document, and nothing else. -/
theorem Reduces.of_lists {leases : List Lease} {approvals : List Approval}
    (hl : LeasesFrom d { d with leases, approvals }) (ha : ApprovalsFrom d { d with leases, approvals }) :
    d.Reduces { d with leases, approvals } :=
  ⟨fun _ _ _ h => h, fun _ h => h, hl, ha, rfl, rfl, rfl⟩

theorem purgeTerminal_reduces (d : VaultDocument) (now : OffsetDateTime) : d.Reduces (purgeTerminal d now) :=
  .of_lists (fun l hl _ => (purgeTerminal_sub d now).1 l hl) fun a ha _ => (purgeTerminal_sub d now).2 a ha

theorem lockAll_reduces (d : VaultDocument) (now : OffsetDateTime) : d.Reduces (lockAll now d) :=
  .of_lists (leasesFrom_revokeLeases _ now d) fun _ ha ho => (@mem_denyApprovals (fun _ => true) _ _ ha ho).1

theorem checkLeaseRevoke_reduces {agentId : Option String} {leaseId : String} {now : OffsetDateTime}
    (h : checkLeaseRevoke d agentId leaseId now = .ok d') : d.Reduces d' := by
  have hfrom := checkLeaseRevoke_from h
  obtain ⟨pos, rfl⟩ := checkLeaseRevoke_eq_ok h
  exact .of_lists hfrom (ApprovalsFrom.refl d)

/-- A revoked agent is active no more, and no other becomes active. -/
theorem agentRevoked_reduces {name : String} {now : OffsetDateTime} (h : agentRevoked d name now = .ok d') :
    d.Reduces d' := by
  obtain ⟨idx, a, -, rfl⟩ := agentRevoked_eq_ok h
  refine ⟨fun _ _ _ h => h, fun id hid => ?_, fun l hl hr => ?_, fun x hx ho => ?_, rfl, rfl, rfl⟩
  · obtain ⟨x, hx, hq⟩ := List.any_eq_true.mp hid
    rcases mem_set hx with rfl | hx
    · simp at hq
    · exact List.any_eq_true.mpr ⟨x, hx, hq⟩
  · exact (@mem_revokeLeases (fun l => l.agentId == a.id) _ _ _ hl hr).1
  · exact (@mem_denyApprovals (fun x => x.agentId == a.id) _ _ hx ho).1

/-- A change of a grant that gives the pair nothing new. -/
theorem settleGrant_reduces {agentId projectId : String} (now : OffsetDateTime)
    (hc : GrantChange d d' agentId projectId)
    (hauth : ∀ op, d'.authorize agentId projectId op = true → d.authorize agentId projectId op = true) :
    d.Reduces (settleGrant agentId projectId now d') := by
  obtain ⟨hleases, happrovals⟩ := settleGrant_from now hc
  obtain ⟨⟨grants, rfl⟩, hother⟩ := hc
  obtain ⟨approvals, heq⟩ := denyPair_eq agentId projectId (revokeUncoveredLeases agentId projectId now
    { d with grants })
  rw [settleGrant, heq] at hleases happrovals ⊢
  refine ⟨fun a p op h => ?_, fun _ h => h, hleases, happrovals, rfl, rfl, rfl⟩
  by_cases hpair : (a, p) = (agentId, projectId)
  · cases hpair
    exact hauth op h
  · have := hother a p hpair
    unfold authorize at h ⊢
    rw [← this]
    exact h

/-! ## The grant of a pair after a change -/

/-- The first element that is found, changed in place, is found again if it still qualifies. -/
theorem find?_modify_found {β : Type} {q : β → Bool} {f : β → β} {l : List β} {i : Nat} (hi : l.findIdx? q = some i)
    (hf : ∀ x, q x = true → q (f x) = true) : (l.modify i f).find? q = (l.find? q).map f := by
  induction l generalizing i with
  | nil => simp at hi
  | cons a l ih =>
    rw [List.findIdx?_cons] at hi
    split at hi
    · rename_i ha
      cases hi
      simp [ha, hf a ha]
    · rename_i ha
      obtain ⟨j, hj, rfl⟩ := Option.map_eq_some_iff.mp hi
      simp only [List.modify_succ_cons, List.find?_cons, ha]
      exact ih hj

/-- Where at most one element qualifies, none does once it is changed so that it does not. -/
theorem find?_modify_gone {β : Type} {q : β → Bool} {f : β → β} {l : List β} {i : Nat} (hi : l.findIdx? q = some i)
    (hf : ∀ x, q (f x) = false) (hl : l.Pairwise fun x y => q x = true → q y = false) :
    (l.modify i f).find? q = none := by
  induction l generalizing i with
  | nil => simp at hi
  | cons a l ih =>
    obtain ⟨ha', hl⟩ := List.pairwise_cons.mp hl
    rw [List.findIdx?_cons] at hi
    split at hi
    · rename_i ha
      cases hi
      refine List.find?_eq_none.mpr fun x hx => ?_
      rcases List.mem_cons.mp hx with rfl | hx
      · simp [hf a]
      · simp [ha' x hx ha]
    · rename_i ha
      obtain ⟨j, hj, rfl⟩ := Option.map_eq_some_iff.mp hi
      simp only [List.modify_succ_cons, List.find?_cons, ha]
      exact ih hj hl

/-- A grant that only narrows gives the agent nothing new. -/
theorem doGrantAdd_reduces {agentName projectName : String} {ops : List Op} {now : OffsetDateTime}
    (hred : isReduction d agentName projectName ops = true) (h : doGrantAdd d agentName projectName ops now = .ok d') :
    d.Reduces d' := by
  unfold isReduction at hred
  unfold doGrantAdd at h
  split at h; · cases h
  split at h; · cases h
  rename_i agent hagent
  split at h; · cases h
  rename_i project hproject
  simp only [hagent, hproject] at hred
  split at hred
  · rename_i before hbefore
    have hsome : (d.grants.findIdx? (isActiveGrant agent.id project.id)).isSome := by
      rw [List.findIdx?_isSome, List.any_eq_true]
      exact ⟨before, List.mem_of_find?_eq_some hbefore, List.find?_some hbefore⟩
    obtain ⟨idx, hidx⟩ := Option.isSome_iff_exists.mp hsome
    simp only [hidx] at h
    cases h
    refine settleGrant_reduces now (grantChange_modify hidx fun g => ⟨rfl, rfl⟩) fun op hop => ?_
    have hfind : (d.grants.modify idx fun g => { g with ops }).find? (isActiveGrant agent.id project.id) =
        some { before with ops } := by
      rw [find?_modify_found (f := fun g => { g with ops }) hidx fun g hg => hg,
        show d.grants.find? _ = some before from hbefore]
      rfl
    rw [authorize, activeGrant, hfind] at hop
    rw [authorize, hbefore]
    rw [List.all_eq_true] at hred
    exact hred op (by simpa using hop)
  · cases hred

/-- Without its grant an agent has nothing on the project: there is no second one in force. -/
theorem doGrantRevoke_reduces (hw : d.WellFormed) {agentName projectName : String} {now : OffsetDateTime}
    (h : doGrantRevoke d agentName projectName now = .ok d') : d.Reduces d' := by
  unfold doGrantRevoke at h
  split at h; · cases h
  rename_i agent hagent
  split at h; · cases h
  rename_i project hproject
  split at h; · cases h
  rename_i idx hidx
  cases h
  refine settleGrant_reduces now (grantChange_modify hidx fun g => ⟨rfl, rfl⟩) fun op hop => ?_
  have hgone : (d.grants.modify idx fun g => { g with revokedAt := some now }).find?
      (isActiveGrant agent.id project.id) = none := by
    refine find?_modify_gone hidx (fun g => by simp [isActiveGrant]) (hw.grants.active.imp fun {g g'} hne hg => ?_)
    simp only [isActiveGrant, Bool.and_eq_true, beq_iff_eq, Option.isNone_iff_eq_none] at hg
    by_contra hg'
    simp only [isActiveGrant, Bool.not_eq_false, Bool.and_eq_true, beq_iff_eq, Option.isNone_iff_eq_none] at hg'
    exact hne hg.2 hg'.2 (by rw [hg.1.1, hg.1.2, hg'.1.1, hg'.1.2])
  rw [authorize, activeGrant, hgone] at hop
  cases hop

end VaultDocument

/-! ## Commits without an entry -/

section

variable [Crypto] [VaultJson] [AuditJson]

omit [VaultJson] in
/-- Only a lifecycle commit goes on without its entry. -/
theorem recordCommit_none {record : Record} {priority : Priority} {s t : Sys}
    (h : (recordCommit record priority).run s = (.ok none, t)) : priority = .lifecycle := by
  by_contra hp
  have hp : priority = .ordinary := by
    cases priority with
    | ordinary => rfl
    | lifecycle => exact (hp rfl).elim
  rw [recordCommit, run_get_bind] at h
  obtain ⟨r, s1, -, h⟩ := bind_eq_ok h
  split at h
  · rw [if_pos hp] at h
    cases h
  · obtain ⟨r, s2, -, h⟩ := bind_eq_ok h
    split at h
    · cases h
    · rw [if_pos hp] at h
      cases h

omit [VaultJson] [AuditJson] in
/-- What may be committed without an entry takes away from the document in memory. -/
theorem Attempt.Made.reduces {u : Unlocked} {h : Host} {a : Attempt} (hm : a.Made u h) (hw : u.doc.WellFormed)
    (hp : a.priority = .lifecycle) : u.doc.Reduces a.doc := by
  cases hm with
  | lock => exact lockAll_reduces _ _
  | invalidate => cases hp
  | @mutation α state doc m ans h' hd =>
    have heff := Mutation.decide_effect hd
    cases m with
    | agentRevoke => exact agentRevoked_reduces heff
    | grantAdd _ agentName projectName ops =>
      refine doGrantAdd_reduces ?_ heff
      by_contra hred
      simp [Mutation.priority, hred] at hp
    | grantRevoke => exact doGrantRevoke_reduces hw heff
    | leaseRevoke => exact checkLeaseRevoke_reduces heff
    | _ => cases hp

/-- A commit whose entry was written is stored once it is sealed. -/
def Attempt.StoresRecorded (a : Attempt) : Prop :=
  ∀ head t, (recordCommit a.record a.priority).run a.state = (.ok (some head), t) →
    a.state.Fits (a.doc.withHead (some head))

/-- A document that is stored after its commit was made of the one in memory, and can be read back. -/
theorem Vault.View.committed [LawfulCrypto] [LawfulVaultJson] {v : Vault} {s t : Sys} {c : Copies VaultDocument}
    (hv : v.View s c) {doc : VaultDocument} {record : Record} {priority : Priority}
    (h : (commitWith doc record priority).run s = (.ok (), t)) :
    ∃ head t' e, (recordCommit record priority).run s = (.ok head, t') ∧ t.host.vaultFile = some (Envelope.toBytes e) ∧
      v.Seals (doc.withHead head) e ∧ e.validatePersistable = .ok () := by
  cases commitWith_ends h with
  | refused ho => exact (ho rfl).elim
  | @landed u head bytes nonce _ _ _ _ _ hu hrec hb hval _ =>
    have hseal := hv.sealed.reseal hb nonce
    rw [← (hv.keys u hu).1] at hseal
    exact ⟨head, _, _, hrec, rfl, hseal, hval⟩

omit [AuditJson] in
/-- A file that can be read back has one document. -/
theorem Vault.Stored.inj [LawfulVaultJson] {v : Vault} {h : Host} {d d' : VaultDocument} {e : Envelope}
    (hd : v.Stored h d)
    (hd' : v.Stored h d') (hf : h.vaultFile = some e.toBytes) (hw : e.Wf) (hval : e.validatePersistable = .ok ()) :
    d = d' := by
  have heq : ∀ {d e'}, h.vaultFile = some (Envelope.toBytes e') → v.Seals d e' → e' = e := by
    intro d e' hf' hs
    rw [hf, Option.some.injEq] at hf'
    exact (Envelope.parse_toBytes_inj hs.wf (by rw [← hf']; exact Envelope.parse_toBytes hw hval)).symm
  obtain ⟨e1, hf1, hs1⟩ := hd
  obtain ⟨e2, hf2, hs2⟩ := hd'
  obtain rfl := heq hf1 hs1
  obtain rfl := heq hf2 hs2
  exact hs1.inj hs2

variable [LawfulCrypto] [LawfulVaultJson] {v : Vault} {w : World} {st : Step} {c c' : Copies VaultDocument}

omit [LawfulCrypto] [LawfulVaultJson] in
/-- A turn whose recorded commits are stored keeps what is served below what is stored. -/
theorem World.Turn.reduces (h : v.Holds w c) (hst : ∀ a, st.Attempts w a → a.StoresRecorded) (ht : w.Turn st c c')
    (hI : All WellFormed c ∧ Served (c.stored.Reduces) c) : All WellFormed c' ∧ Served (c'.stored.Reduces) c' := by
  refine ⟨kept_wellFormed.turn h ht hI.1, ?_⟩
  cases ht with
  | none => exact hI.2
  | @call α call s _ hi hs _ hc =>
    refine hc.above ?_ ?_ hI.2
    · rintro m d ⟨a, head, t, ha, hm, rfl, hrec, hfits⟩
      have hst' := hst a (by rw [Step.Attempts, hi]; exact ⟨s, hs, ha⟩)
      cases head with
      | some head => exact (hfits (hst' head t hrec)).elim
      | none =>
        obtain ⟨u, hu, hmade, h', -, hstate⟩ := ha.made
        rw [hstate, Session.document, show ({ s with host := h' } : Sys).session.unlocked = some u from hu] at hm
        cases hm
        refine hmade.reduces (hI.1.memory _ ?_) (recordCommit_none hrec)
        rw [← (h.view hs).memory, Session.document, hu]
        rfl
    · rintro m m' ⟨-, rfl⟩
      exact purgeTerminal_reduces m _
  | restart => exact ⟨fun _ hm => (by cases hm), Reduces.refl _⟩

/-- In every run of a created vault whose recorded commits are stored once they are sealed, a commit that replaces the
stored document without an entry takes authority away from it, and nothing else. -/
theorem unrecorded_reduces {passphrase : Bytes} {idleTimeout : Nat} {h h' : Host} {s : Session}
    (hr : (Session.create passphrase idleTimeout).run h = (.ok s, h')) :
    ∃ u, s.unlocked = some u ∧ ∀ (run : List Step) (st : Step) (a : Attempt) (t t' : Sys),
      World.Along (fun w st => st.Honest ⟨s.envelope.header, u.keys⟩ w ∧ ∀ a, st.Attempts w a → a.StoresRecorded)
        ⟨some s, h'⟩ run →
      st.Attempts (World.after ⟨some s, h'⟩ run) a →
      (recordCommit a.record a.priority).run a.state = (.ok none, t) →
      (commitWith a.doc a.record a.priority).run a.state = (.ok (), t') →
      ∃ d d', Vault.Stored ⟨s.envelope.header, u.keys⟩ (World.after ⟨some s, h'⟩ run).host d ∧
        Vault.Stored ⟨s.envelope.header, u.keys⟩ t'.host d' ∧ d.Reduces d' := by
  obtain ⟨u, w, entry, hc⟩ := create_eq_ok hr
  refine ⟨u, hc.unlocked, fun run st a t t' hrun ha hrec hcommit => ?_⟩
  have hdoc : u.doc.WellFormed := by
    rw [hc.doc]
    exact WellFormed.withHead (wellFormed_new _) (some _)
  have hstart : All WellFormed ⟨some u.doc, u.doc, u.doc⟩ ∧ Served u.doc.Reduces ⟨some u.doc, u.doc, u.doc⟩ :=
    ⟨⟨⟨fun _ hm => by cases hm; exact hdoc, hdoc⟩, hdoc⟩, fun _ hm => by cases hm; exact Reduces.refl _, Reduces.refl _⟩
  obtain ⟨c, hholds, hwf, hserved⟩ := hc.holds.along (fun h hst ht hI => ht.reduces h hst hI) hrun hstart
  rcases st with ⟨conditions, call | _⟩
  · obtain ⟨s1, hs1, ha⟩ := ha
    have hview := hholds.view hs1
    obtain ⟨u1, hu1, hmade, h1, hquiet, hstate⟩ := ha.made
    have hmem := hview.document_eq hu1
    obtain ⟨rng, syscalls, hh1⟩ := hquiet.eq
    have hview' : Vault.View ⟨s.envelope.header, u.keys⟩ a.state c := by
      rw [hstate, hh1]
      exact hview.congr rfl rfl rfl
    obtain ⟨head, t1, e, hrec', hf, hseal, -⟩ := hview'.committed hcommit
    rw [hrec] at hrec'
    cases hrec'
    exact ⟨c.stored, a.doc, hholds.stored, ⟨e, hf, hseal⟩,
      (hserved.memory _ hmem).trans (hmade.reduces (hwf.memory _ hmem) (recordCommit_none hrec))⟩
  · exact ha.elim

end

namespace Reference

/-- A lock whose entry cannot be written is committed all the same. -/
theorem Stands.lock_unrecorded {v : Vault} {n : Nat} {w : World} {d se st : VaultDocument}
    (h : Stands v ⟨some d, se, st⟩ n w) (hn : n < 100) (hd : Compact (lockAll 0 d)) :
    ∃ a t t' memory hst e, (⟨noAppend, .call .lockPersist⟩ : Step).Attempts w a ∧
      (recordCommit a.record a.priority).run a.state = (.ok none, t) ∧
      (commitWith a.doc a.record a.priority).run a.state = (.ok (), t') ∧ v.Stored w.host (st.withHead (some hst)) ∧
      t'.host.vaultFile = some (Envelope.toBytes e) ∧ v.Seals ((lockAll 0 d).withHead (some memory)) e ∧
      e.validatePersistable = .ok () := by
  obtain ⟨s, u, memory, hse, hst, hq⟩ := h.commits noAppend_whole (Option.some_ne_none _)
  obtain ⟨t', t, hrec, hcommit, -⟩ := hq.unrecorded rfl rfl rfl hn brief_lockRecord hd
  obtain ⟨head, t1, e, hrec', hf, hseal, hval⟩ := hq.view.committed hcommit
  rw [hrec] at hrec'
  cases hrec'
  have hdoc : lockAll 0 u.doc = (lockAll 0 d).withHead (some memory) := by rw [hq.finds.doc]; rfl
  exact ⟨⟨_, lockAll 0 u.doc, lockRecord, .lifecycle⟩, t, t', memory, hst, e,
    ⟨_, sys_of_session hq.finds.session _, Or.inr ⟨u, hq.finds.unlocked, rfl⟩⟩, hrec, by rw [hdoc]; exact hcommit,
    hq.view.stored, hf, hseal, hval⟩

end Reference

/-- An agent has a lease, and the vault is locked while no entry can be written: the lease is revoked in the stored
document, and was not before. -/
theorem unrecorded_reduces_lock : ∃ s h' u, ∃ (a : Attempt) (t t' : Sys) (d d' : VaultDocument),
    (Session.create Reference.passphrase 0).run Reference.healthy = (.ok s, h') ∧ s.unlocked = some u ∧
    (⟨Reference.noAppend, .call .lockPersist⟩ : Step).Attempts (World.after ⟨some s, h'⟩ Reference.takeLease) a ∧
    (recordCommit a.record a.priority).run a.state = (.ok none, t) ∧
    (commitWith a.doc a.record a.priority).run a.state = (.ok (), t') ∧
    Vault.Stored ⟨s.envelope.header, u.keys⟩ (World.after ⟨some s, h'⟩ Reference.takeLease).host d ∧
    Vault.Stored ⟨s.envelope.header, u.keys⟩ t'.host d' ∧ d.Reduces d' ∧
    d.leases = [Reference.leased] ∧ d'.leases = [{ Reference.leased with revokedAt := some 0 }] := by
  obtain ⟨s, h', u, hr, hu, -, hstands⟩ := Reference.stands_created
  have hlease := hstands.takeLease
  obtain ⟨a, t, t', memory, hst, e, ha, hrec, hcommit, hs, hf, hseal, hval⟩ :=
    hlease.lock_unrecorded (by omega) Reference.small_lease.2.2.1
  obtain ⟨u', hu', hred⟩ := unrecorded_reduces hr
  rw [hu, Option.some.injEq] at hu'
  subst hu'
  have hstores := hstands.takeLease_stores.mono (Q := fun w st => ∀ a, st.Attempts w a → a.StoresRecorded)
    fun _ _ h a ha head t hrec => h a ha (some head) t hrec
  obtain ⟨d, d', hd, hd', hreduces⟩ := hred Reference.takeLease _ a t t'
    (World.Along.and.mpr ⟨Reference.honest_takeLease, hstores⟩) ha hrec hcommit
  -- the two documents are those that stand
  obtain ⟨e0, d0, hf0, hseal0, hval0, -⟩ := hlease.coheres.files.stored
  obtain rfl := hd.inj hs hf0 hseal0.wf hval0
  obtain rfl := hd'.inj ⟨e, hf, hseal⟩ hf hseal.wf hval
  exact ⟨s, h', u, a, t, t', _, _, hr, hu, ha, hrec, hcommit, hs, ⟨e, hf, hseal⟩, hreduces, rfl, rfl⟩

/-- The save of a new agent fails, and the vault is unlocked again: the sealed document has the agent. A lock whose
entry cannot be written then stores an agent that is active, and was not. -/
theorem unrecorded_adds_agent :
    ∃ s h' u, ∃ (run : List Step) (st : Step) (a : Attempt) (t t' : Sys) (d d' : VaultDocument),
    (Session.create Reference.passphrase 0).run Reference.healthy = (.ok s, h') ∧ s.unlocked = some u ∧
    Vault.HonestRun ⟨s.envelope.header, u.keys⟩ ⟨some s, h'⟩ run ∧ st.Attempts (World.after ⟨some s, h'⟩ run) a ∧
    (recordCommit a.record a.priority).run a.state = (.ok none, t) ∧
    (commitWith a.doc a.record a.priority).run a.state = (.ok (), t') ∧
    Vault.Stored ⟨s.envelope.header, u.keys⟩ (World.after ⟨some s, h'⟩ run).host d ∧
    Vault.Stored ⟨s.envelope.header, u.keys⟩ t'.host d' ∧ ¬d.Reduces d' := by
  obtain ⟨s, h', u, hr, hu, hp, hstands⟩ := Reference.stands_created
  have hcut := hstands.cut (by omega) (Reference.decides_agentAdd _) trivial
    Reference.small_enroll.1.1 Reference.small_enroll.1.2
  have hunlock := hcut.unlock (by omega) hp
  obtain ⟨a, t, t', memory, hst, e, ha, hrec, hcommit, hs, hf, hseal, -⟩ :=
    hunlock.lock_unrecorded (by omega) (by decide +kernel)
  refine ⟨s, h', u, [⟨Reference.noSave, .call (.mutate (.agentAdd "human" "a"))⟩,
    ⟨Reference.conditions, .call (.unlock Reference.passphrase)⟩], _, a, t, t', _, _, hr, hu,
    ⟨Reference.honest_of_mutate, hcut.honest_of_unlock hp, trivial⟩, ha, hrec, hcommit, hs, ⟨e, hf, hseal⟩,
    fun hred => ?_⟩
  have hactive : (lockAll 0 Reference.withAgent).agentActive "0102030405060708" = true := by decide +kernel
  cases (hred.active _ hactive : (VaultDocument.new 0).agentActive "0102030405060708" = true)

end SecretsVault
