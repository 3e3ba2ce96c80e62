import SecretsVault.Lifetimes

/-!
# Leases over a run

A lease is a part of its agent's grant as long as it is not revoked, in every document a session makes. What a request
may do with it is decided by the document at hand; what it took for the lease to be there is a matter of the run.

- `leaseCapability`: the leases that are neither revoked nor past their end.
- `leases_only_attenuate`: an accepted lease is covered, and has been so in every document since it was minted.
- `lease_revived`: it has not when the commit of a lock failed in between.
-/

namespace SecretsVault

open Lib Lib.Prog Lib.Copies Host VaultDocument

section

variable [Crypto] [VaultJson] [AuditJson]

/-- The leases that are neither revoked nor past their end. -/
def leaseCapability : Capability Lease where
  items t d := {l | l ∈ d.leases ∧ l.revokedAt = none ∧ t < l.expiresAt}
  made := Step.MintsLease
  later h _ := fun _ ⟨hl, hr, ht⟩ => ⟨hl, hr, lt_of_le_of_lt h ht⟩
  purge {t t'} h d := by
    ext l
    simp only [purgeTerminal, List.mem_filter, Lease.terminal, Set.mem_ofPred_eq]
    constructor
    · rintro ⟨⟨hl, -⟩, hr, ht⟩
      exact ⟨hl, hr, ht⟩
    · rintro ⟨hl, hr, ht⟩
      have hlt : t < l.expiresAt := lt_of_le_of_lt h ht
      exact ⟨⟨hl, by simp [hr, not_le.mpr hlt]⟩, hr, ht⟩
  dead hd _ := Set.eq_empty_of_forall_notMem fun l ⟨hl, hr, _⟩ => hd.leases l hl hr
  withHead d head _ := by cases head <;> rfl
  attempts ha := by
    obtain ⟨s, doc, hs, hdoc, hleases⟩ := ha.leases
    exact ⟨s, doc, hs, hdoc, fun t l ⟨hl, hr, ht⟩ => (hleases l hl hr).imp_left fun hl => ⟨hl, hr, ht⟩⟩

/-- The step leaves the lease as it is: it does not lock the vault, and the document that is served after it has the
lease, of an active agent whose grant in force covers it. -/
structure Step.SparesLease (l : Lease) (w : World) (st : Step) : Prop where
  unlocked : ∀ s', (w.next st).session = some s' → s'.document = none →
    (∃ idleTimeout, st.input = .restart idleTimeout) ∨ ∀ s, w.session = some s → s.document = none
  covered : ∀ s' d, (w.next st).session = some s' → s'.document = some d → l ∈ d.leases ∧ d.Covers l

theorem Capability.Spares.lease {l : Lease} {w : World} {st : Step} (h : leaseCapability.Spares l w st) :
    st.SparesLease l w :=
  ⟨h.unlocked, fun s' d hs' hd => ⟨(h.usable s' d hs' hd).2.1,
    (h.usable s' d hs' hd).1.covered l (h.usable s' d hs' hd).2.1 (h.usable s' d hs' hd).2.2.1⟩⟩

variable [LawfulCrypto] [LawfulVaultJson]

/-- In every run of a created vault: an unrevoked lease is of an active agent whose grant in force covers it, so a
request never finds one it does not cover. An accepted lease is that of the agent and the project, has not ended, and
has the operation. Where locks leave nothing usable behind, and what is sealed of a mutation is stored, the vault was
not locked since the lease was minted, and every document served since then had it, covered. -/
theorem leases_only_attenuate {passphrase : Bytes} {idleTimeout : Nat} {h h' : Host} {s : Session}
    (hr : (Session.create passphrase idleTimeout).run h = (.ok s, h')) :
    ∃ u, s.unlocked = some u ∧ ∀ (run : List Step) (cond : Conditions) (s1 : Sys),
      Vault.HonestRun ⟨s.envelope.header, u.keys⟩ ⟨some s, h'⟩ run →
      (World.after ⟨some s, h'⟩ run).sys cond = some s1 →
      (∀ d, s1.session.document = some d → ∀ l ∈ d.leases, l.revokedAt = none → d.Covers l) ∧
      (∀ u1, s1.session.unlocked = some u1 → ∀ agentId project op credential leaseId,
        leaseVerdict u1.doc agentId project op credential s1.host.wall ≠ .invalidate leaseId) ∧
      ∀ agentId project op credential actor t,
        (authorizeLease agentId project op (some credential)).run s1 = (.ok actor, t) →
        ∃ u1 p l g, s1.session.unlocked = some u1 ∧ u1.doc.projectByName project = some p ∧ l ∈ u1.doc.leases ∧
          l.credentialHash = (tokenDigest credential).1 ∧ l.agentId = agentId ∧ l.projectId = p.id ∧
          l.revokedAt = none ∧ cond.wall < l.expiresAt ∧ op ∈ l.ops ∧ u1.doc.agentActive agentId = true ∧
          u1.doc.activeGrant agentId p.id = some g ∧ (∀ o ∈ l.ops, o ∈ g.ops) ∧
          (World.Along (fun w st => st.Settles ⟨s.envelope.header, u.keys⟩ w) ⟨some s, h'⟩ run →
            (∀ st ∈ run, st.conditions.wall ≤ cond.wall) →
            World.Since (fun w st => st.MintsLease l w ∧ st.SparesLease l w) (Step.SparesLease l)
            ⟨some s, h'⟩ run) := by
  obtain ⟨u, hu, hlasts⟩ := leaseCapability.lasts_run hr
  obtain ⟨u', hu', hkept⟩ := kept_sane.created sane_new hr
  rw [hu, Option.some.injEq] at hu'
  subst hu'
  refine ⟨u, hu, fun run cond s1 honest hs1 => ?_⟩
  obtain ⟨c, hholds, hall⟩ := hkept run honest
  have hview := hholds.view hs1
  have hsane : ∀ u1, s1.session.unlocked = some u1 → u1.doc.Sane := fun u1 hu1 => hall.memory _ (hview.document_eq hu1)
  refine ⟨fun d hd => (hall.memory d (hview.memory.symm.trans hd)).covered,
    fun u1 hu1 agentId project op credential leaseId => leaseVerdict_covered (hsane u1 hu1) _ _ _ _ _ _,
    fun agentId project op credential actor t hok => ?_⟩
  obtain ⟨u1, hu1, hallow⟩ := authorizeLease_eq_ok hok
  obtain ⟨p, l, g, hp, hl, hhash, hagent, hproject, hrev, hexp, hop, hact, hg, hsub, -⟩ := leaseVerdict_allow hallow
  rw [World.wall_of_sys hs1] at hexp
  refine ⟨u1, p, l, g, hu1, hp, hl, hhash, hagent, hproject, hrev, hexp, hop, hact, hg, hsub, fun hsettles hclock => ?_⟩
  obtain ⟨c', hholds', hsettled⟩ := hlasts run (World.Along.and.mpr ⟨honest, hsettles⟩)
  have hsince := (hsettled.lasts cond.wall hclock).memory u1.doc ((hholds'.view hs1).document_eq hu1) l ⟨hl, hrev, hexp⟩
  exact hsince.mono (fun _ _ h => ⟨h.1, h.2.lease⟩) fun _ _ h => h.lease

end

namespace Reference

variable {v : Vault} {n : Nat} {w : World} {d d' se st : VaultDocument} {α : Type}

/-- A mutation that is decided is stored once it is sealed. -/
theorem Stands.settles (h : Stands v ⟨some d, se, st⟩ n w) (hn : n < 100) {m : Mutation α} {ans : α}
    (hl : Lands m d d' ans) : (⟨conditions, .call (.mutate m)⟩ : Step).Settles v w := by
  obtain ⟨session, s, u, memory, hse, hst, hs, hq, hprop⟩ := h.proposes conditions_whole (Option.some_ne_none _)
    hl.human hl.decides
  have hidle : ∀ s0, w.sys conditions = some s0 → s0.session.locksItself s0.host.mono = false := by
    intro s0 hs0
    rw [sys_of_session hs, Option.some.injEq] at hs0
    subst hs0
    obtain ⟨session', hs', htimeout, -⟩ := h.session
    rw [hs, Option.some.injEq] at hs'
    subst hs'
    exact not_idle htimeout _
  refine ⟨fun s0 hs0 hp => ?_, fun hi => (nomatch congrArg Input.mutates hi), fun s0 hs0 _ a ha => ?_⟩
  · rcases hp with hp | ⟨_, _, _, _, hp⟩
    · exact nomatch (congrArg Input.mutates hp)
    · rw [hidle s0 hs0] at hp
      cases hp
  · obtain ⟨s1, hs1, ⟨-, hp, -⟩ | ⟨q, t, hq', rfl⟩⟩ := ha
    · rw [hidle s1 hs1] at hp
      cases hp
    · rw [sys_of_session hs, Option.some.injEq] at hs1
      subst hs1
      rw [hprop] at hq'
      cases hq'
      obtain ⟨head, t, hrec, hwithin, -⟩ := written (m.priority u.doc) hq.coherent hq.finds.limits hq.log hn
        hl.brief hq.wall (by rw [hq.appends]; rfl)
      intro head' t' hrec' b hb _
      dsimp only at hrec' hb
      rw [hrec] at hrec'
      cases hrec'
      obtain ⟨b', hb', hlen⟩ := hl.compact.docToVec hwithin
      have hsame : docToVec ((d'.withHead (some memory)).withHead (some head)) = .ok b' := hb'
      rw [hsame] at hb
      cases hb
      exact ⟨by rw [hq.saves]; rfl, fun keys nonce => persistable hq.header (by omega) keys nonce⟩

theorem Stands.settles_enroll (h : Stands v ⟨some (VaultDocument.new 0), se, st⟩ 1 w) :
    World.Along (fun w st => st.Settles v w) w Reference.enroll := by
  have hagent := h.mutate (by omega) lands_agentAdd
  have hproject := hagent.mutate (by omega) lands_projectAdd
  have hsecret := hproject.mutate (by omega) lands_secretSet
  exact ⟨h.settles (by omega) lands_agentAdd, hagent.settles (by omega) lands_projectAdd,
    hproject.settles (by omega) lands_secretSet, hsecret.settles (by omega) lands_grantAdd, trivial⟩

theorem Stands.settles_takeLease (h : Stands v ⟨some (VaultDocument.new 0), se, st⟩ 1 w) :
    World.Along (fun w st => st.Settles v w) w Reference.takeLease :=
  World.Along.append.mpr ⟨h.settles_enroll, h.enroll.settles (by omega) lands_leaseCreate, trivial⟩

end Reference

/-- The history of a lease that was just taken. -/
theorem leases_only_attenuate_taken : ∃ s h' u, ∃ (s1 t : Sys) (actor : String) (l : Lease),
    (Session.create Reference.passphrase 0).run Reference.healthy = (.ok s, h') ∧ s.unlocked = some u ∧
    (World.after ⟨some s, h'⟩ Reference.takeLease).sys Reference.conditions = some s1 ∧
    (authorizeLease Reference.agentId "p" .inject (some Reference.leaseCredential)).run s1 = (.ok actor, t) ∧
    l.credentialHash = (tokenDigest Reference.leaseCredential).1 ∧
    World.Since (fun w st => st.MintsLease l w ∧ st.SparesLease l w) (Step.SparesLease l) ⟨some s, h'⟩
      Reference.takeLease := by
  obtain ⟨s, h', u, hr, hu, hp, hstands⟩ := Reference.stands_created
  obtain ⟨s1, t1, hs1, hauth⟩ := hstands.takeLease.acceptsLease (by omega)
  obtain ⟨u', hu', hleases⟩ := leases_only_attenuate hr
  rw [hu, Option.some.injEq] at hu'
  subst hu'
  obtain ⟨-, -, haccepted⟩ := hleases Reference.takeLease _ s1 Reference.honest_takeLease hs1
  obtain ⟨u1, p, l, g, -, -, -, hhash, -, -, -, -, -, -, -, -, hsince⟩ := haccepted _ _ _ _ _ _ hauth
  exact ⟨s, h', u, s1, t1, _, l, hr, hu, hs1, hauth, hhash, hsince hstands.settles_takeLease (by decide)⟩

/-- No nonce can be drawn for the document of a lock: after the next unlock the lease of before the lock is accepted. -/
theorem lease_revived : ∃ s h' u, ∃ (s0 t0 s1 t1 : Sys),
    (Session.create Reference.passphrase 0).run Reference.healthy = (.ok s, h') ∧ s.unlocked = some u ∧
    Vault.HonestRun ⟨s.envelope.header, u.keys⟩ ⟨some s, h'⟩
      (Reference.takeLease ++ [⟨Reference.noRng, .call .lockPersist⟩, Reference.unlocking]) ∧
    (World.after ⟨some s, h'⟩ Reference.takeLease).sys Reference.noRng = some s0 ∧
    (∃ d, s0.session.document = some d ∧ Reference.leased ∈ d.leases) ∧
    (Call.lockPersist.exec.run s0 = (.ok (), t0) ∧ t0.session.document = none) ∧
    (World.after ⟨some s, h'⟩ (Reference.takeLease ++ [⟨Reference.noRng, .call .lockPersist⟩,
      Reference.unlocking])).sys Reference.conditions = some s1 ∧
    (authorizeLease Reference.agentId "p" .inject (some Reference.leaseCredential)).run s1 =
      (.ok "lease:0001020304050607", t1) := by
  obtain ⟨s, h', u, hr, hu, hp, hstands⟩ := Reference.stands_created
  have hlease := hstands.takeLease
  have hsmall := Reference.small_lease.2.2.1
  obtain ⟨session, t0, hsession, hrun, -⟩ := hlease.locksUnsealed (by omega) hsmall
  have hlock := hlease.lockUnsealed (by omega) hsmall
  obtain ⟨s1, t1, hs1, hauth⟩ := (hlock.unlock (by omega) hp).acceptsLease (by omega)
  obtain ⟨memory, hse, hst, -, -, -, hholds⟩ := hlease.holds
  have hlocked : t0.session.document = none := by
    rcases lockPersist_locked hrun with ⟨-, hnone, -⟩ | hpanic
    · rw [Session.document, hnone]
      rfl
    · cases hpanic
  refine ⟨s, h', u, _, t0, s1, t1, hr, hu, World.Along.append.mpr ⟨Reference.honest_takeLease, Reference.honest_of_lock,
    hlock.honest_of_unlock hp, trivial⟩, Reference.sys_of_session hsession _, ⟨_, (hholds.session _ hsession).memory,
    List.mem_singleton.mpr rfl⟩, ⟨hrun, hlocked⟩, ?_, hauth⟩
  rw [World.after_append]
  exact hs1

end SecretsVault
