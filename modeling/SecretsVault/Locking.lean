import SecretsVault.History
import SecretsVault.ReferenceRuns

/-!
# What a lock ends

A lock revokes every lease and denies every approval in what it commits, and drops the human sessions. What becomes of
its commit is not reported, and a later unlock opens the sealed copy, a later process the stored one.

- `Vault.LockEnds v s`: the commit of the lock lands, or there is nothing left to end in the two copies that stay.
- `lock_ends`: after such a lock, in every run, a capability that is accepted was made after the lock.
- `lease_outlives_lock`: it is not so after a lock whose save fails.
-/

namespace SecretsVault

open Lib Lib.Prog Lib.Copies Host VaultDocument

section

variable [Crypto] [VaultJson] [AuditJson]

/-! ## Locks -/

/-- The step is a lock, or begins with the idle lock. -/
def Step.Persists (st : Step) (s : Sys) : Prop :=
  st.input = .call .lockPersist ∨
    ∃ (α : Type) (c : Call α), st.input = .call c ∧ c.idles = true ∧ s.session.locksItself s.host.mono = true

/-- The commit of a lock lands. -/
def Sys.LockLands (s : Sys) : Prop :=
  ∃ u head t bytes, s.session.unlocked = some u ∧ (recordCommit lockRecord .lifecycle).run s = (.ok head, t) ∧
    docToVec ((lockAll s.host.wall u.doc).withHead head) = .ok bytes ∧ s.host.rng 0 ≠ none ∧ s.host.saves 0 = none ∧
    ∀ nonce, (s.session.envelope.reseal bytes u.keys nonce).validatePersistable = .ok ()

/-- No lease of the document is unrevoked and no approval is open. -/
structure Dead (d : VaultDocument) : Prop where
  leases : ∀ l ∈ d.leases, l.revokedAt ≠ none
  approvals : ∀ a ∈ d.approvals, a.status.open_ = false

/-- Nothing is usable in the two copies that stay behind a lock. -/
def Vault.Over (v : Vault) (s : Sys) : Prop :=
  (∀ d, v.Seals d s.session.envelope → Dead d) ∧ ∀ d, v.Stored s.host d → Dead d

/-- The lock leaves nothing usable behind. -/
def Vault.LockEnds (v : Vault) (s : Sys) : Prop := s.LockLands ∨ v.Over s

omit [Crypto] [VaultJson] [AuditJson] in
theorem dead_lockAll (now : OffsetDateTime) (d : VaultDocument) : Dead (lockAll now d) :=
  ⟨(lockAll_dead now d).1, (lockAll_dead now d).2⟩

omit [Crypto] [VaultJson] [AuditJson] in
theorem Dead.withHead {d : VaultDocument} (h : Dead d) (head : Option AuditHead) : Dead (d.withHead head) := by
  cases head <;> exact ⟨h.leases, h.approvals⟩

variable {s t : Sys} {α : Type}

/-! ## The idle lock -/

/-- The program begins with a look at the idle window. -/
def Idling (m : SessionProg α) : Prop := ∃ k, m = checkIdle >>= k

theorem Idling.bind {β : Type} {m : SessionProg α} (h : Idling m) (f : α → SessionProg β) : Idling (m >>= f) := by
  obtain ⟨k, rfl⟩ := h
  exact ⟨fun a => k a >>= f, bind_assoc _ _ _⟩

theorem gate_idling (actor op : String) (project : Option String) (keys : List String) :
    Idling (gate actor op project keys) := ⟨_, rfl⟩

theorem requireOpen_idling (actor op : String) (project : Option String) (keys : List String) :
    Idling (requireOpen actor op project keys) := ⟨_, rfl⟩

theorem requireHuman_idling (actor op : String) : Idling (requireHuman actor op) := ⟨_, rfl⟩

theorem Mutation.proposal_idling (m : Mutation α) : Idling m.proposal := by
  cases m with
  | leaseCreate | leaseRevoke | approvalRequest | revealClaim => exact (requireOpen_idling _ _ _ _).bind _
  | approvalDecide => exact (requireHuman_idling _ _).bind _
  | _ => exact (gate_idling _ _ _ _).bind _

theorem Call.exec_idling {c : Call α} (hi : c.idles = true) : Idling c.exec := by
  cases c with
  | mutate m =>
    rw [Call.exec, m.exec_eq]
    exact m.proposal_idling.bind _
  | projectList | secretList | agentList | grantList => exact (gate_idling _ _ _ _).bind _
  | leaseList | authorizeLease | approvalStatus | revealHuman => exact (requireOpen_idling _ _ _ _).bind _
  | approvalPending => exact (requireHuman_idling _ _).bind _
  | injectFile => exact (gate_idling _ _ _ _).bind _
  | ensureRunUnlocked | requireKeys | save => exact ⟨_, rfl⟩
  | _ => cases hi

/-- The idle lock comes first: the call goes on from a locked session. -/
theorem Idling.locks {m : SessionProg α} (hm : Idling m) (hl : s.session.locksItself s.host.mono = true)
    (hr : lockPersist.run s = (.ok (), t)) : m.run s = m.run t := by
  obtain ⟨-, hu, hs⟩ | h := lockPersist_locked hr
  swap
  · cases h
  have hlock := lockPersist_run t
  rw [hu] at hlock
  have hsame : ({ t with session := t.session.lock } : Sys) = t := by
    rcases t with ⟨session, host⟩
    cases session
    dsimp only at hu hs
    subst hu hs
    rfl
  have ht : checkIdle.run t = (.ok (), t) := by
    rw [checkIdle_run]
    split
    · rw [hlock]
      dsimp only
      rw [hsame]
    · rfl
  obtain ⟨k, rfl⟩ := hm
  rw [run_bind, run_bind, ht, checkIdle_run, if_pos hl, hr]

/-- A panic of the idle lock is one of the call. -/
theorem Idling.panics {m : SessionProg α} (hm : Idling m) (hl : s.session.locksItself s.host.mono = true)
    (hr : lockPersist.run s = (.panic, t)) : m.run s = (.panic, t) := by
  obtain ⟨k, rfl⟩ := hm
  rw [run_bind, checkIdle_run, if_pos hl, hr]

/-! ## The copies behind a lock -/

variable [LawfulCrypto] [LawfulVaultJson] {v : Vault} {c : Copies VaultDocument}

omit [AuditJson] [LawfulCrypto] [LawfulVaultJson] in
/-- Dropping what is in memory. -/
theorem Vault.View.drop (hv : v.View s c) :
    v.View { s with session := s.session.lock } ⟨none, c.sealed, c.stored⟩ :=
  ⟨rfl, fun _ hu => (nomatch hu), hv.sealed, hv.stored⟩

/-- After the commit of a lock that ends them nothing is usable in the copies that stay. -/
theorem Vault.View.lockCommitted (hv : v.View s c) (hl : v.LockEnds s) {u : Unlocked} (hu : s.session.unlocked = some u)
    {o : Outcome VaultError Unit} (hc : (commitWith (lockAll s.host.wall u.doc) lockRecord .lifecycle).run s = (o, t)) :
    ∃ c', v.View t c' ∧ Dead c'.sealed ∧ Dead c'.stored := by
  have hdead : ∀ head, Dead ((lockAll s.host.wall u.doc).withHead head) := (dead_lockAll _ _).withHead
  rcases hl with ⟨u', head, t', bytes, hu', hrec, hb, hrng, hsave, hval⟩ | ⟨hs, hst⟩
  · rw [hu] at hu'
    cases hu'
    obtain ⟨nonce, rng, saves, hland⟩ := commitWith_lands hu hrec hb hrng hsave hval
    rw [hc] at hland
    cases hland
    exact ⟨_, hv.landed hu hb rfl rfl rfl, hdead head, hdead head⟩
  · cases commitWith_ends hc with
    | refused => exact ⟨c, hv.congr rfl rfl rfl, hs _ hv.sealed, hst _ hv.stored⟩
    | cut hu' hrec hb hn hcut => exact ⟨_, hv.cut hu' hb rfl rfl rfl, hdead _, hst _ hv.stored⟩
    | landed hu' hrec hb hval hsave => exact ⟨_, hv.landed hu' hb rfl rfl rfl, hdead _, hdead _⟩

/-- However such a lock ends, nothing is usable in the copies that stay. -/
theorem Vault.View.locked (hv : v.View s c) (hl : v.LockEnds s) {o : Outcome VaultError Unit}
    (hr : lockPersist.run s = (o, t)) :
    ∃ c', v.View t c' ∧ (o ≠ .panic → c'.memory = none) ∧ Dead c'.sealed ∧ Dead c'.stored := by
  rw [lockPersist_run] at hr
  cases hu : s.session.unlocked with
  | none =>
    rw [hu] at hr
    cases hr
    rcases hl with ⟨u, -, -, -, hu', -⟩ | ⟨hs, hst⟩
    · rw [hu] at hu'
      cases hu'
    · exact ⟨_, hv.drop, fun _ => rfl, hs _ hv.sealed, hst _ hv.stored⟩
  | some u =>
    rw [hu] at hr
    dsimp only at hr
    rcases hc : (commitWith (lockAll s.host.wall u.doc) lockRecord .lifecycle).run s with ⟨o, t1⟩
    obtain ⟨c1, hv1, hs, hst⟩ := hv.lockCommitted hl hu hc
    rw [hc] at hr
    cases o with
    | panic =>
      cases hr
      exact ⟨c1, hv1, fun ho => (ho rfl).elim, hs, hst⟩
    | _ =>
      cases hr
      exact ⟨_, hv1.drop, fun _ => rfl, hs, hst⟩

omit [AuditJson] [LawfulCrypto] [LawfulVaultJson] in
/-- Without a process only the stored copy counts. -/
theorem Vault.View.ended (hv : v.View t c) : v.Holds ⟨none, t.host⟩ c.reload :=
  ⟨hv.stored, fun _ hs => nomatch hs⟩

/-- What a step that begins with such a lock leaves. -/
theorem Vault.Holds.locks {w : World} {st : Step} (h : v.Holds w c) (hs : w.sys st.conditions = some s)
    (hp : st.Persists s) (hl : v.LockEnds s) : ∃ c', v.Holds (w.next st) c' ∧ All Dead c' := by
  rcases hr : lockPersist.run s with ⟨o, t⟩
  obtain ⟨ct, hvt, hm, hsealed, hstored⟩ := (h.view hs).locked hl hr
  have hreload : All Dead ct.reload := ⟨⟨fun _ hm => (nomatch hm), hstored⟩, hstored⟩
  have hdead : o ≠ .panic → All Dead ct := fun ho => ⟨⟨fun m hm' => (by rw [hm ho] at hm'; cases hm'), hsealed⟩,
    hstored⟩
  rcases st with ⟨conditions, input⟩
  rcases hp with hp | ⟨α, call, hp, hi, hidle⟩ <;> cases hp
  · rw [World.next_of_sys hs, Call.exec, hr]
    cases o with
    | panic => exact ⟨ct.reload, hvt.ended, hreload⟩
    | _ => exact ⟨ct, holds_ran hvt, hdead (by simp)⟩
  · rw [World.next_of_sys hs]
    rcases lockPersist_locked hr with ⟨rfl, hu, -⟩ | rfl
    · have hnone : ∀ d, ¬((call.rights t).copies t.host.wall).commits d := by
        rintro d ⟨a, head, ha, -⟩
        obtain ⟨u, hu', -⟩ := Call.Attempts.made ha
        rw [hu] at hu'
        cases hu'
      obtain ⟨c', hv', hc⟩ := call.view hvt fun derived htries => by cases call <;> first | exact htries.elim | cases hi
      rw [(Call.exec_idling hi).locks hidle hr]
      refine ⟨c', holds_ran hv', hc.all (fun d hd => (hnone d hd).elim) ?_ (hdead (by simp))⟩
      rintro m m' ⟨-, rfl⟩ hm
      exact ⟨fun l hl => hm.leases l ((purgeTerminal_sub m _).1 l hl),
        fun a ha => hm.approvals a ((purgeTerminal_sub m _).2 a ha)⟩
    · rw [(Call.exec_idling hi).panics hidle hr]
      exact ⟨ct.reload, hvt.ended, hreload⟩

/-! ## What is usable was made since -/

/-- What is usable in the document was made by a step of the run. -/
structure Since (w : World) (run : List Step) (d : VaultDocument) : Prop where
  leases : ∀ l ∈ d.leases, l.revokedAt = none → w.Sometime (Step.MintsLease l) run
  approvals : ∀ a ∈ d.approvals, a.status.open_ = true →
    w.Sometime (fun w st => ∃ x, x.id = a.id ∧ st.Requests x w) run

omit [LawfulCrypto] [LawfulVaultJson] in
theorem Dead.since {d : VaultDocument} (h : Dead d) (w : World) (run : List Step) : Since w run d :=
  ⟨fun l hl hr => (h.leases l hl hr).elim, fun a ha ho => by rw [h.approvals a ha] at ho; cases ho⟩

omit [LawfulCrypto] [LawfulVaultJson] in
theorem Since.turn {w : World} {run : List Step} {st : Step} {c c' : Copies VaultDocument} (h : v.Holds (w.after run) c)
    (ht : (w.after run).Turn st c c') (hall : All (Since w run) c) : All (Since w (run ++ [st])) c' := by
  have hlater : All (Since w (run ++ [st])) c := hall.mono fun d hd =>
    ⟨fun l hl hr => World.sometime_concat.mpr (Or.inl (hd.leases l hl hr)),
      fun a ha ho => World.sometime_concat.mpr (Or.inl (hd.approvals a ha ho))⟩
  cases ht with
  | none => exact hlater
  | @call _ call s _ hi hs _ hc =>
    refine hc.all ?_ ?_ hlater
    · rintro d ⟨a, head, ha, rfl⟩
      have hattempts : st.Attempts (w.after run) a := by
        rw [Step.Attempts, hi]
        exact ⟨s, hs, ha⟩
      obtain ⟨s1, doc, hs1, hdoc, hleases⟩ := hattempts.leases
      obtain ⟨s2, doc2, hs2, hdoc2, happrovals⟩ := hattempts.approvals
      rw [hs1] at hs2
      cases hs2
      rw [hdoc] at hdoc2
      cases hdoc2
      have hmem : c.memory = some doc := by
        rw [← (h.view hs1).memory]
        exact hdoc
      have hsince := hlater.memory doc hmem
      refine ⟨fun l hl hr => ?_, fun x hx ho => ?_⟩
      · have hl' : l ∈ a.doc.leases := by cases head <;> exact hl
        rcases hleases l hl' hr with hold | hmint
        · exact hsince.leases l hold hr
        · exact World.sometime_concat.mpr (Or.inr hmint)
      · have hx' : x ∈ a.doc.approvals := by cases head <;> exact hx
        rcases happrovals x hx' ho with hold | hreq | ⟨_, approvalId, _, _, y, hd, hy, hid, hst, -, rfl⟩
        · exact hsince.approvals x hold ho
        · exact World.sometime_concat.mpr (Or.inr ⟨x, rfl, hreq⟩)
        · obtain ⟨-, s3, _, _, hs3, hdoc3, -⟩ := hd
          rw [hs1] at hs3
          cases hs3
          rw [hdoc] at hdoc3
          cases hdoc3
          exact hsince.approvals y hy (by rw [hst]; rfl)
    · rintro m m' ⟨-, rfl⟩ hm
      exact ⟨fun l hl => hm.leases l ((purgeTerminal_sub m _).1 l hl),
        fun a ha => hm.approvals a ((purgeTerminal_sub m _).2 a ha)⟩
  | restart => exact hlater.reload

theorem Since.run {w : World} (run : List Step) {c : Copies VaultDocument} (h : v.Holds w c) (hdead : All Dead c)
    (honest : v.HonestRun w run) : ∃ c', v.Holds (w.after run) c' ∧ All (Since w run) c' := by
  induction run using List.reverseRecOn with
  | nil => exact ⟨c, h, hdead.mono fun d hd => hd.since w []⟩
  | append_singleton run st ih =>
    obtain ⟨hrun, hst⟩ := World.Along.append.mp honest
    obtain ⟨c1, h1, hall⟩ := ih hrun
    obtain ⟨c2, h2, ht⟩ := h1.next hst.1
    exact ⟨c2, by simpa using h2, Since.turn h1 ht hall⟩

/-! ## What is accepted after a lock -/

/-- What the state accepts was made by a step of the run. -/
structure AcceptsSince (w : World) (run : List Step) (s : Sys) : Prop where
  lease {agentId project credential actor : String} {op : Op} {t : Sys}
    (h : (authorizeLease agentId project op (some credential)).run s = (.ok actor, t)) :
    ∃ l, l.credentialHash = (tokenDigest credential).1 ∧ w.Sometime (Step.MintsLease l) run
  approval {actor agentId project key approvalId : String} {value : Bytes} {t : Sys}
    (h : (Call.mutate (.revealClaim actor agentId project key approvalId)).exec.run s = (.ok value, t)) :
    w.Sometime (fun w st => ∃ a, a.id = approvalId ∧ st.Requests a w) run
  session {credential actor : String} {t : Sys} (h : (authorizeSession credential).run s = (.ok actor, t)) :
    w.Sometime (Step.Opens (tokenDigest credential)) run
  touch {credential : String} {ans : String × Nat × Nat} {t : Sys}
    (h : (sessionTouch credential).run s = (.ok ans, t)) : w.Sometime (Step.Opens (tokenDigest credential)) run

omit [LawfulCrypto] [LawfulVaultJson] in
/-- Live capabilities that are all new make what is accepted new. -/
theorem Since.accepts {w : World} {run : List Step} (hv : v.View s c) (hall : All (Since w run) c)
    (htable : ∀ e ∈ s.session.sessions, w.Sometime (Step.Opens e.1) run) : AcceptsSince w run s := by
  have hdoc : ∀ u, s.session.unlocked = some u → Since w run u.doc := fun u hu => hall.memory _ (hv.document_eq hu)
  have hvalid : ∀ {op credential displayPrefix : String} {t : Sys},
      (validSession op credential).run s = (.ok displayPrefix, t) → w.Sometime (Step.Opens (tokenDigest credential))
      run := by
    intro op credential displayPrefix t h
    obtain ⟨-, -, live, hget, -⟩ := validSession_eq_ok h
    exact htable _ (get?_some_mem hget)
  refine ⟨fun h => ?_, fun h => ?_, fun h => ?_, fun h => ?_⟩
  · obtain ⟨u, hu, hallow⟩ := authorizeLease_eq_ok h
    obtain ⟨p, l, g, -, hl, hhash, -, -, hr, -⟩ := leaseVerdict_allow hallow
    exact ⟨l, hhash, (hdoc u hu).leases l hl hr⟩
  · obtain ⟨u, doc, hu, hclaim, -⟩ := revealClaim_eq_ok h
    obtain ⟨p, pos, a, x, -, -, -, ha, rfl, -, -, -, -, hst, -⟩ := claim_eq_ok hclaim
    exact (hdoc u hu).approvals a ha (by rw [hst]; rfl)
  · obtain ⟨displayPrefix, s1, h1, -⟩ := bind_eq_ok h
    exact hvalid h1
  · obtain ⟨displayPrefix, s1, h1, -⟩ := bind_eq_ok h
    exact hvalid h1

omit [LawfulCrypto] [LawfulVaultJson] in
/-- A step that begins with a lock leaves no session. -/
theorem World.locked_table {w : World} {st : Step} (hs : w.sys st.conditions = some s) (hp : st.Persists s)
    (hr : lockPersist.run s = (.ok (), t)) {s' : Session} (hs' : (w.next st).session = some s') : s'.sessions = [] := by
  obtain ⟨-, -, htable⟩ | h := lockPersist_locked hr
  swap
  · cases h
  rcases st with ⟨conditions, input⟩
  rcases hp with hp | ⟨α, call, hp, hi, hidle⟩ <;> cases hp
  · rw [World.next_of_sys hs, Call.exec, hr] at hs'
    cases hs'
    exact htable
  · rw [World.next_of_sys hs, (Call.exec_idling hi).locks hidle hr] at hs'
    have hmints : ¬call.Mints := fun hm => by cases call <;> first | exact hm.elim | cases hi
    have hsub := (call.acts t).table_sub hmints
    rcases hrun : call.exec.run t with ⟨o, t'⟩
    rw [hrun] at hs' hsub
    have ht : t'.session = s' := by cases o <;> cases hs' <;> rfl
    subst ht
    rw [htable] at hsub
    exact List.map_eq_nil_iff.mp (List.sublist_nil.mp hsub)

/-- In every run of a created vault, after a lock that leaves nothing usable behind, what is accepted was made since. -/
theorem lock_ends {passphrase : Bytes} {idleTimeout : Nat} {h h' : Host} {s : Session}
    (hr : (Session.create passphrase idleTimeout).run h = (.ok s, h')) :
    ∃ u, s.unlocked = some u ∧ ∀ (pre post : List Step) (st : Step) (s0 t0 s1 : Sys) (cond : Conditions),
      Vault.HonestRun ⟨s.envelope.header, u.keys⟩ ⟨some s, h'⟩ (pre ++ st :: post) →
      (World.after ⟨some s, h'⟩ pre).sys st.conditions = some s0 → st.Persists s0 →
      lockPersist.run s0 = (.ok (), t0) → Vault.LockEnds ⟨s.envelope.header, u.keys⟩ s0 →
      (World.after ⟨some s, h'⟩ (pre ++ st :: post)).sys cond = some s1 →
      AcceptsSince (World.after ⟨some s, h'⟩ (pre ++ [st])) post s1 := by
  obtain ⟨u, x, entry, hc⟩ := create_eq_ok hr
  refine ⟨u, hc.unlocked, fun pre post st s0 t0 s1 cond honest hs0 hp hrun hends hs1 => ?_⟩
  obtain ⟨hpre, -, hpost⟩ := World.Along.append.mp honest
  obtain ⟨c, hholds, -⟩ := hc.holds.along (Q := fun _ _ => True) (I := fun _ => True) (fun _ _ _ _ => trivial)
    (hpre.mono fun _ _ h => ⟨h, trivial⟩) trivial
  obtain ⟨c1, h1, hdead⟩ := hholds.locks hs0 hp hends
  obtain ⟨c2, h2, hsince⟩ := Since.run post h1 hdead hpost
  have hw : World.after ⟨some s, h'⟩ (pre ++ st :: post) = ((World.after ⟨some s, h'⟩ pre).next st).after post := by
    rw [World.after_append, World.after_cons]
  have hw1 : World.after ⟨some s, h'⟩ (pre ++ [st]) = (World.after ⟨some s, h'⟩ pre).next st := by
    rw [World.after_append, World.after_cons, World.after_nil]
  rw [hw] at hs1
  rw [hw1]
  exact Since.accepts (h2.view hs1) hsince
    (World.after_table post (fun s' hs' => World.locked_table hs0 hp hrun hs') (World.session_of_sys hs1))

end

namespace Reference

variable {v : Vault} {n : Nat} {w : World} {d se st : VaultDocument}

/-- A lock of a compact document lands. -/
theorem Stands.lockLands (h : Stands v ⟨some d, se, st⟩ n w) (hn : n < 100) (hd : Compact (lockAll 0 d)) :
    ∃ s t, w.sys conditions = some s ∧ s.LockLands ∧ SecretsVault.lockPersist.run s = (.ok (), t) := by
  obtain ⟨s, u, memory, hse, hst, hq⟩ := h.commits conditions_whole (Option.some_ne_none _)
  obtain ⟨head, t, hrec, hwithin, -⟩ :=
    written .lifecycle hq.coherent hq.finds.limits hq.log hn brief_lockRecord rfl rfl
  obtain ⟨b, hb, hlen⟩ := hd.docToVec hwithin
  have hdoc : lockAll 0 u.doc = (lockAll 0 d).withHead (some memory) := by rw [hq.finds.doc]; rfl
  have hlands : (⟨s, w.host.under conditions⟩ : Sys).LockLands :=
    ⟨u, some head, t, b, hq.finds.unlocked, hrec, by
      rw [show (w.host.under conditions).wall = 0 from rfl, hdoc]
      exact hb, Option.some_ne_none _, rfl, fun nonce => persistable hq.header (by omega) _ _⟩
  obtain ⟨_, t', hcommit, -⟩ := hq.lands .lifecycle rfl rfl rfl hn brief_lockRecord hd
  exact ⟨⟨s, w.host.under conditions⟩, _, sys_of_session hq.finds.session _, hlands,
    lockPersist_exec hq.finds.unlocked hdoc hcommit (by simp)⟩

/-- The passphrase is typed. -/
def unlocking : Step := ⟨conditions, .call (.unlock passphrase)⟩

/-- A new process, and the passphrase. -/
def reopening : List Step := [⟨conditions, .restart 0⟩, unlocking]

theorem not_minted {l : Lease} : ¬w.Sometime (Step.MintsLease l) reopening := by
  rintro (⟨_, _, _, _, _, _, _, _, hd⟩ | ⟨_, _, _, _, _, _, _, _, hd⟩ | hm)
  · exact nomatch hd.mutates
  · exact nomatch hd.mutates
  · exact hm

end Reference

/-- A lease of an agent is not accepted after a lock that landed, a restart and an unlock. -/
theorem lock_ends_lease : ∃ s h' u, ∃ (s0 t0 s1 : Sys),
    (Session.create Reference.passphrase 0).run Reference.healthy = (.ok s, h') ∧ s.unlocked = some u ∧
    (World.after ⟨some s, h'⟩ Reference.takeLease).sys Reference.conditions = some s0 ∧
    lockPersist.run s0 = (.ok (), t0) ∧ Vault.LockEnds ⟨s.envelope.header, u.keys⟩ s0 ∧
    (World.after ⟨some s, h'⟩ (Reference.takeLease ++ ⟨Reference.conditions, .call .lockPersist⟩ ::
      Reference.reopening)).sys Reference.conditions = some s1 ∧
    ∀ project op actor t, (authorizeLease Reference.agentId project op (some Reference.leaseCredential)).run s1 ≠
      (.ok actor, t) := by
  obtain ⟨s, h', u, hr, hu, hp, hstands⟩ := Reference.stands_created
  have hlease := hstands.takeLease
  have hsmall := Reference.small_lease.2.2.1
  obtain ⟨s0, t0, hs0, hlands, hrun⟩ := hlease.lockLands (by omega) hsmall
  have hrestart := (hlease.lock (by omega) hsmall).restart
  obtain ⟨s1, hs1⟩ := (hrestart.unlock (by omega) hp).sys Reference.conditions
  obtain ⟨u', hu', hends⟩ := lock_ends hr
  rw [hu, Option.some.injEq] at hu'
  subst hu'
  have hafter : (World.after ⟨some s, h'⟩ (Reference.takeLease ++ ⟨Reference.conditions, .call .lockPersist⟩ ::
      Reference.reopening)).sys Reference.conditions = some s1 := by
    rw [World.after_append]
    exact hs1
  have haccepts := hends Reference.takeLease Reference.reopening ⟨Reference.conditions, .call .lockPersist⟩ s0 t0 s1 _
    (World.Along.append.mpr ⟨Reference.honest_takeLease, Reference.honest_of_lock, trivial,
      hrestart.honest_of_unlock hp, trivial⟩) hs0 (Or.inl rfl) hrun (Or.inl hlands) hafter
  refine ⟨s, h', u, s0, t0, s1, hr, hu, hs0, hrun, Or.inl hlands, hafter, fun project op actor t h => ?_⟩
  obtain ⟨l, -, hm⟩ := haccepts.lease h
  exact Reference.not_minted hm

/-- The save of a lock fails, and the vault is opened again by a new process: the lease of before the lock is accepted.
-/
theorem lease_outlives_lock : ∃ s h' u, ∃ (s0 t0 s1 t1 : Sys),
    (Session.create Reference.passphrase 0).run Reference.healthy = (.ok s, h') ∧ s.unlocked = some u ∧
    Vault.HonestRun ⟨s.envelope.header, u.keys⟩ ⟨some s, h'⟩
      (Reference.takeLease ++ ⟨Reference.noSave, .call .lockPersist⟩ :: Reference.reopening) ∧
    (World.after ⟨some s, h'⟩ Reference.takeLease).sys Reference.noSave = some s0 ∧
    (∃ d, s0.session.document = some d ∧ Reference.leased ∈ d.leases) ∧ lockPersist.run s0 = (.ok (), t0) ∧
    (World.after ⟨some s, h'⟩ (Reference.takeLease ++ ⟨Reference.noSave, .call .lockPersist⟩ ::
      Reference.reopening)).sys Reference.conditions = some s1 ∧
    Reference.leased.credentialHash = (tokenDigest Reference.leaseCredential).1 ∧
    (authorizeLease Reference.agentId "p" .inject (some Reference.leaseCredential)).run s1 =
      (.ok "lease:0001020304050607", t1) := by
  obtain ⟨s, h', u, hr, hu, hp, hstands⟩ := Reference.stands_created
  have hlease := hstands.takeLease
  have hsmall := Reference.small_lease.2.2.1
  obtain ⟨session, t0, hsession, hrun, -⟩ := hlease.locksCut (by omega) hsmall
  have hrestart := (hlease.lockCut (by omega) hsmall).restart
  obtain ⟨s1, t1, hs1, hauth⟩ := (hrestart.unlock (by omega) hp).acceptsLease (by omega)
  obtain ⟨memory, hse, hst, -, -, -, hholds⟩ := hlease.holds
  refine ⟨s, h', u, _, t0, s1, t1, hr, hu, World.Along.append.mpr ⟨Reference.honest_takeLease, Reference.honest_of_lock,
    trivial, hrestart.honest_of_unlock hp, trivial⟩, Reference.sys_of_session hsession _,
    ⟨_, (hholds.session _ hsession).memory, List.mem_singleton.mpr rfl⟩, hrun, ?_, rfl, hauth⟩
  rw [World.after_append]
  exact hs1

end SecretsVault
