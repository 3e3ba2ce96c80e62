import SecretsVault.ReferenceRuns

/-!
# Commits that fail

A mutation whose commit fails leaves the document in memory and the vault file as they were. The envelope in memory is
another matter: a later unlock opens it, not the file. `World.Agrees` says that the two are the same.

- `Acts.agrees`: acts keep the envelope and the file the same where every commit that seals its document stores it.
- `failed_commits_leave_no_trace`: in a run of such commits, an unlock serves what was committed last.
- `failed_commit_is_served`: it does not after a commit that fails between sealing and storing.
-/

namespace SecretsVault

open Lib Lib.Prog Host

/-! ## The envelope and the file -/

section

variable [VaultJson]

/-- The envelope of the session is the one in the vault file. -/
structure Sys.Agrees (s : Sys) : Prop where
  wf : s.session.envelope.Wf
  file : s.host.vaultFile = some s.session.envelope.toBytes

/-- The envelope of a process is the one in the vault file. -/
def World.Agrees (w : World) : Prop :=
  ∃ e : Envelope, e.Wf ∧ w.host.vaultFile = some e.toBytes ∧ ∀ s, w.session = some s → s.envelope = e

variable {s t : Sys} {w : World}

theorem Sys.Agrees.congr (h : s.Agrees) (he : t.session.envelope = s.session.envelope)
    (hf : t.host.vaultFile = s.host.vaultFile) : t.Agrees :=
  ⟨by rw [he]; exact h.wf, by rw [hf, he]; exact h.file⟩

theorem World.Agrees.sys (h : w.Agrees) {c : Conditions} (hs : w.sys c = some s) : s.Agrees := by
  obtain ⟨e, hwf, hfile, hsession⟩ := h
  obtain rfl := hsession s.session (World.session_of_sys hs)
  exact ⟨hwf, (World.vaultFile_of_sys hs).trans hfile⟩

theorem Sys.Agrees.ran {α : Type} {r : Outcome VaultError α × Sys} (h : r.2.Agrees) : (World.ran r).Agrees := by
  unfold World.ran
  split
  · exact ⟨_, h.wf, h.file, fun _ hs => nomatch hs⟩
  · exact ⟨_, h.wf, h.file, fun _ hs => by cases hs; rfl⟩

end

/-! ## What keeps them the same -/

section

variable [Crypto] [VaultJson] [AuditJson] {p : Rights} {s t : Sys}

/-- The vault file was replaced by a commit that succeeded, and by nothing else. -/
def Committed (p : Rights) (s t : Sys) : Prop :=
  t.host.vaultFile = s.host.vaultFile ∨ ∃ a t', p.commits a ∧
    (commitWith a.doc a.record a.priority).run a.state = (.ok (), t') ∧ t.host.vaultFile = t'.host.vaultFile

omit [AuditJson] in
theorem resealed_agrees [LawfulCrypto] (h : s.Agrees) {bytes : Bytes} {keys : Keys} {nonce : Nonce}
    (he : t.session.envelope = s.session.envelope.reseal bytes keys nonce)
    (hf : t.host.vaultFile = some (s.session.envelope.reseal bytes keys nonce).toBytes) : t.Agrees :=
  ⟨by rw [he]; exact h.wf.reseal _ _ _, by rw [hf, he]⟩

/-- Acts replace the vault file by what was committed. -/
theorem Act.committed (h : Act p s t) (hup : ¬p.upkeep) : Committed p s t := by
  cases h with
  | append hev hmac =>
    obtain ⟨l, f, q, ht⟩ := onAudit_recorded (appendEvent_auditOnly _ _ _) s
    rw [ht]
    exact Or.inl rfl
  | host hh _ =>
    obtain ⟨fs, rng, syscalls, rfl⟩ := hh.eq
    exact Or.inl rfl
  | @commit doc record priority hc =>
    rcases hr : (commitWith doc record priority).run s with ⟨o, t⟩
    cases commitWith_ends hr with
    | refused => exact Or.inl rfl
    | cut => exact Or.inl rfl
    | landed => exact Or.inr ⟨_, _, hc, hr, rfl⟩
  | lock | table | clock | limits | unlock => exact Or.inl rfl
  | sweep hp _ => exact (hup hp).elim
  | store hp _ => exact (hup hp).elim

theorem Acts.committed (h : Acts p s t) (hup : ¬p.upkeep) : Committed p s t := by
  induction h with
  | refl => exact Or.inl rfl
  | tail _ ha ih =>
    rcases ha.committed hup with hf | ⟨a, t', hc, hr, hf⟩
    · rcases ih with ih | ⟨a, t', hc, hr, hf'⟩
      · exact Or.inl (hf.trans ih)
      · exact Or.inr ⟨a, t', hc, hr, hf.trans hf'⟩
    · exact Or.inr ⟨a, t', hc, hr, hf⟩

variable [LawfulCrypto]

/-- An act keeps the envelope and the file the same. -/
theorem Act.agrees (h : Act p s t) (hup : ¬p.upkeep) (hstores : ∀ a, p.commits a → a.Stores) (hs : s.Agrees) :
    t.Agrees := by
  cases h with
  | append hev hmac =>
    obtain ⟨l, f, q, ht⟩ := onAudit_recorded (appendEvent_auditOnly _ _ _) s
    rw [ht]
    exact hs.congr rfl rfl
  | host hh _ =>
    obtain ⟨fs, rng, syscalls, rfl⟩ := hh.eq
    exact hs.congr rfl rfl
  | @commit doc record priority hc =>
    rcases hr : (commitWith doc record priority).run s with ⟨o, t⟩
    have hends := commitWith_ends hr
    rcases hends.cases_of_stores (a := ⟨s, doc, record, priority⟩) (hstores _ hc) with rfl | ⟨he, -, hf⟩
    · cases hends with
      | refused ho => exact (ho rfl).elim
      | landed => exact resealed_agrees hs rfl rfl
    · exact hs.congr he hf
  | lock | table | clock | limits | unlock => exact hs.congr rfl rfl
  | sweep hp _ => exact (hup hp).elim
  | store hp _ => exact (hup hp).elim

theorem Acts.agrees (h : Acts p s t) (hup : ¬p.upkeep) (hstores : ∀ a, p.commits a → a.Stores) (hs : s.Agrees) :
    t.Agrees :=
  h.invariant hs fun _ _ ha hs => ha.agrees hup hstores hs

/-! ## Steps -/

/-- What a call seals it stores. -/
def Call.Stores {α : Type} (c : Call α) (s : Sys) : Prop :=
  (∀ a, c.Attempts s a → a.Stores) ∧ match c with
    | .save => ∀ u, s.session.unlocked = some u → s.Fits u.doc
    | _ => True

/-- What a step seals it stores. -/
def Step.Stores (st : Step) (w : World) : Prop :=
  match st.input with
  | .call call => ∀ s, w.sys st.conditions = some s → call.Stores s
  | .restart _ => True

omit [LawfulCrypto] in
/-- A call that neither sweeps nor saves seals nothing but what it commits. -/
theorem Call.stores_of_attempts {α : Type} {call : Call α} {cond : Conditions} {w : World} (hcall : ¬call.Keeps)
    (h : ∀ a, (⟨cond, .call call⟩ : Step).Attempts w a → a.Stores) : (⟨cond, .call call⟩ : Step).Stores w := by
  refine fun s hs => ⟨fun a ha => h a ⟨s, hs, ha⟩, ?_⟩
  cases call with
  | save => exact (hcall trivial).elim
  | _ => trivial

omit [LawfulCrypto] in
/-- What a save comes to: the idle lock, or the document stored as it is. -/
theorem save_run (s : Sys) : (∃ p : Rights, Acts p s (save.run s).2 ∧ ¬p.upkeep ∧ ∀ a, p.commits a → IdleAttempt s a) ∨
    ∃ u t o, s.session.unlocked = some u ∧
      (storeAsIs u).run { s with session := { s.session with lastActivity := s.host.mono } } = (o, t) ∧
      (save.run s).2 = t := by
  set p : Rights := ⟨IdleAttempt s, fun _ => False, True, False, False, False, False, False⟩ with hp
  have hidle : Acts p s (checkIdle.run s).2 := checkIdle_acts ⟨fun _ ha => ha, fun _ => trivial⟩
  rcases hr : checkIdle.run s with ⟨_ | e | _, s1⟩ <;> rw [hr] at hidle
  · cases hu : s1.session.unlocked with
    | none =>
      refine Or.inl ⟨p, ?_, id, fun _ ha => ha⟩
      rw [save, run_bind, hr]
      dsimp only
      rw [run_bind, requireUnlocked, run_get_bind, run_lift, hu]
      exact hidle
    | some u =>
      obtain ⟨rfl, -⟩ := checkIdle_unlocked hr hu
      have hreq : requireUnlocked.run s1 = (.ok u, s1) := by
        rw [requireUnlocked, run_get_bind, run_lift, hu]
        rfl
      refine Or.inr ⟨u, _, _, hu, rfl, ?_⟩
      rw [save, run_bind, hr]
      dsimp only
      rw [run_bind, hreq]
      rfl
  · refine Or.inl ⟨p, ?_, id, fun _ ha => ha⟩
    rw [save, run_bind, hr]
    exact hidle
  · refine Or.inl ⟨p, ?_, id, fun _ ha => ha⟩
    rw [save, run_bind, hr]
    exact hidle

/-- A call keeps the envelope and the file the same. -/
theorem Call.agrees {α : Type} (c : Call α) (hc : c.Stores s) (hs : s.Agrees) : (c.exec.run s).2.Agrees := by
  by_cases hup : c.Keeps
  · cases c with
    | gcTerminalCredentials =>
      rw [Call.exec, SecretsVault.gcTerminalCredentials, run_get_bind]
      split
      · exact hs
      · exact hs.congr rfl rfl
    | save =>
      rcases save_run s with ⟨p, hacts, hup, hidle⟩ | ⟨u, t, o, hu, hr, ht⟩
      · exact hacts.agrees hup (fun a ha => hc.1 a (Or.inl ⟨rfl, hidle a ha⟩)) hs
      · rw [Call.exec, ht]
        cases storeAsIs_ends hr with
        | refused => exact hs.congr rfl rfl
        | cut hb hn hcut =>
          obtain ⟨hsave, hfit⟩ := hc.2 u hu _ hb hn
          rcases hcut with hcut | hcut
          · exact (hcut (hfit _ _)).elim
          · exact (hcut hsave).elim
        | stored => exact resealed_agrees hs rfl rfl
    | _ => exact hup.elim
  · exact (c.acts s).agrees hup hc.1 hs

/-- A step keeps the envelope and the file the same. -/
theorem World.Agrees.next [LawfulVaultJson] {w : World} {st : Step} (h : w.Agrees) (hst : st.Stores w) :
    (w.next st).Agrees := by
  rcases st with ⟨conditions, input⟩
  cases input with
  | @call α call =>
    cases hs : w.sys conditions with
    | none =>
      have hnone : w.session = none := by simpa [World.sys] using hs
      obtain ⟨e, hwf, hfile, -⟩ := h
      simp only [World.next, hs]
      exact ⟨e, hwf, hfile, fun s hs' => by rw [hnone] at hs'; cases hs'⟩
    | some s =>
      simp only [World.next, hs]
      exact (call.agrees (hst s hs) (h.sys hs)).ran
  | restart idleTimeout =>
    obtain ⟨e, hwf, hfile, -⟩ := h
    have hsame := load_sameFile idleTimeout ((w.host.under conditions).releaseVault)
    rcases hr : (Session.load idleTimeout).run ((w.host.under conditions).releaseVault) with ⟨s | e' | _, h'⟩
    · rw [hr] at hsame
      obtain ⟨bytes, audit, now, hb, hparse, -, hstart⟩ := load_eq_ok hr
      have hbytes : w.host.vaultFile = some bytes := hb
      rw [hfile, Option.some.injEq] at hbytes
      subst hbytes
      simp only [World.next, hr]
      refine ⟨e, hwf, hsame.vaultFile.trans hfile, fun s' hs' => ?_⟩
      cases hs'
      exact Envelope.parse_toBytes_inj hwf hparse
    all_goals
      rw [hr] at hsame
      simp only [World.next, hr]
      exact ⟨e, hwf, hsame.vaultFile.trans hfile, fun _ hs' => by cases hs'⟩

theorem World.Agrees.run [LawfulVaultJson] {w : World} {run : List Step} (h : w.Agrees)
    (hrun : w.Along (fun w st => st.Stores w) run) : (w.after run).Agrees := by
  induction run generalizing w with
  | nil => exact h
  | cons st run ih => exact ih (h.next hrun.1) hrun.2

/-! ## After a failure -/

omit [LawfulCrypto] in
/-- A mutation whose commit fails leaves the document in memory and the vault file as they were. -/
theorem Mutation.commit_failed {α : Type} {m : Mutation α} {q : Proposal α} {s s' t : Sys} {e : VaultError}
    (hq : m.proposal.run s = (.ok q, s')) (hc : (commitWith q.doc q.record q.priority).run s' = (.error e, t)) :
    t.session.document = s.session.document ∧ t.host.vaultFile = s.host.vaultFile := by
  obtain ⟨u, h', hu, hd, rfl, -, -⟩ := Mutation.proposal_eq_ok hq
  have hquiet := m.decide_quiet u.doc s.host
  rw [hd] at hquiet
  obtain ⟨rng, syscalls, rfl⟩ := hquiet.eq
  cases commitWith_ends hc with
  | refused => exact ⟨rfl, rfl⟩
  | cut => exact ⟨rfl, rfl⟩

omit [LawfulCrypto] in
/-- A step that is no save replaces the vault file by what was committed. -/
theorem World.next_committed {w : World} {st : Step} (hst : st.input ≠ .call .save) :
    (w.next st).host.vaultFile = w.host.vaultFile ∨ ∃ a t', st.Attempts w a ∧
      (commitWith a.doc a.record a.priority).run a.state = (.ok (), t') ∧
      (w.next st).host.vaultFile = t'.host.vaultFile := by
  rcases st with ⟨conditions, input⟩
  cases input with
  | @call α call =>
    cases hs : w.sys conditions with
    | none =>
      simp only [World.next, hs]
      exact Or.inl rfl
    | some s =>
      have hfile := World.vaultFile_of_sys hs
      have hhost : (World.ran (call.exec.run s)).host = (call.exec.run s).2.host := by
        rcases call.exec.run s with ⟨o | e | _, t⟩ <;> rfl
      simp only [World.next, hs, hhost]
      have hcommitted : Committed (call.rights s) s (call.exec.run s).2 := by
        by_cases hup : call.Keeps
        · cases call with
          | gcTerminalCredentials =>
            rw [Call.exec, SecretsVault.gcTerminalCredentials, run_get_bind]
            split
            · exact Or.inl rfl
            · exact Or.inl rfl
          | save => exact (hst rfl).elim
          | _ => exact hup.elim
        · exact (call.acts s).committed hup
      rcases hcommitted with hf | ⟨a, t', ha, hr, hf⟩
      · exact Or.inl (hf.trans hfile)
      · exact Or.inr ⟨a, t', ⟨s, hs, ha⟩, hr, hf⟩
  | restart idleTimeout =>
    have hsame := load_sameFile idleTimeout ((w.host.under conditions).releaseVault)
    rcases hr : (Session.load idleTimeout).run ((w.host.under conditions).releaseVault) with ⟨s | e' | _, h'⟩ <;>
      rw [hr] at hsame <;> simp only [World.next, hr] <;> exact Or.inl hsame.vaultFile

/-- In every run of a created vault that stores what it seals: a mutation whose commit fails leaves the document in
memory and the vault file as they were; the vault file is replaced by a commit that succeeds, or by a save; and whatever
was locked, or failed, in between, an unlock serves the document of the vault file. -/
theorem failed_commits_leave_no_trace [LawfulVaultJson] {passphrase : Bytes} {idleTimeout : Nat} {h h' : Host}
    {s : Session} (hr : (Session.create passphrase idleTimeout).run h = (.ok s, h')) {run : List Step}
    (hrun : World.Along (fun w st => st.Stores w) ⟨some s, h'⟩ run) {c : Conditions} {s1 : Sys}
    (hs : (World.after ⟨some s, h'⟩ run).sys c = some s1) :
    (∀ {α : Type} (m : Mutation α) (q : Proposal α) (s2 t : Sys) (e : VaultError), m.proposal.run s1 = (.ok q, s2) →
      (commitWith q.doc q.record q.priority).run s2 = (.error e, t) →
      t.session.document = s1.session.document ∧ t.host.vaultFile = s1.host.vaultFile) ∧
    (∀ input : Input, input ≠ .call .save →
      ((World.after ⟨some s, h'⟩ run).next ⟨c, input⟩).host.vaultFile = s1.host.vaultFile ∨
      ∃ a t, (⟨c, input⟩ : Step).Attempts (World.after ⟨some s, h'⟩ run) a ∧
        (commitWith a.doc a.record a.priority).run a.state = (.ok (), t) ∧
        ((World.after ⟨some s, h'⟩ run).next ⟨c, input⟩).host.vaultFile = t.host.vaultFile) ∧
    ∀ (derived : DerivedKeks) (t : Sys), (unlockWithProof derived).run s1 = (.ok (), t) →
      ∃ e u, s1.host.vaultFile = some (Envelope.toBytes e) ∧ openVault e derived s1.host.auditFile = .ok u ∧
        t.session.document = some u.doc := by
  obtain ⟨u, w, entry, hc⟩ := create_eq_ok hr
  have hstart : World.Agrees ⟨some s, h'⟩ := ⟨s.envelope, hc.wf, hc.vaultFile, fun _ hs => by cases hs; rfl⟩
  have hagrees := (hstart.run hrun).sys hs
  refine ⟨fun m q s2 t e hq hc => Mutation.commit_failed hq hc, fun input hinput => ?_, fun derived t ht => ?_⟩
  · rw [World.vaultFile_of_sys hs]
    exact World.next_committed hinput
  · obtain ⟨u, hu, ht⟩ := unlockWithProof_eq_ok ht
    refine ⟨_, u, hagrees.file, hu, ?_⟩
    rw [Session.document, ht]
    rfl

end

namespace Reference

/-- An agent is added. -/
def agentAdded : List Step := [⟨conditions, .call (.mutate (.agentAdd "human" "a"))⟩]

/-- An agent is added, a project is to be added and its entry cannot be written, and the vault is locked. -/
def projectRefused : List Step :=
  agentAdded ++ [⟨noAppend, .call (.mutate (.projectAdd "human" "p" []))⟩, ⟨conditions, .call .lockPersist⟩]

end Reference

/-- The document in memory and the file are what they were before the project that is refused; what is served after the
lock is the document of the file, with the agent and without the project. -/
theorem failed_commits_leave_no_trace_created :
    ∃ s h' s1, ∃ (q : Proposal String) (s2 : Sys) (e : VaultError) (t s3 t' : Sys),
    (Session.create Reference.passphrase 0).run Reference.healthy = (.ok s, h') ∧
    (World.after ⟨some s, h'⟩ Reference.agentAdded).sys Reference.noAppend = some s1 ∧
    (Mutation.projectAdd "human" "p" []).proposal.run s1 = (.ok q, s2) ∧
    (commitWith q.doc q.record q.priority).run s2 = (.error e, t) ∧
    t.session.document = s1.session.document ∧ t.host.vaultFile = s1.host.vaultFile ∧
    (World.after ⟨some s, h'⟩ Reference.projectRefused).sys Reference.conditions = some s3 ∧
    (unlock Reference.passphrase).run s3 = (.ok (), t') ∧
    ∃ derived env u, s3.host.vaultFile = some (Envelope.toBytes env) ∧ openVault env derived s3.host.auditFile = .ok u ∧
      t'.session.document = some u.doc ∧ u.doc.agents ≠ [] ∧ u.doc.projects = [] := by
  obtain ⟨s, h', u, hr, -, hp, hstands⟩ := Reference.stands_created
  have hsmall : Reference.Compact (lockAll 0 Reference.withAgent) := by decide +kernel
  have hagent := hstands.mutate (by omega) Reference.lands_agentAdd
  obtain ⟨s1, q, s2, e, t, hs1, hprop, hcommit, hnext, hrefused⟩ := hagent.refuses (by omega) (fun _ => rfl)
    (Reference.decides_projectAdd _) trivial Reference.small_enroll.2.1.1
  obtain ⟨s3, t', hs3, hunlock, hserved⟩ := (hrefused.lock (by omega) hsmall).unlocks (by omega) hp
  rw [← hnext] at hs3 hunlock
  -- what is sealed on the way is stored
  have hstores : World.Along (fun w st => st.Stores w) ⟨some s, h'⟩ Reference.agentAdded :=
    ⟨Call.stores_of_attempts id (hstands.lands_stores (by omega) Reference.lands_agentAdd), trivial⟩
  have hlocks := hrefused.lock_stores (by omega) hsmall
  rw [← hnext] at hlocks
  have hstores' : World.Along (fun w st => st.Stores w) ⟨some s, h'⟩ Reference.projectRefused :=
    World.Along.append.mpr ⟨hstores, Call.stores_of_attempts id (hagent.mutate_stores (by omega)
      Reference.noAppend_whole (Option.some_ne_none _) rfl trivial (Reference.decides_projectAdd _)
      Reference.small_enroll.2.1.2),
      Call.stores_of_attempts id hlocks, trivial⟩
  -- the commit that fails, and the unlock at the end
  have hsys := Reference.sys_of_session hs1 Reference.noAppend
  obtain ⟨hfailed, -, -⟩ := failed_commits_leave_no_trace hr hstores hsys
  obtain ⟨hdocument, hfile⟩ := hfailed _ q s2 t e hprop hcommit
  have hsys' := Reference.sys_of_session hs3 Reference.conditions
  obtain ⟨-, -, hserves⟩ := failed_commits_leave_no_trace hr hstores' hsys'
  obtain ⟨recipe, derived, -, -, hproof⟩ := unlock_proof hunlock
  obtain ⟨env, u', henv, hopen, hdoc⟩ := hserves derived t' hproof
  obtain ⟨head, hlast⟩ := hserved.document
  have hu' : u'.doc = (lockAll 0 Reference.withAgent).withHead (some head) := Option.some.inj (hdoc.symm.trans hlast)
  refine ⟨s, h', _, q, s2, e, t, _, t', hr, hsys, hprop, hcommit, hdocument, hfile, hsys', hunlock, derived, env,
    u', henv, hopen, hdoc, ?_, ?_⟩
  · rw [hu']
    exact List.cons_ne_nil _ _
  · rw [hu']
    rfl

/-- The commit of a new agent fails at its save: the document in memory has no agent, and the one that is served after
the next unlock has it. -/
theorem failed_commit_is_served : ∃ s h', ∃ (q : Proposal (String × String)) (s1 : Sys) (e : VaultError) (t t' : Sys),
    (Session.create Reference.passphrase 0).run Reference.healthy = (.ok s, h') ∧
    (Mutation.agentAdd "human" "a").proposal.run ⟨s, h'.under Reference.noSave⟩ = (.ok q, s1) ∧
    (commitWith q.doc q.record q.priority).run s1 = (.error e, t) ∧
    (∃ d, t.session.document = some d ∧ d.agents = []) ∧
    (unlock Reference.passphrase).run ⟨t.session, t.host.under Reference.conditions⟩ = (.ok (), t') ∧
    ∃ d, t'.session.document = some d ∧ d.agents ≠ [] := by
  obtain ⟨s, h', u, hr, hu, hp, hstands⟩ := Reference.stands_created
  obtain ⟨s0, q, s1, e, t, hs, hprop, hcommit, hcut⟩ := hstands.fails (by omega) (Reference.decides_agentAdd _) trivial
    Reference.small_enroll.1.1 Reference.small_enroll.1.2
  cases hs
  obtain ⟨s2, t', hs2, hunlock, hserved⟩ := hcut.unlocks (by omega) hp
  cases hs2
  obtain ⟨head, hd⟩ := hcut.document
  obtain ⟨head', hd'⟩ := hserved.document
  exact ⟨s, h', q, s1, e, t, t', hr, hprop, hcommit, ⟨_, hd, rfl⟩, hunlock, _, hd', List.cons_ne_nil _ _⟩

end SecretsVault
