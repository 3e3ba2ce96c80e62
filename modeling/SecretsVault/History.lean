import SecretsVault.Coherence

/-!
# Where live capabilities come from

A lease that is not revoked was minted by a step of the run, an open approval was requested by one, and a human session
was opened by one.

- `World.Sometime P w run`: some step of the run has `P`, in the world it is taken in.
- `Step.Attempts.leases`, `Step.Attempts.approvals`: what a step commits has the capabilities of the document it found,
  and those it makes itself.
- `sessionOpen_table`: a session that is new in the table was opened by the call.
-/

namespace SecretsVault

open Lib Lib.Prog Lib.Copies Host VaultDocument

section

variable [Crypto] [VaultJson] [AuditJson]

/-! ## Steps of a run -/

/-- Some step of the run has the property, in the world it is taken in. -/
def World.Sometime (P : World → Step → Prop) (w : World) : List Step → Prop
  | [] => False
  | st :: run => P w st ∨ (w.next st).Sometime P run

variable {P : World → Step → Prop} {w : World} {st : Step}

theorem World.sometime_append {a b : List Step} :
    w.Sometime P (a ++ b) ↔ w.Sometime P a ∨ (w.after a).Sometime P b := by
  induction a generalizing w with
  | nil => simp [Sometime]
  | cons st a ih => simp only [List.cons_append, Sometime, ih, World.after_cons, or_assoc]

theorem World.sometime_concat {run : List Step} : w.Sometime P (run ++ [st]) ↔ w.Sometime P run ∨
    P (w.after run) st := by
  simp [World.sometime_append, Sometime]

/-- What the step proposes to make of the document it found, by a mutation. -/
def Step.Decides {α : Type} (st : Step) (w : World) (m : Mutation α) (doc doc' : VaultDocument) (ans : α) : Prop :=
  st.input = .call (.mutate m) ∧ ∃ s t q, w.sys st.conditions = some s ∧ s.session.document = some doc ∧
    m.proposal.run s = (.ok q, t) ∧ q.doc = doc' ∧ q.answer = ans

/-- A mutation is called for. -/
def Input.mutates : Input → Bool
  | .call (.mutate _) => true
  | _ => false

theorem Step.Decides.mutates {α : Type} {m : Mutation α} {doc doc' : VaultDocument} {ans : α}
    (h : st.Decides w m doc doc' ans) : st.input.mutates = true := by
  rw [h.1]
  rfl

/-- What was proposed was decided on the document. -/
theorem Step.Decides.effect {α : Type} {m : Mutation α} {doc doc' : VaultDocument} {ans : α}
    (h : st.Decides w m doc doc' ans) : m.Effect st.conditions.wall doc doc' ans := by
  obtain ⟨-, s, t, q, hs, hdoc, hq, rfl, rfl⟩ := h
  obtain ⟨u, h', hu, hd, -⟩ := Mutation.proposal_eq_ok hq
  rw [Session.document, hu] at hdoc
  cases hdoc
  rw [← World.wall_of_sys hs]
  exact Mutation.decide_effect hd

/-- The step mints the lease. -/
def Step.MintsLease (l : Lease) (w : World) (st : Step) : Prop :=
  ∃ actor agentId project ops ttlSecs credential doc doc',
    st.Decides w (.leaseCreate actor agentId project ops ttlSecs) doc doc' (l, credential)

/-- The step requests the approval. -/
def Step.Requests (a : Approval) (w : World) (st : Step) : Prop :=
  ∃ actor agentId project key doc doc', st.Decides w (.approvalRequest actor agentId project key) doc doc' a

/-- The step approves a pending approval, which becomes `a`. -/
def Step.Approves (a : Approval) (w : World) (st : Step) : Prop :=
  ∃ actor approvalId doc doc' x, st.Decides w (.approvalDecide actor approvalId true) doc doc' () ∧ x ∈ doc.approvals ∧
    x.id = approvalId ∧ x.status = .pending ∧ st.conditions.wall < x.pendingExpiresAt ∧
    a = x.approvedAtTime st.conditions.wall

/-! ## Leases and approvals -/

omit [Crypto] [VaultJson] [AuditJson] in
theorem document_of_unlocked {s : Session} {u : Unlocked} (hu : s.unlocked = some u) : s.document = some u.doc := by
  rw [Session.document, hu]
  rfl

/-- What a step commits adds no capability to the document it found, or is what the step decided on it. -/
theorem Step.Attempts.decides {a : Attempt} (h : st.Attempts w a) : ∃ s doc, w.sys st.conditions = some s ∧
    s.session.document = some doc ∧ (LeasesFrom doc a.doc ∧ ApprovalsFrom doc a.doc ∨
      ∃ (α : Type) (m : Mutation α) (ans : α), st.Decides w m doc a.doc ans) := by
  rcases st with ⟨conditions, call | _⟩
  swap
  · exact h.elim
  obtain ⟨s, hs, ha⟩ := h
  have hlock : ∀ {u : Unlocked}, s.session.unlocked = some u → ∃ s' doc, w.sys conditions = some s' ∧
      s'.session.document = some doc ∧ (LeasesFrom doc (lockAll s.host.wall u.doc) ∧
        ApprovalsFrom doc (lockAll s.host.wall u.doc) ∨ ∃ (α : Type) (m : Mutation α) (ans : α),
          (⟨conditions, .call call⟩ : Step).Decides w m doc (lockAll s.host.wall u.doc) ans) := fun hu =>
    ⟨s, _, hs, document_of_unlocked hu, Or.inl ⟨leasesFrom_revokeLeases _ _ _,
      fun x hx ho => (@mem_denyApprovals (fun _ => true) _ _ hx ho).1⟩⟩
  rcases ha with ⟨-, -, u, hu, rfl⟩ | ha
  · exact hlock hu
  · cases call with
    | mutate m =>
      obtain ⟨q, t, hq, rfl⟩ := ha
      obtain ⟨u, h', hu, hd, rfl, -⟩ := Mutation.proposal_eq_ok hq
      exact ⟨s, _, hs, document_of_unlocked hu,
        Or.inr ⟨_, m, q.answer, rfl, s, _, q, hs, document_of_unlocked hu, hq, rfl, rfl⟩⟩
    | authorizeLease agentId project op credential =>
      obtain ⟨-, u, leaseId, hu, hv, rfl⟩ := ha
      refine ⟨s, _, hs, document_of_unlocked hu, Or.inl ⟨invalidateLease_from _ _ _, ?_⟩⟩
      dsimp only
      unfold invalidateLease
      split <;> exact ApprovalsFrom.refl _
    | lockPersist =>
      obtain ⟨u, hu, rfl⟩ := ha
      exact hlock hu
    | _ => exact ha.elim

/-- A lease that a step commits unrevoked was there before, or is minted. -/
theorem Step.Attempts.leases {a : Attempt} (h : st.Attempts w a) : ∃ s doc, w.sys st.conditions = some s ∧
    s.session.document = some doc ∧ ∀ l ∈ a.doc.leases, l.revokedAt = none → l ∈ doc.leases ∨ st.MintsLease l w := by
  obtain ⟨s, doc, hs, hdoc, ⟨hl, -⟩ | ⟨α, m, ans, hd⟩⟩ := h.decides
  · exact ⟨s, doc, hs, hdoc, fun l hl' hr => Or.inl (hl l hl' hr)⟩
  · refine ⟨s, doc, hs, hdoc, fun l hl hr => ?_⟩
    rcases hd.effect.leases hl hr with hl | hm
    · exact Or.inl hl
    · cases m with
      | leaseCreate actor agentId project ops ttlSecs =>
        obtain ⟨lease, credential⟩ := ans
        obtain rfl : l = lease := hm
        exact Or.inr ⟨actor, agentId, project, ops, ttlSecs, credential, doc, _, hd⟩
      | _ => exact hm.elim

/-- An approval that a step commits open was there before, is requested, or is approved. -/
theorem Step.Attempts.approvals {a : Attempt} (h : st.Attempts w a) : ∃ s doc, w.sys st.conditions = some s ∧
    s.session.document = some doc ∧ ∀ x ∈ a.doc.approvals, x.status.open_ = true →
      x ∈ doc.approvals ∨ st.Requests x w ∨ st.Approves x w := by
  obtain ⟨s, doc, hs, hdoc, ⟨-, hx⟩ | ⟨α, m, ans, hd⟩⟩ := h.decides
  · exact ⟨s, doc, hs, hdoc, fun x hx' ho => Or.inl (hx x hx' ho)⟩
  · refine ⟨s, doc, hs, hdoc, fun x hx ho => ?_⟩
    rcases hd.effect.approvals hx ho with hx | hm | hm
    · exact Or.inl hx
    · cases m with
      | approvalRequest actor agentId project key =>
        obtain rfl : x = ans := hm
        exact Or.inr (Or.inl ⟨actor, agentId, project, key, doc, _, hd⟩)
      | _ => exact hm.elim
    · cases m with
      | approvalDecide actor approvalId approve =>
        obtain ⟨rfl, y, hy, hid, hst, hlt, rfl⟩ := hm
        exact Or.inr (Or.inr ⟨actor, approvalId, doc, _, y, hd, hy, hid, hst, hlt, rfl⟩)
      | _ => exact hm.elim

/-! ## Human sessions -/

variable {p : Rights} {s t : Sys}

/-- Without minting no digest comes into the table. -/
theorem Act.table_sub (h : Act p s t) (hp : ¬p.mints) :
    (t.session.sessions.map (·.1)).Sublist (s.session.sessions.map (·.1)) := by
  have same {t : Sys} (heq : t.session.sessions = s.session.sessions) :
      (t.session.sessions.map (·.1)).Sublist (s.session.sessions.map (·.1)) := by rw [heq]
  cases h with
  | append hev hmac =>
    obtain ⟨l, f, q, ht⟩ := onAudit_recorded (appendEvent_auditOnly _ _ _) s
    rw [ht]
  | @commit doc record priority hc =>
    rcases hr : (commitWith doc record priority).run s with ⟨o, t⟩
    cases commitWith_ends hr <;> exact same rfl
  | lock => exact List.nil_sublist _
  | table _ ht => exact ht.resolve_left hp
  | host | clock | limits | unlock | sweep => exact same rfl
  | @store u hup hu =>
    rcases hr : (storeAsIs u).run s with ⟨o, t⟩
    cases storeAsIs_ends hr <;> exact same rfl

theorem Acts.table_sub (h : Acts p s t) (hp : ¬p.mints) :
    (t.session.sessions.map (·.1)).Sublist (s.session.sessions.map (·.1)) := by
  induction h with
  | refl => exact List.Sublist.refl _
  | tail _ ha ih => exact (ha.table_sub hp).trans ih

omit [VaultJson] in
/-- What recording a denial leaves of a session. -/
theorem deny_recorded {β : Type} (actor op : String) (project : Option String) (keys : List String) (err : VaultError) :
    Keeps Sys.Recorded (deny actor op project keys err : SessionProg β) :=
  (auditRecordWith_recorded _ _).ignore.bind fun _ => keeps_fail _

omit [Crypto] [VaultJson] [AuditJson] in
theorem remove_insert_sublist (m : DigestMap HumanSession) (d : Digest) (e : HumanSession) :
    ((m.insert d e).remove d).Sublist m := by
  rw [DigestMap.insert, DigestMap.remove, List.filter_cons_of_neg (by simp)]
  exact List.filter_sublist.trans List.filter_sublist

omit [VaultJson] in
/-- How opening a session ends: minted, refused, or in a panic. A refusal may have made room. -/
theorem sessionOpen_ends {actor : String} {ttlSecs : Nat} {o : Outcome VaultError (String × String × Nat × Nat)}
    (h : (sessionOpen actor ttlSecs).run s = (o, t)) (ho : o ≠ .panic) :
    (∃ e, o = .error e ∧ t.session.sessions.Sublist s.session.sessions) ∨
      ∃ credential displayPrefix, o = .ok (credential, displayPrefix, ttlSecs, SESSION_MAX_TTL_SECS) ∧
        s.session.isLocked = false ∧ 1 ≤ ttlSecs ∧ ttlSecs ≤ SESSION_MAX_TTL_SECS ∧
        t.session.sessions = (s.session.makeRoom s.host.mono).sessions.insert (tokenDigest credential)
          ⟨displayPrefix, s.host.mono, s.host.mono, ttlSecs⟩ ∧
        t.session.unlocked = s.session.unlocked ∧ t.host.mono = s.host.mono := by
  have denied {err : VaultError} (h : (deny actor "session.open" none [] err : SessionProg _).run s = (o, t)) :
      ∃ e, o = .error e ∧ t.session.sessions.Sublist s.session.sessions := by
    have hrec : Sys.Recorded s ((deny actor "session.open" none [] err :
        SessionProg (String × String × Nat × Nat)).run s).2 := deny_recorded actor "session.open" none [] err s
    rw [h] at hrec
    obtain ⟨audit, auditFile, appends, rfl⟩ := hrec
    cases o with
    | ok a => exact (deny_ne_ok h).elim
    | error e => exact ⟨e, rfl, List.Sublist.refl _⟩
    | panic => exact (ho rfl).elim
  rw [sessionOpen, run_get_bind] at h
  split at h
  · exact Or.inl (denied h)
  rename_i hopen
  split at h
  · exact Or.inl (denied h)
  rename_i httl
  obtain ⟨room, hroom, hsub⟩ := makeRoom_sub s.session s.host.mono
  have hkept : (s.session.makeRoom s.host.mono).sessions.Sublist s.session.sessions := by
    rw [hroom]
    exact hsub
  rw [modifySession, run_modify_bind, run_get_bind, run_bind, run_lift] at h
  generalize AuditLog.stage _ _ _ _ _ = staged at h
  cases staged with
  | panic =>
    cases h
    exact (ho rfl).elim
  | error e =>
    cases h
    exact Or.inl ⟨e, rfl, hkept⟩
  | ok staged =>
    dsimp only at h
    rw [run_bind, onHost, run_zoom] at h
    have hquiet := generateCapability_quiet s.host
    rcases hcap : generateCapability.run s.host with ⟨⟨credential, digest, displayPrefix⟩ | e | _, h1⟩ <;>
      rw [hcap] at h hquiet <;> dsimp only at h
    · obtain ⟨rng, syscalls, rfl⟩ := hquiet.eq
      have hdigest := generateCapability_eq_ok hcap
      subst hdigest
      rw [modifySession, run_modify_bind, run_bind, run_attempt] at h
      dsimp only at h
      generalize hs1 : (⟨_, _⟩ : Sys) = s1 at h
      have hrec := onAudit_recorded (appendStaged_auditOnly staged) s1
      rcases happ : (onAudit (AuditLog.appendStaged staged)).run s1 with ⟨_ | e | _, s2⟩ <;> rw [happ] at h hrec <;>
        dsimp only at h
      · obtain ⟨audit, auditFile, appends, rfl⟩ := hrec
        cases h
        subst hs1
        refine Or.inr ⟨credential, displayPrefix, rfl, by simpa using hopen, by omega, by omega, rfl, ?_, rfl⟩
        rw [hroom]
      · obtain ⟨audit, auditFile, appends, rfl⟩ := hrec
        cases h
        subst hs1
        exact Or.inl ⟨_, rfl, (remove_insert_sublist _ _ _).trans hkept⟩
      · cases h
        exact (ho rfl).elim
    · cases h
      exact Or.inl ⟨e, rfl, hkept⟩
    · cases h
      exact (ho rfl).elim

/-- The step opens a session, with a credential of the digest. -/
def Step.Opens (d : Digest) (w : World) (st : Step) : Prop :=
  ∃ actor ttlSecs s t credential displayPrefix, st.input = .call (.sessionOpen actor ttlSecs) ∧
    w.sys st.conditions = some s ∧ tokenDigest credential = d ∧
    (sessionOpen actor ttlSecs).run s = (.ok (credential, displayPrefix, ttlSecs, SESSION_MAX_TTL_SECS), t)

/-- The process behind a call is where the call ended, without a panic. -/
theorem World.next_call_session {conditions : Conditions} {α : Type} {call : Call α} {s' : Session}
    (hs' : (w.next ⟨conditions, .call call⟩).session = some s') :
    ∃ s o t, w.session = some s.session ∧ w.sys conditions = some s ∧ call.exec.run s = (o, t) ∧ o ≠ .panic ∧
    t.session = s' := by
  cases hs : w.sys conditions with
  | none =>
    have hnone : w.session = none := by simpa [World.sys] using hs
    simp only [World.next, hs] at hs'
    rw [hnone] at hs'
    cases hs'
  | some s =>
    have hw := World.session_of_sys hs
    simp only [World.next, hs] at hs'
    rcases hr : call.exec.run s with ⟨o, t⟩
    rw [hr] at hs'
    refine ⟨s, o, t, hw, rfl, hr, ?_, ?_⟩ <;> cases o <;> cases hs' <;> simp

/-- A new process has no human session. -/
theorem World.next_restart_session {conditions : Conditions} {idleTimeout : Nat} {s' : Session}
    (hs' : (w.next ⟨conditions, .restart idleTimeout⟩).session = some s') : s'.sessions = [] := by
  rcases hr : (Session.load idleTimeout).run ((w.host.under conditions).releaseVault) with ⟨s | e' | _, h'⟩ <;>
    simp only [World.next, hr] at hs' <;> cases hs'
  obtain ⟨-, audit, now, -, -, -, hstart⟩ := load_eq_ok hr
  rw [hstart]
  rfl

/-- The digests in the table of a process were there before, or are of the session the step opens. -/
theorem World.next_table {s' : Session} (hs' : (w.next st).session = some s') {e : Digest × HumanSession}
    (he : e ∈ s'.sessions) : st.Opens e.1 w ∨ ∃ s, w.session = some s ∧ ∃ e' ∈ s.sessions, e'.1 = e.1 := by
  rcases st with ⟨conditions, input⟩
  cases input with
  | @call α call =>
    obtain ⟨s, o, t, hw, hs, hr, ho, ht⟩ := World.next_call_session hs'
    subst ht
    by_cases hm : call.Mints
    · cases call with
      | sessionOpen actor ttlSecs =>
        rcases sessionOpen_ends hr ho with ⟨-, -, hsub⟩ | ⟨credential, displayPrefix, rfl, -, -, -, htable, -⟩
        · exact Or.inr ⟨s.session, hw, e, hsub.subset he, rfl⟩
        · rw [htable] at he
          rcases List.mem_cons.mp he with rfl | he
          · exact Or.inl ⟨actor, ttlSecs, s, t, credential, displayPrefix, rfl, hs, rfl, hr⟩
          · obtain ⟨room, hroom, hsub⟩ := makeRoom_sub s.session s.host.mono
            rw [hroom] at he
            exact Or.inr ⟨s.session, hw, e, hsub.subset (mem_remove he), rfl⟩
      | _ => exact hm.elim
    · have hacts := call.acts s
      rw [hr] at hacts
      obtain ⟨e', he', heq⟩ := List.mem_map.mp ((hacts.table_sub hm).subset (List.mem_map_of_mem he))
      exact Or.inr ⟨s.session, hw, e', he', heq⟩
  | restart idleTimeout =>
    rw [World.next_restart_session hs'] at he
    cases he

/-- The digests of a process whose table was empty at the beginning of a run were opened in it. -/
theorem World.after_table (run : List Step) (h0 : ∀ s, w.session = some s → s.sessions = []) {s' : Session}
    (hs' : (w.after run).session = some s') : ∀ e ∈ s'.sessions, w.Sometime (Step.Opens e.1) run := by
  induction run using List.reverseRecOn generalizing s' with
  | nil =>
    intro e he
    rw [h0 s' hs'] at he
    cases he
  | append_singleton run st ih =>
    intro e he
    rw [World.after_append, World.after_cons, World.after_nil] at hs'
    rw [World.sometime_concat]
    rcases World.next_table hs' he with hopen | ⟨s, hs, e', he', heq⟩
    · exact Or.inr hopen
    · rw [← heq]
      exact Or.inl (ih hs e' he')

/-! ## What is accepted -/

/-- An accepted lease is live in the document in memory, and its grant covers it. -/
theorem authorizeLease_eq_ok {agentId project actor : String} {op : Op} {credential : Option String}
    (h : (authorizeLease agentId project op credential).run s = (.ok actor, t)) :
    ∃ u, s.session.unlocked = some u ∧ leaseVerdict u.doc agentId project op credential s.host.wall = .allow actor := by
  obtain ⟨u, s1, h1, hk⟩ := bind_eq_ok h
  obtain ⟨hs1, hu, -⟩ := requireOpen_eq_ok h1
  subst hs1
  refine ⟨u, hu, ?_⟩
  rw [run_get_bind] at hk
  cases hv : leaseVerdict u.doc agentId project op credential s1.host.wall with
  | deny e =>
    rw [hv] at hk
    exact (deny_ne_ok hk).elim
  | invalidate leaseId =>
    rw [hv] at hk
    obtain ⟨_, _, _, hd⟩ := bind_eq_ok hk
    exact (deny_ne_ok hd).elim
  | allow leasedActor =>
    rw [hv] at hk
    obtain ⟨_, _, _, hp⟩ := bind_eq_ok hk
    cases hp
    rfl

/-- A claimed value is that of an approved approval of the document in memory, whose claim was committed. -/
theorem revealClaim_eq_ok {actor agentId project key approvalId : String} {value : Bytes}
    (h : (Call.mutate (.revealClaim actor agentId project key approvalId)).exec.run s = (.ok value, t)) :
    ∃ u doc, s.session.unlocked = some u ∧ claim u.doc agentId project key approvalId s.host.wall = .ok (doc, value) ∧
      (commitWith doc { actor, op := "reveal", project := some project, keys := [key], decision := .allowed }
        .ordinary).run s = (.ok (), t) := by
  rw [Call.exec, Mutation.exec_eq] at h
  obtain ⟨q, s1, hq, h⟩ := bind_eq_ok h
  obtain ⟨u, h', hu, hd, rfl, hrec, hprio⟩ := Mutation.proposal_eq_ok hq
  obtain ⟨_, s2, hc, h⟩ := bind_eq_ok h
  cases h
  rw [Mutation.decide, run_get_bind, run_lift, Prod.mk.injEq] at hd
  obtain ⟨hclaim, rfl⟩ := hd
  rw [hrec, hprio] at hc
  exact ⟨u, q.doc, hu, Outcome.ofExcept_eq_ok hclaim, hc⟩

omit [VaultJson] in
/-- A session that is valid is in the table, of an unlocked vault, and has not lapsed. -/
theorem validSession_eq_ok {op credential displayPrefix : String}
    (h : (validSession op credential).run s = (.ok displayPrefix, t)) : t = s ∧ s.session.isLocked = false ∧
      ∃ live, s.session.sessions.get? (tokenDigest credential) = some live ∧ live.lapsed s.host.mono = false ∧
        live.displayPrefix = displayPrefix := by
  obtain ⟨r, s1, h1, hk⟩ := bind_eq_ok h
  rw [run_attempt, validateSession, run_get_bind] at h1
  dsimp only at h1
  cases hg : s.session.sessions.get? (tokenDigest credential) with
  | none =>
    rw [hg] at h1
    cases h1
    exact (deny_ne_ok hk).elim
  | some live =>
    rw [hg] at h1
    dsimp only at h1
    by_cases hl : (s.session.isLocked || live.lapsed s.host.mono) = true
    · rw [if_pos hl] at h1
      cases h1
      exact (deny_ne_ok hk).elim
    · rw [if_neg hl] at h1
      cases h1
      cases hk
      simp only [Bool.or_eq_true, not_or, Bool.not_eq_true] at hl
      exact ⟨rfl, hl.1, live, rfl, hl.2, rfl⟩

omit [VaultJson] [Crypto] [AuditJson] in
theorem get?_some_mem {m : DigestMap HumanSession} {d : Digest} {live : HumanSession} (h : m.get? d = some live) :
    (d, live) ∈ m := by
  obtain ⟨⟨d', live'⟩, hf, rfl⟩ := Option.map_eq_some_iff.mp h
  have hd := List.find?_some hf
  simp only [beq_iff_eq] at hd
  subst hd
  exact List.mem_of_find?_eq_some hf

end

end SecretsVault
