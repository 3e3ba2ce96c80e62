import SecretsVault.Locking

/-!
# The registry of human sessions

`sessionOpen` makes room before it mints: what has lapsed goes, and at the cap also the session used longest ago, but
only that one.

- `Indifferent m`: a run of `m` ends in the same way whatever sessions are open.
- `Minted s t credential displayPrefix`: what a mint leaves of the sessions there were.
- `session_open_under_capacity`: every mint is one, a run that begins with no more sessions than the cap never has more,
  and how a mint ends does not depend on the sessions there are.
- `mint_over_capacity`, `mint_over_capacity_crowd`: a registry over its cap is not brought back to it.
-/

namespace SecretsVault

open Lib Lib.Prog Host

/-! ## Tables by digest -/

namespace DigestMap

variable {β : Type} {m : DigestMap β} {d : Digest} {b : β}

/-- An entry that passes a filter is found behind it. -/
theorem get?_filter {p : Digest × β → Bool} (h : m.get? d = some b) (hp : p (d, b) = true) :
    get? (m.filter p) d = some b := by
  obtain ⟨⟨d', b'⟩, hf, rfl⟩ := Option.map_eq_some_iff.mp h
  have hd : d' = d := by
    have hbeq := List.find?_some hf
    exact eq_of_beq hbeq
  subst hd
  rw [get?, List.find?_filter, Option.map_eq_some_iff]
  refine ⟨_, ?_, rfl⟩
  obtain ⟨-, before, after, rfl, hbefore⟩ := List.find?_eq_some_iff_append.mp hf
  rw [List.find?_eq_some_iff_append]
  refine ⟨by simp [hp], before, after, rfl, fun x hx => ?_⟩
  have hne := hbefore x hx
  simp only [Bool.not_eq_true'] at hne
  simp [hne]

theorem get?_remove_ne {other : Digest} (hne : d ≠ other) (h : m.get? d = some b) : (m.remove other).get? d = some b :=
  get?_filter h (by simpa using hne)

theorem get?_insert_self (m : DigestMap β) (d : Digest) (b : β) : (m.insert d b).get? d = some b := by
  simp [insert, get?]

theorem get?_insert_ne {other : Digest} (hne : d ≠ other) (c : β) (h : m.get? d = some b) :
    (m.insert other c).get? d = some b := by
  have hskip : (m.insert other c).get? d = (m.remove other).get? d := by
    have hfirst : (other == d) = false := beq_eq_false_iff_ne.mpr hne.symm
    simp only [insert, get?, List.find?_cons, hfirst]
  rw [hskip]
  exact get?_remove_ne hne h

theorem length_insert_le (m : DigestMap β) (d : Digest) (b : β) : (m.insert d b).length ≤ m.length + 1 := by
  rw [insert, List.length_cons]
  exact Nat.succ_le_succ (List.length_filter_le _ _)

/-- Dropping an entry makes the table shorter. -/
theorem length_remove_lt {e : Digest × β} (h : e ∈ m) : (m.remove e.1).length < m.length := by
  rw [remove, List.length_filter_lt_length_iff_exists]
  exact ⟨e, h, by simp⟩

end DigestMap

/-! ## Making room -/

namespace Session

/-- The entries whose windows have not passed. -/
def liveSessions (s : Session) (now : Instant) : DigestMap HumanSession := s.sessions.filter fun e => !e.2.lapsed now

/-- The registry accepts the credential of the digest. -/
def LiveAt (s : Session) (now : Instant) (d : Digest) : Prop :=
  s.isLocked = false ∧ ∃ e, s.sessions.get? d = some e ∧ e.lapsed now = false

variable {s : Session} {now : Instant}

theorem sweepLapsedSessions_open (now : Instant) (h : s.isLocked = false) :
    (s.sweepLapsedSessions now).sessions = s.liveSessions now := by
  simp only [sweepLapsedSessions, liveSessions, h, Bool.false_or]

/-- Which of two entries is kept was used no later than the other. -/
theorem lastUsed_of_older {a b : HumanSession} :
    (a.older b = true → a.lastUsed ≤ b.lastUsed) ∧ (a.older b = false → b.lastUsed ≤ a.lastUsed) := by
  simp only [HumanSession.older, Bool.or_eq_true, Bool.and_eq_true, decide_eq_true_eq, beq_iff_eq, Bool.or_eq_false_iff,
    Bool.and_eq_false_iff, decide_eq_false_iff_not]
  constructor
  · rintro (h | ⟨h, -⟩)
    · exact Nat.le_of_lt h
    · exact Nat.le_of_eq h
  · rintro ⟨h, -⟩
    exact Nat.le_of_not_lt h

/-- The entry that is kept by a walk over the table is in it and was used first. -/
theorem foldl_older (m : DigestMap HumanSession) (e : Digest × HumanSession) :
    ∃ o, m.foldl (fun o e => if o.2.older e.2 then o else e) e = o ∧ o ∈ e :: m ∧
      ∀ x ∈ e :: m, o.2.lastUsed ≤ x.2.lastUsed := by
  induction m generalizing e with
  | nil => exact ⟨e, rfl, List.mem_cons_self, fun x hx => by rw [List.mem_singleton.mp hx]⟩
  | cons b m ih =>
    obtain ⟨hkeep, htake⟩ := @lastUsed_of_older e.2 b.2
    rw [List.foldl_cons]
    cases ho : e.2.older b.2 with
    | true =>
      obtain ⟨o, heq, hmem, hleast⟩ := ih e
      rw [if_pos rfl]
      refine ⟨o, heq, ?_, fun x hx => ?_⟩
      · simp only [List.mem_cons] at hmem ⊢
        tauto
      · rcases List.mem_cons.mp hx with rfl | hx
        · exact hleast _ List.mem_cons_self
        · rcases List.mem_cons.mp hx with rfl | hx
          · exact (hleast e List.mem_cons_self).trans (hkeep ho)
          · exact hleast x (List.mem_cons_of_mem _ hx)
    | false =>
      obtain ⟨o, heq, hmem, hleast⟩ := ih b
      rw [if_neg Bool.false_ne_true]
      refine ⟨o, heq, List.mem_cons_of_mem _ hmem, fun x hx => ?_⟩
      rcases List.mem_cons.mp hx with rfl | hx
      · exact (hleast b List.mem_cons_self).trans (htake ho)
      · exact hleast x hx

theorem oldest_eq_some {m : DigestMap HumanSession} {d : Digest} (h : oldest m = some d) :
    ∃ e, (d, e) ∈ m ∧ ∀ x ∈ m, e.lastUsed ≤ x.2.lastUsed := by
  cases m with
  | nil => cases h
  | cons e m =>
    obtain ⟨o, heq, hmem, hleast⟩ := foldl_older m e
    simp only [oldest, heq, Option.some.injEq] at h
    subst h
    exact ⟨o.2, hmem, hleast⟩

/-- What making room leaves: what is live, or at the cap what is live but the one used first. -/
theorem makeRoom_open (now : Instant) (h : s.isLocked = false) :
    ((s.liveSessions now).length < MAX_SESSIONS ∧ (s.makeRoom now).sessions = s.liveSessions now) ∨
      ∃ d e, MAX_SESSIONS ≤ (s.liveSessions now).length ∧ (d, e) ∈ s.liveSessions now ∧
        (∀ x ∈ s.liveSessions now, e.lastUsed ≤ x.2.lastUsed) ∧
        (s.makeRoom now).sessions = (s.liveSessions now).remove d := by
  have hsweep := sweepLapsedSessions_open now h
  rw [makeRoom, hsweep]
  by_cases hfull : MAX_SESSIONS ≤ (s.liveSessions now).length
  · rw [if_pos hfull]
    cases ho : oldest (s.liveSessions now) with
    | none =>
      have hempty : s.liveSessions now = [] := by
        cases hl : s.liveSessions now with
        | nil => rfl
        | cons e m => rw [hl] at ho; cases ho
      rw [hempty] at hfull
      simp [MAX_SESSIONS] at hfull
    | some d =>
      obtain ⟨e, hmem, hleast⟩ := oldest_eq_some ho
      exact Or.inr ⟨d, e, hfull, hmem, hleast, rfl⟩
  · rw [if_neg hfull]
    exact Or.inl ⟨by omega, hsweep⟩

/-- There is room for one more, or as much as there was. -/
theorem length_makeRoom (h : s.isLocked = false) :
    (s.makeRoom now).sessions.length + 1 ≤ max MAX_SESSIONS (s.liveSessions now).length := by
  rcases makeRoom_open now h with ⟨hlen, hroom⟩ | ⟨d, e, -, hmem, -, hroom⟩
  · rw [hroom]
    omega
  · rw [hroom]
    have hlt : ((s.liveSessions now).remove d).length < (s.liveSessions now).length := DigestMap.length_remove_lt hmem
    omega

end Session

/-! ## Minting -/

section

variable [Crypto] [VaultJson] [AuditJson]

/-- What a mint leaves of the sessions there were. -/
structure Minted (s t : Sys) (credential displayPrefix : String) : Prop where
  /-- No more than the cap, unless more were live. -/
  bound : t.session.sessions.length ≤ max MAX_SESSIONS (s.session.liveSessions s.host.mono).length
  accepted : (authorizeSession credential).run t = (.ok (sessionActor displayPrefix), t)
  /-- What was live is, but for one at most, and that one was used first of a full registry. -/
  kept : ∃ victim : Option Digest,
    (∀ d, s.session.LiveAt s.host.mono d → victim ≠ some d → t.session.LiveAt t.host.mono d) ∧
    ∀ d, victim = some d → MAX_SESSIONS ≤ (s.session.liveSessions s.host.mono).length ∧
      ∃ e, (d, e) ∈ s.session.liveSessions s.host.mono ∧
        ∀ x ∈ s.session.liveSessions s.host.mono, e.lastUsed ≤ x.2.lastUsed

variable {s t : Sys}

omit [Crypto] [VaultJson] [AuditJson] in
/-- A session that was just minted has not lapsed. -/
theorem lapsed_new {ttlSecs : Nat} (displayPrefix : String) (now : Instant) (h : 1 ≤ ttlSecs) :
    (⟨displayPrefix, now, now, ttlSecs⟩ : HumanSession).lapsed now = false := by
  have hzero : asSecs (now - now) = 0 := by rw [Nat.sub_self]; rfl
  simp only [HumanSession.lapsed, hzero, Bool.or_eq_false_iff, decide_eq_false_iff_not]
  refine ⟨by omega, by decide⟩

omit [VaultJson] in
/-- A credential whose entry is live is valid. -/
theorem validSession_live {credential : String} {e : HumanSession} (op : String) (hopen : s.session.isLocked = false)
    (hget : s.session.sessions.get? (tokenDigest credential) = some e) (hlive : e.lapsed s.host.mono = false) :
    (validSession op credential).run s = (.ok e.displayPrefix, s) := by
  have hvalid : (validateSession credential).run s = (.ok e.displayPrefix, s) := by
    rw [validateSession, run_get_bind]
    dsimp only
    rw [hget]
    dsimp only
    rw [hopen, hlive]
    rfl
  rw [validSession, run_bind, run_attempt, hvalid]
  rfl

omit [VaultJson] in
/-- It is accepted. -/
theorem authorizeSession_live {credential : String} {e : HumanSession} (hopen : s.session.isLocked = false)
    (hget : s.session.sessions.get? (tokenDigest credential) = some e) (hlive : e.lapsed s.host.mono = false) :
    (authorizeSession credential).run s = (.ok (sessionActor e.displayPrefix), s) := by
  rw [authorizeSession, run_bind_ok (validSession_live _ hopen hget hlive)]
  rfl

omit [VaultJson] in
/-- A mint is one. -/
theorem sessionOpen_minted {actor credential displayPrefix : String} {ttlSecs ttl maxTtl : Nat}
    (h : (sessionOpen actor ttlSecs).run s = (.ok (credential, displayPrefix, ttl, maxTtl), t)) :
    Minted s t credential displayPrefix := by
  obtain ⟨e, he, -⟩ | ⟨credential', displayPrefix', heq, hopen, httl, -, htable, hunlocked, hmono⟩ :=
    sessionOpen_ends h (by simp)
  · cases he
  cases heq
  have hopen' : t.session.isLocked = false := by rw [Session.isLocked, hunlocked]; exact hopen
  have hnew := lapsed_new displayPrefix s.host.mono httl
  refine ⟨?_, ?_, ?_⟩
  · rw [htable]
    exact (DigestMap.length_insert_le _ _ _).trans (Session.length_makeRoom hopen)
  · refine authorizeSession_live hopen' ?_ (by rw [hmono]; exact hnew)
    rw [htable]
    exact DigestMap.get?_insert_self _ _ _
  · -- what is left in the room is live behind the mint, under its own entry or the new one
    have hstays : ∀ {d e}, (s.session.makeRoom s.host.mono).sessions.get? d = some e → e.lapsed s.host.mono = false →
        t.session.LiveAt t.host.mono d := by
      intro d e hget hlive
      rw [hmono]
      refine ⟨hopen', ?_⟩
      rw [htable]
      by_cases hd : d = tokenDigest credential
      · subst hd
        exact ⟨_, DigestMap.get?_insert_self _ _ _, hnew⟩
      · exact ⟨e, DigestMap.get?_insert_ne hd _ hget, hlive⟩
    have hfound : ∀ {d}, s.session.LiveAt s.host.mono d →
        ∃ e, (s.session.liveSessions s.host.mono).get? d = some e ∧ e.lapsed s.host.mono = false := by
      rintro d ⟨-, e, hget, hlive⟩
      exact ⟨e, DigestMap.get?_filter hget (by simpa using hlive), hlive⟩
    rcases Session.makeRoom_open s.host.mono hopen with ⟨-, hroom⟩ | ⟨d, e, hfull, hmem, hleast, hroom⟩
    · refine ⟨none, fun d hd _ => ?_, fun d hd => ?_⟩
      · obtain ⟨e, hget, hlive⟩ := hfound hd
        exact hstays (by rw [hroom]; exact hget) hlive
      · cases hd
    · refine ⟨some d, fun d' hd hne => ?_, fun d' hd => ?_⟩
      · obtain ⟨e', hget, hlive⟩ := hfound hd
        have hother : d' ≠ d := fun heq => hne (by rw [heq])
        exact hstays (by rw [hroom]; exact DigestMap.get?_remove_ne hother hget) hlive
      · cases hd
        exact ⟨hfull, e, hmem, hleast⟩

/-! ## What decides a mint -/

/-- The state with another registry. -/
def Sys.withTable (s : Sys) (table : DigestMap HumanSession) :
    Sys := { s with session := { s.session with sessions := table } }

/-- Runs from states that differ in the registry only end alike, in states that differ in it only. -/
def Indifferent {α : Type} (m : SessionProg α) : Prop :=
  ∀ s table, ∃ table', m.run (s.withTable table) = ((m.run s).1, (m.run s).2.withTable table')

variable {α β : Type} {m : SessionProg α}

omit [Crypto] [VaultJson] [AuditJson] in
theorem Indifferent.bind {f : α → SessionProg β} (hm : Indifferent m) (hf : ∀ a, Indifferent (f a)) :
    Indifferent (m >>= f) := by
  intro s table
  obtain ⟨table', h⟩ := hm s table
  rw [run_bind, run_bind, h]
  rcases m.run s with ⟨a | e | _, t⟩
  · exact hf a t table'
  · exact ⟨table', rfl⟩
  · exact ⟨table', rfl⟩

omit [Crypto] [VaultJson] [AuditJson] in
/-- What is done after a look at the state does not look at the registry. -/
theorem Indifferent.get {k : Sys → SessionProg β} (hk : ∀ s table, k (s.withTable table) = k s)
    (h : ∀ s, Indifferent (k s)) : Indifferent (Prog.get >>= k) := by
  intro s table
  rw [run_get_bind, run_get_bind, hk]
  exact h s s table

omit [Crypto] [VaultJson] [AuditJson] in
theorem indifferent_lift (o : Outcome VaultError α) : Indifferent (.lift o) := fun _ table => ⟨table, rfl⟩

omit [Crypto] [VaultJson] [AuditJson] in
theorem indifferent_onAudit (m : Prog VaultError (AuditLog × Host) α) : Indifferent (onAudit m) :=
  fun _ table => ⟨table, rfl⟩

omit [Crypto] [VaultJson] [AuditJson] in
theorem indifferent_onHost (m : Prog VaultError Host α) : Indifferent (onHost m) := fun _ table => ⟨table, rfl⟩

omit [Crypto] [VaultJson] [AuditJson] in
theorem Indifferent.attempt (hm : Indifferent m) : Indifferent m.attempt := by
  intro s table
  obtain ⟨table', h⟩ := hm s table
  refine ⟨table', ?_⟩
  rw [run_attempt, run_attempt, h]
  rcases m.run s with ⟨a | e | _, t⟩ <;> rfl

omit [Crypto] [VaultJson] [AuditJson] in
theorem Indifferent.ignore (hm : Indifferent m) : Indifferent m.ignore :=
  hm.attempt.bind fun _ => indifferent_lift (.ok ())

omit [Crypto] [VaultJson] [AuditJson] in
/-- The registry itself may be changed. -/
theorem indifferent_modify {f : Session → Session}
    (hf : ∀ s : Session, ∀ table, ∃ table', f { s with sessions := table } = { f s with sessions := table' }) :
    Indifferent (modifySession f) := by
  intro s table
  obtain ⟨table', h⟩ := hf s.session table
  refine ⟨table', ?_⟩
  change ((.ok (), { s with session := f { s.session with sessions := table } }) : Outcome VaultError Unit × Sys) = _
  rw [h]
  rfl

omit [VaultJson] in
theorem indifferent_deny (actor op : String) (project : Option String) (keys : List String) (err : VaultError) :
    Indifferent (deny actor op project keys err : SessionProg α) := by
  have hrec : ∀ record, Indifferent (auditRecord record) := fun record =>
    Indifferent.get (fun _ _ => rfl) fun _ => indifferent_onAudit _
  exact (hrec _).ignore.bind fun _ => indifferent_lift (.error err)

omit [VaultJson] in
/-- How a mint ends does not depend on the sessions there are. -/
theorem sessionOpen_indifferent (actor : String) (ttlSecs : Nat) : Indifferent (sessionOpen actor ttlSecs) := by
  refine Indifferent.get (fun _ _ => rfl) fun s => ?_
  by_cases hlocked : s.session.isLocked = true
  · rw [if_pos hlocked]
    exact indifferent_deny _ _ _ _ _
  rw [if_neg hlocked]
  by_cases httl : ttlSecs < 1 ∨ SESSION_MAX_TTL_SECS < ttlSecs
  · rw [if_pos httl]
    exact indifferent_deny _ _ _ _ _
  rw [if_neg httl]
  refine (indifferent_modify fun t table => ?_).bind fun _ => Indifferent.get (fun _ _ => rfl) fun s' => ?_
  · obtain ⟨room, hroom, -⟩ := makeRoom_sub { t with sessions := table } s.host.mono
    obtain ⟨room', hroom', -⟩ := makeRoom_sub t s.host.mono
    exact ⟨room, by rw [hroom, hroom']⟩
  refine (indifferent_lift _).bind fun staged => (indifferent_onHost _).bind fun cap => ?_
  refine (indifferent_modify fun t table => ⟨_, rfl⟩).bind fun _ => (indifferent_onAudit _).attempt.bind fun r => ?_
  cases r with
  | ok _ => exact indifferent_lift (.ok _)
  | error _ => exact (indifferent_modify fun t table => ⟨_, rfl⟩).bind fun _ => indifferent_lift (.error _)

/-! ## Reachable registries -/

variable {w : World} {st : Step}

/-- Where runs begin: no process is alive, or a vault was just created. -/
def World.Starts (w : World) : Prop :=
  w.session = none ∨ ∃ passphrase idleTimeout h h' s,
    (Session.create passphrase idleTimeout).run h = (.ok s, h') ∧ w = ⟨some s, h'⟩

/-- A step leaves no more sessions than the cap. -/
theorem World.next_bound (h : ∀ s, w.session = some s → s.sessions.length ≤ MAX_SESSIONS) {s' : Session}
    (hs' : (w.next st).session = some s') : s'.sessions.length ≤ MAX_SESSIONS := by
  rcases st with ⟨conditions, input⟩
  cases input with
  | @call α call =>
    obtain ⟨s, o, t, hw, -, hr, ho, ht⟩ := World.next_call_session hs'
    subst ht
    have hbefore := h _ hw
    by_cases hm : call.Mints
    · cases call with
      | sessionOpen actor ttlSecs =>
        rcases sessionOpen_ends hr ho with ⟨-, -, hsub⟩ | ⟨credential, displayPrefix, rfl, -⟩
        · exact hsub.length_le.trans hbefore
        · have hlive : (s.session.liveSessions s.host.mono).length ≤ s.session.sessions.length :=
            List.length_filter_le _ _
          have hbound := (sessionOpen_minted hr).bound
          omega
      | _ => exact hm.elim
    · have hacts := call.acts s
      rw [hr] at hacts
      have hlen := (hacts.table_sub hm).length_le
      rw [List.length_map, List.length_map] at hlen
      exact hlen.trans hbefore
  | restart idleTimeout =>
    rw [World.next_restart_session hs']
    exact Nat.zero_le _

theorem World.after_bound (hstart : w.Starts) (run : List Step) {s' : Session} (hs' : (w.after run).session = some s') :
    s'.sessions.length ≤ MAX_SESSIONS := by
  induction run using List.reverseRecOn generalizing s' with
  | nil =>
    rcases hstart with hnone | ⟨passphrase, idleTimeout, h, h', s, hr, rfl⟩
    · rw [World.after_nil, hnone] at hs'
      cases hs'
    · cases hs'
      rw [(create_session hr).2]
      exact Nat.zero_le _
  | append_singleton run st ih =>
    rw [World.after_append, World.after_cons, World.after_nil] at hs'
    exact World.next_bound (fun s hs => ih hs) hs'

/-- Every mint makes room for itself by dropping what has lapsed and at most one live session, in every run the registry
stays within its cap, and how a mint ends does not depend on the sessions there are. -/
theorem session_open_under_capacity :
    (∀ (s t : Sys) (actor credential displayPrefix : String) (ttlSecs ttl maxTtl : Nat),
      (sessionOpen actor ttlSecs).run s = (.ok (credential, displayPrefix, ttl, maxTtl), t) →
      Minted s t credential displayPrefix) ∧
    (∀ (w : World) (run : List Step) (s' : Session), w.Starts → (w.after run).session = some s' →
      s'.sessions.length ≤ MAX_SESSIONS) ∧
    ∀ (s : Sys) (table : DigestMap HumanSession) (actor : String) (ttlSecs : Nat),
      ((sessionOpen actor ttlSecs).run (s.withTable table)).1 = ((sessionOpen actor ttlSecs).run s).1 := by
  refine ⟨fun s t actor credential displayPrefix ttlSecs ttl maxTtl h => sessionOpen_minted h,
    fun w run s' hstart hs' => World.after_bound hstart run hs', fun s table actor ttlSecs => ?_⟩
  obtain ⟨table', h⟩ := sessionOpen_indifferent actor ttlSecs s table
  rw [h]

/-! ## A registry over its cap -/

/-- One entry a digest, as a map has. -/
def Session.Keyed (s : Session) : Prop := (s.sessions.map (·.1)).Nodup

omit [Crypto] [VaultJson] [AuditJson] in
/-- A digest has one entry to drop. -/
theorem length_le_remove {m : DigestMap HumanSession} (h : (m.map (·.1)).Nodup) (d : Digest) :
    m.length ≤ (m.remove d).length + 1 := by
  have hcount : (m.map (·.1)).count d ≤ 1 := List.nodup_iff_count.mp h d
  rw [List.count, List.countP_map] at hcount
  have hsplit := List.length_eq_length_filter_add (l := m) fun e => e.1 != d
  have hfilter : (m.filter fun e => !(e.1 != d)).length = m.countP ((· == d) ∘ (·.1)) := by
    rw [List.countP_eq_length_filter]
    congr 2
    funext e
    exact Bool.not_not _
  rw [hfilter] at hsplit
  rw [DigestMap.remove]
  omega

omit [VaultJson] in
/-- A mint drops one live session at most, and writes over one at most. -/
theorem mint_over_capacity {actor credential displayPrefix : String} {ttlSecs ttl maxTtl : Nat}
    (hkeyed : s.session.Keyed)
    (h : (sessionOpen actor ttlSecs).run s = (.ok (credential, displayPrefix, ttl, maxTtl), t)) :
    (s.session.liveSessions s.host.mono).length ≤ t.session.sessions.length + 1 := by
  obtain ⟨e, he, -⟩ | ⟨credential', displayPrefix', -, hopen, -, -, htable, -⟩ := sessionOpen_ends h (by simp)
  · cases he
  have hlive : ((s.session.liveSessions s.host.mono).map (·.1)).Nodup := (List.filter_sublist.map _).nodup hkeyed
  rw [htable, DigestMap.insert, List.length_cons]
  rcases Session.makeRoom_open s.host.mono hopen with ⟨-, hroom⟩ | ⟨d, e, -, -, -, hroom⟩
  · have hover := length_le_remove hlive (tokenDigest credential')
    rw [hroom]
    omega
  · have hdrop := length_le_remove hlive d
    have hrest : (((s.session.liveSessions s.host.mono).remove d).map (·.1)).Nodup :=
      (List.filter_sublist.map _).nodup hlive
    have hover := length_le_remove hrest (tokenDigest credential')
    rw [hroom]
    omega

end

namespace Reference

/-- The record of a mint. -/
def openRecord : Record := { actor := "human", op := "session.open", decision := .allowed }

/-- The credential of a mint that draws these bytes, and its prefix for display. -/
def credential (f : Nat → UInt8) : String := Crypto.base64Url (List.ofFn fun i : Fin 32 => f i)
def displayPrefix (f : Nat → UInt8) : String := hex ((tokenDigest (credential f)).1.take 4)

/-- A session opens in a small log. -/
theorem opens {v : Vault} {n : Nat} {s : Sys} (hs : v.Coherent s) (hl : s.session.audit.limits = .default)
    (hlog : Bounded v n s.host.auditFile) (hn : n < 100) (hopen : s.session.isLocked = false) (hwall : s.host.wall = 0)
    (happ : s.host.appends 0 = .ok) {f : Nat → UInt8} (hrng : s.host.rng 0 = some f) :
    ∃ audit auditFile appends, (sessionOpen "human" 300).run s = (.ok (credential f, displayPrefix f, 300, 1800),
        ⟨{ s.session with
            sessions := (s.session.makeRoom s.host.mono).sessions.insert (tokenDigest (credential f))
              ⟨displayPrefix f, s.host.mono, s.host.mono, 300⟩,
            audit },
          { s.host with auditFile, appends, rng := fun i => s.host.rng (i + 1) }⟩) ∧
      audit.limits = .default ∧ Bounded v (n + 1) auditFile := by
  obtain ⟨content, x, hf, ht, hch, hsync⟩ := hs.logs.sound.exists_chain
  obtain ⟨hlen, hseq⟩ := hlog content x hf hch
  have hbrief : Brief openRecord := by decide +kernel
  have hts : AuditLog.timestamp s.host.wall = .ok "1970-01-01T00:00:00Z" := by rw [hwall]; rfl
  obtain ⟨room, hroom, -⟩ := makeRoom_sub s.session s.host.mono
  have hstage : s.session.audit.stage openRecord s.session.auditKey .ordinary s.host =
      .ok (x.stage openRecord.event s.session.auditKey "1970-01-01T00:00:00Z") :=
    hch.stageEvent_fits hsync hf hts (fits .ordinary hl hlen hseq hn hbrief)
  have happend := AuditLog.appendStaged_run (h := { s.host with rng := fun i => s.host.rng (i + 1) })
    (x.stage_at (positioned_record openRecord) s.session.auditKey "1970-01-01T00:00:00Z") hch hsync hf
  dsimp only at happend
  rw [happ] at happend
  have hcap : generateCapability.run s.host = (.ok (credential f, tokenDigest (credential f), displayPrefix f),
      { s.host with rng := fun i => s.host.rng (i + 1) }) := by
    rw [generateCapability, run_bind, randomBytes, run_step, hrng]
    rfl
  rw [show s.host.auditFile = some content from hf] at hlog
  refine ⟨s.session.audit.advanced x (x.stage openRecord.event s.session.auditKey "1970-01-01T00:00:00Z"), _,
    fun i => s.host.appends (i + 1), ?_, hl, hlog.append hch ht hs.logs.key hn hbrief⟩
  rw [sessionOpen, run_get_bind, hopen, if_neg Bool.false_ne_true, if_neg (by decide), modifySession, run_modify_bind,
    run_get_bind]
  dsimp only
  rw [hroom, run_bind, run_lift]
  dsimp only [openRecord, Session.auditKey] at hstage happend ⊢
  rw [hstage]
  dsimp only
  rw [run_bind, onHost, run_zoom, hcap]
  dsimp only
  rw [modifySession, run_modify_bind, run_bind, run_attempt, onAudit, run_zoom]
  dsimp only
  rw [happend]
  rfl

/-- Two sessions more than the cap, all of them new. -/
def crowd : DigestMap HumanSession :=
  (List.range (MAX_SESSIONS + 2)).map fun i =>
    (⟨UInt8.ofNat (i / 256) :: UInt8.ofNat i :: List.replicate 30 0, by simp⟩, ⟨"", 0, 0, 300⟩)

theorem crowd_nodup : (crowd.map (·.1)).Nodup := by
  rw [crowd, List.map_map, List.nodup_iff_pairwise_ne, List.pairwise_map]
  refine List.Pairwise.imp_of_mem (fun {i j} hi hj hlt heq => ?_) List.pairwise_lt_range
  have hbytes : UInt8.ofNat (i / 256) = UInt8.ofNat (j / 256) ∧ UInt8.ofNat i = UInt8.ofNat j := by simpa using heq
  have hhigh := congrArg UInt8.toNat hbytes.1
  have hlow := congrArg UInt8.toNat hbytes.2
  simp only [UInt8.toNat_ofNat', List.mem_range, MAX_SESSIONS] at hhigh hlow hi hj
  omega

theorem crowd_live : (crowd.filter fun e => !e.2.lapsed 0).length = MAX_SESSIONS + 2 := by
  decide +kernel

end Reference

/-- A new vault with two live sessions more than the cap: after a mint there are more than the cap. -/
theorem mint_over_capacity_crowd : ∃ (s t : Sys) (credential displayPrefix : String),
    s.session.isLocked = false ∧ s.session.Keyed ∧ (s.session.liveSessions s.host.mono).length = MAX_SESSIONS + 2 ∧
    (sessionOpen "human" 300).run s = (.ok (credential, displayPrefix, 300, 1800), t) ∧
    ¬t.session.sessions.length ≤ MAX_SESSIONS := by
  obtain ⟨session, h', u, -, hu, -, hstands⟩ := Reference.stands_created
  obtain ⟨_, hs, -, hl⟩ := hstands.session
  cases hs
  have hopen : session.isLocked = false := by rw [Session.isLocked, hu]; rfl
  obtain ⟨audit, auditFile, appends, hok, -⟩ := Reference.opens
    (hstands.coheres.session session rfl Reference.conditions Reference.conditions_whole) hl hstands.log (by omega)
    hopen rfl
    rfl rfl
  obtain ⟨table', hrun⟩ := sessionOpen_indifferent "human" 300 ⟨session, h'.under Reference.conditions⟩ Reference.crowd
  rw [hok] at hrun
  dsimp only at hrun
  have hkeyed : (Sys.withTable ⟨session, h'.under Reference.conditions⟩ Reference.crowd).session.Keyed :=
    Reference.crowd_nodup
  have hlive :
      ((Sys.withTable ⟨session, h'.under Reference.conditions⟩ Reference.crowd).session.liveSessions 0).length =
        MAX_SESSIONS + 2 := Reference.crowd_live
  have hover := mint_over_capacity hkeyed hrun
  refine ⟨_, _, _, _, hopen, hkeyed, hlive, hrun, fun hle => ?_⟩
  have hmono : (Sys.withTable ⟨session, h'.under Reference.conditions⟩ Reference.crowd).host.mono = 0 := rfl
  rw [hmono, hlive] at hover
  omega

end SecretsVault
