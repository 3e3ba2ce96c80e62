import SecretsVault.HostCalls
import Mathlib.Logic.Relation

/-!
# What a call is made of

Every call is a sequence of a few acts: an append to the audit log, a call to the operating system that leaves the two
files alone, a commit, a lock, a change of the session table, an unlock, a sweep, a save. `Rights` says which of them
are allowed, with the documents that may be committed; `Acts p` relates two states with such a sequence between them.

- `lockPersist_run`, `checkIdle_run`: a lock ignores what becomes of its commit.
- `propose_eq_ok`, `requireOpen_eq_ok`, `requireHuman_eq_ok`: what is prepared is prepared where the call began.
-/

namespace SecretsVault

open Lib Lib.Prog Host

/-! ## Acts -/

/-- What may happen in a call. -/
structure Rights where
  /-- The commits that may be attempted. -/
  commits : Attempt → Prop
  /-- The keys that may be tried. -/
  unlocks : DerivedKeks → Prop
  /-- The session may be locked. -/
  locks : Prop
  /-- Human sessions may be minted. -/
  mints : Prop
  /-- The table of human sessions may be changed. -/
  registers : Prop
  /-- The call may count as activity. -/
  active : Prop
  /-- Files under the folders may be written. -/
  writes : Prop
  /-- The document may be swept, or stored as it is. -/
  upkeep : Prop

section

variable [Crypto] [VaultJson] [AuditJson]

/-- Seal and store the document as it is. -/
def storeAsIs (u : Unlocked) : SessionProg Unit := do
  resealSession u.doc u.keys
  storeSession

/-- One act. -/
inductive Act (p : Rights) : Sys → Sys → Prop where
  | append {s : Sys} {event : String → Nat → String → AuditEvent} {mac : Option SecretKey} {priority : Priority}
      (hev : Positioned event) (hmac : mac = none ∨ mac = s.session.auditKey) :
      Act p s ((onAudit (AuditLog.appendEvent event mac priority)).run s).2
  | host {s : Sys} {h : Host} (hh : Undisturbed s.host h) (hw : p.writes ∨ h.fs = s.host.fs) :
      Act p s { s with host := h }
  | commit {s : Sys} {doc : VaultDocument} {record : Record} {priority : Priority}
      (hc : p.commits ⟨s, doc, record, priority⟩) : Act p s ((commitWith doc record priority).run s).2
  | lock {s : Sys} (hl : p.locks) : Act p s { s with session := s.session.lock }
  | table {s : Sys} {t : DigestMap HumanSession} (hr : p.registers)
      (ht : p.mints ∨ (t.map (·.1)).Sublist (s.session.sessions.map (·.1))) :
      Act p s { s with session := { s.session with sessions := t } }
  | clock {s : Sys} (lastActivity : Instant) (idleSelfLock : Bool) (ha : lastActivity = s.session.lastActivity ∨
      p.active) (hself : idleSelfLock = true → s.session.idleSelfLock = true) :
      Act p s { s with session := { s.session with lastActivity, idleSelfLock } }
  | limits {s : Sys} (soft hard : Nat) : Act p s { s with session := s.session.setAuditLimitsForTest soft hard }
  | unlock {s : Sys} {derived : DerivedKeks} {u : Unlocked} (hd : p.unlocks derived)
      (hu : openVault s.session.envelope derived s.host.auditFile = .ok u) :
      Act p s { s with session := ({ s.session with unlocked := some u }).rebuildAgentDigests }
  | sweep {s : Sys} {u : Unlocked} (hp : p.upkeep) (hu : s.session.unlocked = some u) :
      Act p s
      { s with session := { s.session with unlocked := some { u with doc := purgeTerminal u.doc s.host.wall } } }
  | store {s : Sys} {u : Unlocked} (hp : p.upkeep) (hu : s.session.unlocked = some u) :
      Act p s ((storeAsIs u).run s).2

/-- A sequence of acts. -/
abbrev Acts (p : Rights) : Sys → Sys → Prop := Relation.ReflTransGen (Act p)

instance (p : Rights) : IsPreorder Sys (Acts p) :=
  { refl := fun _ => .refl, trans := fun _ _ _ => Relation.ReflTransGen.trans }

variable {p : Rights} {α β : Type}

/-- An invariant of every act is one of every sequence. -/
theorem Acts.invariant {I : Sys → Prop} {s t : Sys} (h : Acts p s t) (hs : I s)
    (hact : ∀ a b, Act p a b → I a → I b) : I t := by
  induction h with
  | refl => exact hs
  | tail _ hab ih => exact hact _ _ hab ih

/-! ## The parts of a call -/

theorem onHost_acts {m : Prog VaultError Host α} (hm : Keeps Quiet m) : Keeps (Acts p) (onHost m) := by
  intro s
  have hfs : (m.run s.host).2.fs = s.host.fs := by
    obtain ⟨r, y, h⟩ := (hm s.host).eq
    rw [h]
  exact .single (.host (hm s.host).undisturbed (Or.inr hfs))

theorem onHost_writes {m : Prog VaultError Host α} (hp : p.writes) (hm : Keeps Undisturbed m) :
    Keeps (Acts p) (onHost m) :=
  fun s => .single (.host (hm s.host) (Or.inl hp))

theorem auditRecordWith_acts (record : Record) (priority : Priority) :
    Keeps (Acts p) (auditRecordWith record priority) :=
  keeps_get_bind fun _ => .single (.append (positioned_record record) (Or.inr rfl))

theorem auditRunWith_acts (record : RunRecord) (priority : Priority) : Keeps (Acts p) (auditRunWith record priority) :=
  keeps_get_bind fun _ => .single (.append (positioned_runRecord record) (Or.inr rfl))

theorem onAudit_append_acts (record : Record) (priority : Priority) :
    Keeps (Acts p) (onAudit (AuditLog.append record none priority)) :=
  fun _ => .single (.append (positioned_record record) (Or.inl rfl))

theorem auditRecord_acts (record : Record) : Keeps (Acts p) (auditRecord record) :=
  auditRecordWith_acts record .ordinary

theorem auditDenied_acts (actor op : String) (project : Option String) (keys : List String) (target : Option Path)
    (err : VaultError) : Keeps (Acts p) (auditDenied actor op project keys target err) := (auditRecord_acts _).ignore

theorem deny_acts (actor op : String) (project : Option String) (keys : List String) (err : VaultError) :
    Keeps (Acts p) (deny actor op project keys err : SessionProg α) :=
  (auditDenied_acts _ _ _ _ _ _).bind fun _ => keeps_fail _

theorem decideOr_acts (actor op : String) (project : Option String) (keys : List String) (r : Except VaultError α) :
    Keeps (Acts p) (decideOr actor op project keys r) := by
  cases r with
  | ok a => exact keeps_pure a
  | error e => exact deny_acts _ _ _ _ _

theorem requireUnlocked_acts : Keeps (Acts p) requireUnlocked := keeps_get.bind fun _ => keeps_lift _

theorem lock_acts (hl : p.locks) : Keeps (Acts p) (modifySession Session.lock) := fun _ => .single (.lock hl)

theorem lockPersist_acts {s : Sys} (hc : ∀ a, LockAttempt s a → p.commits a) (hl : p.locks) :
    KeepsAt (Acts p) lockPersist s := by
  refine keeps_get.at s |>.bind fun s' t ht => ?_
  cases ht
  split
  · exact lock_acts hl s
  · rename_i u hu
    refine KeepsAt.bind (KeepsAt.ignore ?_) fun _ t _ => lock_acts hl t
    exact .single (.commit (hc _ ⟨u, hu, rfl⟩))

/-- A lock never fails: its commit is ignored. -/
theorem lockPersist_run (s : Sys) : lockPersist.run s = match s.session.unlocked with
    | none => (.ok (), { s with session := s.session.lock })
    | some u => match (commitWith (lockAll s.host.wall u.doc) lockRecord .lifecycle).run s with
      | (.panic, t) => (.panic, t)
      | (_, t) => (.ok (), { t with session := t.session.lock }) := by
  rw [lockPersist, run_bind, run_get]
  dsimp only
  cases s.session.unlocked with
  | none => rfl
  | some u =>
    dsimp only
    rw [run_bind, run_ignore]
    generalize (commitWith (lockAll s.host.wall u.doc) lockRecord .lifecycle).run s = r
    rcases r with ⟨a | e | _, t⟩ <;> rfl

/-- A lock ends locked, or in a panic. -/
theorem lockPersist_locked {s t : Sys} {o : Outcome VaultError Unit} (h : lockPersist.run s = (o, t)) :
    o = .ok () ∧ t.session.unlocked = none ∧ t.session.sessions = [] ∨ o = .panic := by
  rw [lockPersist_run] at h
  split at h
  · cases h; exact Or.inl ⟨rfl, rfl, rfl⟩
  · split at h <;> cases h
    · exact Or.inr rfl
    · exact Or.inl ⟨rfl, rfl, rfl⟩

/-- What the idle check does: nothing, or a lock. -/
theorem checkIdle_run (s : Sys) :
    checkIdle.run s = if s.session.locksItself s.host.mono then lockPersist.run s else (.ok (), s) := by
  unfold checkIdle
  simp only [run_bind, run_get]
  by_cases h : s.session.locksItself s.host.mono
  · rw [show (s.session.idleSelfLock && s.session.idleExpired s.host.mono) = true from h, if_pos rfl, if_pos h,
      run_bind, run_attempt]
    rcases hr : lockPersist.run s with ⟨a | e | _, t⟩
    · rfl
    · rcases lockPersist_locked hr with ⟨h, _⟩ | h <;> cases h
    · rfl
  · rw [show (s.session.idleSelfLock && s.session.idleExpired s.host.mono) = false by
      simpa [Session.locksItself] using h, if_neg h]
    rfl

/-- A session that is unlocked behind the idle check was not touched by it. -/
theorem checkIdle_unlocked {s t : Sys} {u : Unlocked} (h : checkIdle.run s = (.ok (), t))
    (hu : t.session.unlocked = some u) : t = s ∧ s.session.locksItself s.host.mono = false := by
  rw [checkIdle_run] at h
  split at h
  · rcases lockPersist_locked h with ⟨_, hl, _⟩ | h'
    · rw [hl] at hu; cases hu
    · cases h'
  · rename_i hidle
    cases h
    exact ⟨rfl, by simpa using hidle⟩

/-- The idle lock of a state is allowed, with its commit. -/
structure MayIdle (p : Rights) (s : Sys) : Prop where
  commits : ∀ a, IdleAttempt s a → p.commits a
  locks : s.session.locksItself s.host.mono = true → p.locks

theorem checkIdle_acts {s : Sys} (hc : MayIdle p s) : KeepsAt (Acts p) checkIdle s := by
  unfold KeepsAt
  rw [checkIdle_run]
  split
  · rename_i hidle
    exact lockPersist_acts (fun a ha => hc.commits a ⟨hidle, ha⟩) (hc.locks hidle)
  · exact .refl

/-! ## What stands behind a check -/

omit [Crypto] [VaultJson] [AuditJson] in
theorem requireUnlocked_eq_ok {s t : Sys} {u : Unlocked} (h : requireUnlocked.run s = (.ok u, t)) :
    t = s ∧ s.session.unlocked = some u := by
  unfold requireUnlocked at h
  simp only [run_bind, run_get, run_lift, Prod.mk.injEq] at h
  exact ⟨h.2.symm, Outcome.ofOption_eq_ok h.1⟩

theorem gate_acts {s : Sys} (actor op : String) (project : Option String) (keys : List String)
    (hc : MayIdle p s) : KeepsAt (Acts p) (gate actor op project keys) s := by
  refine (checkIdle_acts hc).bind fun _ t _ => ?_
  refine (keeps_get.at t).bind fun t' _ h => ?_
  cases h
  split
  · exact ((onAudit_append_acts _ _).bind fun _ => keeps_fail _).at t
  · exact (keeps_pure ()).at t

/-- Whoever passes the gate found the session as it was, unlocked. -/
theorem gate_eq_ok {s t : Sys} {actor op : String} {project : Option String} {keys : List String}
    (h : (gate actor op project keys).run s = (.ok (), t)) : t = s ∧ ∃ u, s.session.unlocked = some u := by
  obtain ⟨_, s1, h1, h⟩ := bind_eq_ok h
  simp only [run_bind, run_get] at h
  cases hu : s1.session.unlocked with
  | none =>
    simp only [Session.isLocked, hu, Option.isNone_none, if_true] at h
    obtain ⟨_, _, _, h⟩ := bind_eq_ok h
    cases h
  | some u =>
    simp only [Session.isLocked, hu, Option.isNone_some] at h
    cases h
    obtain ⟨rfl, _⟩ := checkIdle_unlocked h1 hu
    exact ⟨rfl, u, hu⟩

theorem requireOpen_acts {s : Sys} (actor op : String) (project : Option String) (keys : List String)
    (hc : MayIdle p s) : KeepsAt (Acts p) (requireOpen actor op project keys) s := by
  refine (checkIdle_acts hc).bind fun _ t _ => ?_
  refine (keeps_get.at t).bind fun t' _ h => ?_
  cases h
  split
  · exact (deny_acts _ _ _ _ _).at t
  · exact (keeps_pure _).at t

omit [VaultJson] in
theorem deny_ne_ok {s t : Sys} {actor op : String} {project : Option String} {keys : List String} {e : VaultError}
    {a : α} : (deny actor op project keys e : SessionProg α).run s ≠ (.ok a, t) := by
  intro h
  obtain ⟨_, _, _, h⟩ := bind_eq_ok h
  cases h

theorem requireOpen_eq_ok {s t : Sys} {actor op : String} {project : Option String} {keys : List String} {u : Unlocked}
    (h : (requireOpen actor op project keys).run s = (.ok u, t)) :
    t = s ∧ s.session.unlocked = some u ∧ s.session.locksItself s.host.mono = false := by
  obtain ⟨_, s1, h1, h⟩ := bind_eq_ok h
  simp only [run_bind, run_get] at h
  split at h
  · exact absurd h deny_ne_ok
  · rename_i hu
    cases h
    obtain ⟨rfl, hidle⟩ := checkIdle_unlocked h1 hu
    exact ⟨rfl, hu, hidle⟩

theorem requireHuman_acts {s : Sys} (actor op : String) (hc : MayIdle p s) :
    KeepsAt (Acts p) (requireHuman actor op) s := by
  refine (checkIdle_acts hc).bind fun _ t _ => ?_
  split
  · exact (deny_acts _ _ _ _ _).at t
  · refine (keeps_get.at t).bind fun t' _ h => ?_
    cases h
    split
    · exact (deny_acts _ _ _ _ _).at t
    · exact (keeps_pure _).at t

theorem requireHuman_eq_ok {s t : Sys} {actor op : String} {u : Unlocked}
    (h : (requireHuman actor op).run s = (.ok u, t)) :
    t = s ∧ s.session.unlocked = some u ∧ isHumanIdentity actor = true ∧ s.session.locksItself s.host.mono = false := by
  obtain ⟨_, s1, h1, h⟩ := bind_eq_ok h
  split at h
  · exact absurd h deny_ne_ok
  · rename_i hhuman
    simp only [run_bind, run_get] at h
    split at h
    · exact absurd h deny_ne_ok
    · rename_i hu
      cases h
      obtain ⟨rfl, hidle⟩ := checkIdle_unlocked h1 hu
      exact ⟨rfl, hu, by simpa using hhuman, hidle⟩

omit [VaultJson] in
theorem decideOr_eq_ok {s t : Sys} {actor op : String} {project : Option String} {keys : List String}
    {r : Except VaultError α} {a : α} (h : (decideOr actor op project keys r).run s = (.ok a, t)) :
    t = s ∧ r = .ok a := by
  cases r with
  | ok b => cases h; exact ⟨rfl, rfl⟩
  | error e => exact absurd h deny_ne_ok

/-! ## Proposals -/

theorem propose_acts {s : Sys} {record : Record} {denied : Option String} {priority : VaultDocument → Priority}
    {decide : VaultDocument → Prog VaultError Host (VaultDocument × α)} (hd : ∀ d, Keeps Quiet (decide d))
    (hc : MayIdle p s) : KeepsAt (Acts p) (propose record denied priority decide) s := by
  refine (gate_acts _ _ _ _ hc).bind fun _ t _ => (requireUnlocked_acts.at t).bind fun u t _ => ?_
  refine ((onHost_acts (hd u.doc)).attempt.at t).bind fun r t _ => ?_
  split
  · exact (keeps_pure _).at t
  · exact ((auditDenied_acts _ _ _ _ _ _).bind fun _ => keeps_fail _).at t

/-- What is proposed was decided on the document as the call found it. -/
theorem propose_eq_ok {s t : Sys} {record : Record} {denied : Option String} {priority : VaultDocument → Priority}
    {decide : VaultDocument → Prog VaultError Host (VaultDocument × α)} {q : Proposal α}
    (h : (propose record denied priority decide).run s = (.ok q, t)) :
    ∃ u h', s.session.unlocked = some u ∧ (decide u.doc).run s.host = (.ok (q.doc, q.answer), h') ∧
      t = { s with host := h' } ∧ q.record = record ∧ q.priority = priority u.doc := by
  obtain ⟨_, s1, h1, hk⟩ := bind_eq_ok h
  obtain ⟨u, s2, h2, hk⟩ := bind_eq_ok hk
  obtain ⟨r, s3, h3, hk⟩ := bind_eq_ok hk
  obtain ⟨rfl, -⟩ := gate_eq_ok h1
  obtain ⟨rfl, hu⟩ := requireUnlocked_eq_ok h2
  rw [run_attempt, onHost, run_zoom] at h3
  rcases hr : (decide u.doc).run s2.host with ⟨⟨doc, a⟩ | e | _, h'⟩ <;> rw [hr] at h3 <;> cases h3
  · cases hk
    exact ⟨u, h', hu, hr, rfl, rfl, rfl⟩
  · obtain ⟨_, _, _, hk⟩ := bind_eq_ok hk
    cases hk

end

end SecretsVault
