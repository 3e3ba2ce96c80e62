import SecretsVault.SessionWindows
import SecretsVault.Watchdog

/-!
# Activity

The deadline of an unlocked vault is its last activity and the idle timeout. Only an unlock sets the last activity of a
daemon that runs: an operation that needs the vault open leaves it where it was, as a refusal does.

- `Serves.runsOn`: a call that is passive leaves the countdown of a session as it is.
- `dispatch_spares`: so does every request that is answered with an error.
- `activity_resets_iff`: which requests leave the deadline where the countdown of the last activity has it.
-/

namespace SecretsVault

open Lib Lib.Prog

/-- The call neither opens nor locks the session, and is not made for its activity. -/
def Call.passive {α : Type} : Call α → Bool
  | .unlock .. | .unlockWithProof .. | .lock | .lockPersist | .requireKeys | .save => false
  | _ => true

/-- Passive calls, and runs that are taken out of the registry. -/
def Warrant.passive : Warrant := ⟨fun c => c.passive = true, True⟩

theorem Call.passive_of_tame {α : Type} {c : Call α} (h : c.tame = true) : c.passive = true := by
  cases c <;> first | rfl | cases h

theorem tame_within_passive : Warrant.tame.Within .passive := ⟨fun _ h => Call.passive_of_tame h, fun _ => trivial⟩

/-- The countdown of a session is the one it was. -/
structure Session.RunsOn (s t : Session) : Prop where
  lastActivity : t.lastActivity = s.lastActivity
  idleTimeout : t.idleTimeout = s.idleTimeout
  isLocked : t.isLocked = s.isLocked

theorem Session.RunsOn.refl (s : Session) : s.RunsOn s := ⟨rfl, rfl, rfl⟩

theorem Session.RunsOn.trans {s t u : Session} (h : s.RunsOn t) (h' : t.RunsOn u) : s.RunsOn u where
  lastActivity := h'.lastActivity.trans h.lastActivity
  idleTimeout := h'.idleTimeout.trans h.idleTimeout
  isLocked := h'.isLocked.trans h.isLocked

theorem Session.RunsOn.idleDeadline {s t : Session} (h : s.RunsOn t) : t.idleDeadline = s.idleDeadline := by
  rw [Session.idleDeadline, Session.idleDeadline, h.lastActivity, h.idleTimeout, h.isLocked]

/-- The window of an unlocked session has passed from its deadline on, and not before. -/
theorem Session.idleExpired_iff {s : Session} (hs : s.isLocked = false) (now : Instant) :
    s.idleExpired now = true ↔ ∃ deadline, s.idleDeadline = some deadline ∧ deadline ≤ now := by
  by_cases ht : s.idleTimeout = 0
  · simp [Session.idleExpired, Session.idleDeadline, ht]
  · have hdeadline : s.idleDeadline = some (s.lastActivity + s.idleTimeout) := by simp [Session.idleDeadline, hs, ht]
    simp only [Session.idleExpired, hdeadline, Bool.and_eq_true, bne_iff_ne, ne_eq, ht, not_false_eq_true,
      decide_eq_true_eq, true_and, Option.some.injEq, exists_eq_left']
    show s.idleTimeout ≤ now - s.lastActivity ↔ @LE.le Nat _ (s.lastActivity + s.idleTimeout) now
    omega

section

variable [Crypto] [VaultJson] [AuditJson] {p : Rights} {s t : Sys}

/-! ## What a call leaves alone -/

/-- An act that is neither an unlock nor a lock nor activity. -/
theorem Act.runsOn (h : Act p s t) (hl : ¬p.locks) (hu : ∀ d, ¬p.unlocks d) (ha : ¬p.active) :
    s.session.RunsOn t.session := by
  cases h with
  | append hev hmac =>
    obtain ⟨l, f, q, ht⟩ := onAudit_recorded (appendEvent_auditOnly _ _ _) s
    rw [ht]
    exact ⟨rfl, rfl, rfl⟩
  | host | limits | table => exact ⟨rfl, rfl, rfl⟩
  | @commit doc record priority hc =>
    rcases hr : (commitWith doc record priority).run s with ⟨o, t⟩
    cases commitWith_ends hr with
    | refused => exact ⟨rfl, rfl, rfl⟩
    | cut => exact ⟨rfl, rfl, rfl⟩
    | landed hopen => exact ⟨rfl, rfl, by simp [Session.isLocked, Session.rebuildAgentDigests, hopen]⟩
  | lock h => exact absurd h hl
  | clock lastActivity idleSelfLock hact =>
    rcases hact with rfl | hact
    · exact ⟨rfl, rfl, rfl⟩
    · exact absurd hact ha
  | unlock hd => exact absurd hd (hu _)
  | sweep _ hopen => exact ⟨rfl, rfl, by simp [Session.isLocked, hopen]⟩
  | @store u _ hopen =>
    rcases hr : (storeAsIs u).run s with ⟨o, t⟩
    cases storeAsIs_ends hr <;> exact ⟨rfl, rfl, rfl⟩

/-- A passive call of a session that does not lock itself. -/
theorem Call.runsOn {α : Type} {c : Call α} (hc : c.passive = true) (hs : s.session.idleSelfLock = false) :
    s.session.RunsOn (c.exec.run s).2.session ∧ (c.exec.run s).2.session.idleSelfLock = false := by
  -- the self-lock is an invariant of its own: no act of the call locks
  have hself : s.session.locksItself s.host.mono = false := by simp [Session.locksItself, hs]
  have hlocks : ¬(c.rights s).locks := by
    rintro (⟨-, h⟩ | h)
    · rw [hself] at h
      cases h
    · cases c <;> first | exact h | cases hc
  have hunlocks : ∀ d, ¬(c.rights s).unlocks d := fun d h => by cases c <;> first | exact h | cases hc
  have hactive : ¬(c.rights s).active := fun h => by cases c <;> first | exact h | cases hc
  refine (c.acts s).invariant (I := fun x => s.session.RunsOn x.session ∧ x.session.idleSelfLock = false)
    ⟨.refl _, hs⟩ fun a b hab h => ⟨h.1.trans (hab.runsOn hlocks hunlocks hactive), hab.deferred h.2⟩

theorem doUnlock_error {derived : DerivedKeks} {e : VaultError} (h : (doUnlock derived).run s = (.error e, t)) :
    s = t := by
  rw [doUnlock, run_get_bind] at h
  obtain h | ⟨_, _, -, h⟩ := bind_eq_error h
  · exact congrArg Prod.snd h
  · cases h

/-- Keys that do not open the vault. -/
theorem unlockWithProof_runsOn {derived : DerivedKeks} {e : VaultError}
    (h : (unlockWithProof derived).run s = (.error e, t)) (hs : s.session.idleSelfLock = false) :
    s.session.RunsOn t.session ∧ t.session.idleSelfLock = false := by
  rw [unlockWithProof, run_bind, run_attempt] at h
  rcases hdo : (doUnlock derived).run s with ⟨_ | e' | _, s1⟩ <;> rw [hdo] at h
  · -- the rest only records, and does not fail
    obtain h | ⟨_, _, -, h⟩ := bind_eq_error h
    · exact absurd (congrArg Prod.fst h) (unfailing_ignore _ _ e)
    · cases h
  · obtain rfl : s = s1 := doUnlock_error hdo
    let p : Rights := ⟨fun _ => False, fun _ => False, False, False, False, False, False, False⟩
    have hrefuse : Keeps (Acts p) (if e' = .auth then do
        (onAudit (AuditLog.append { actor := "human", op := "vault.unlock", decision := .denied,
                                    reason := some e'.code } none
          .lifecycle)).ignore
        .fail e'
      else .fail e' : SessionProg Unit) := by
      split
      · exact (onAudit_append_acts _ _).ignore.bind fun _ => keeps_fail _
      · exact keeps_fail _
    have hacts := hrefuse s
    dsimp only at h
    rw [h] at hacts
    exact hacts.invariant (I := fun x => s.session.RunsOn x.session ∧ x.session.idleSelfLock = false)
      ⟨.refl _, hs⟩ fun a b hab ha => ⟨ha.1.trans (hab.runsOn id (fun _ => id) id), hab.deferred ha.2⟩
  · cases h

end

section

variable [Crypto] [VaultJson] [AuditJson] {α : Type} {b b' : Broker Session}

/-! ## What a request leaves alone -/

/-- A session that does not lock itself counts down as it did. -/
def Broker.Carries (b b' : Broker Session) : Prop :=
  b.session.idleSelfLock = false → b.session.RunsOn b'.session ∧ b'.session.idleSelfLock = false

instance : IsPreorder (Broker Session) Broker.Carries where
  refl b h := ⟨.refl _, h⟩
  trans a b c hab hbc h := by
    obtain ⟨h1, h2⟩ := hab h
    obtain ⟨h3, h4⟩ := hbc h2
    exact ⟨h1.trans h3, h4⟩

theorem Serves.carries (h : Serves .passive b b') : b.Carries b' := by
  intro hb
  cases h with
  | call c hc => exact Call.runsOn (s := ⟨b.session, b.host.under (b.ahead 0)⟩) hc hb
  | glance | drain | signal => exact ⟨.refl _, hb⟩

theorem Served.carries (h : Served .passive b b') : b.Carries b' :=
  h.invariant (refl_of Broker.Carries b) fun _ _ hxy hx => trans_of Broker.Carries hx hxy.carries

theorem carries_of_served {m : BrokerProg α} (hm : Keeps (Served .passive) m) : Keeps Broker.Carries m :=
  fun b => (hm b).carries

theorem ask_unlock_spares (derived : DerivedKeks) : Spares Broker.Carries (ask (.unlockWithProof derived)) := by
  intro b e b' h hb
  rw [ask, run_step] at h
  rcases hr : (unlockWithProof derived).run ⟨b.session, b.host.under (b.ahead 0)⟩ with ⟨_ | e' | _, t⟩ <;>
    simp only [Call.exec, hr] at h <;> cases h
  exact unlockWithProof_runsOn hr hb

variable [Rendering] {req : Request} {ctx : OpContext}

theorem vaultUnlockArm_spares : Spares Broker.Carries (vaultUnlockArm req ctx) := by
  have htimes : ∀ x y, Unfailing (sessionDisplayTimes x y) :=
    fun _ _ _ _ => by simp [sessionDisplayTimes, glance, run_bind]
  rw [vaultUnlockArm]
  split
  · exact (keeps_fail _).spares
  · refine (keeps_lift _).bind_spares fun derived => (ask_unlock_spares derived).bind_unfailing fun _ => ?_
    refine Unfailing.bind (unfailing_attempt _) fun r => ?_
    split
    · exact (htimes _ _).bind fun _ => unfailing_pure _
    · exact unfailing_pure _

omit [Rendering] in
theorem vaultLockArm_unfailing : Unfailing (vaultLockArm req ctx) :=
  (lockAndDrain_unfailing _).bind fun _ => unfailing_pure _

/-- An operation that is neither a lock nor an unlock. -/
theorem dispatchOp_carries (hlock : req.op ≠ "vault.lock") (hunlock : req.op ≠ "vault.unlock") :
    Keeps Broker.Carries (dispatchOp req ctx) :=
  carries_of_served (dispatchOp_withdraws tame_within_passive trivial (fun _ => rfl) (absurd · hlock)
    (absurd · hunlock))

/-- Only a refusal ends with an error. -/
theorem dispatchOp_spares : Spares Broker.Carries (dispatchOp req ctx) := by
  by_cases hlock : req.op = "vault.lock"
  · rw [dispatchOp, hlock]
    exact vaultLockArm_unfailing.spares
  by_cases hunlock : req.op = "vault.unlock"
  · rw [dispatchOp, hunlock]
    exact vaultUnlockArm_spares
  exact (dispatchOp_carries hlock hunlock).spares

theorem perform_spares : Spares Broker.Carries (perform req ctx) := by
  intro b e b' h
  rw [perform, run_get_bind, run_bind, run_attempt] at h
  rcases hr : (dispatchOp req ctx).run b with ⟨v | e1 | _, b1⟩ <;> rw [hr] at h
  · -- the session slides, which does not fail
    have hslide : ∀ credential, Unfailing (ask (.slideSession credential)) := fun credential =>
      ask_unfailing (unfailing_modify _)
    dsimp only at h
    split at h
    · split at h
      · cases h
      · exact absurd (congrArg Prod.fst h) ((hslide _).bind (fun _ => unfailing_pure v) b1 e)
    · cases h
  · refine trans_of Broker.Carries (dispatchOp_spares b e1 b1 hr) (Keeps.spares ?_ b1 e b' h)
    refine keeps_get.bind fun b => ?_
    dsimp only
    split
    · exact (carries_of_served (told_served tame_within_passive rfl)).bind fun _ => keeps_fail _
    · exact keeps_fail _
  · cases h

variable {proof : Option DerivedKeks}

theorem authenticate_carries : Keeps Broker.Carries (authenticate req proof) :=
  carries_of_served (authenticate_served tame_within_passive proof)

omit [Rendering] in
theorem screen_carries (identity : Identity) (actor : String) : Keeps Broker.Carries (screen req identity actor) :=
  carries_of_served (screen_served tame_within_passive identity actor)

/-- A request that is answered with an error leaves the countdown as it is. -/
theorem dispatch_spares : Spares Broker.Carries (dispatch req proof) :=
  authenticate_carries.bind_spares fun x => (screen_carries x.1 x.2).bind_spares fun _ => perform_spares

/-- So does one that is neither a lock nor an unlock, whatever it is answered. -/
theorem dispatch_carries (hlock : req.op ≠ "vault.lock") (hunlock : req.op ≠ "vault.unlock") :
    Keeps Broker.Carries (dispatch req proof) :=
  carries_of_served ((authenticate_served tame_within_passive proof).bind fun _ =>
    (screen_served tame_within_passive _ _).bind fun _ => perform_served tame_within_passive
      (dispatchOp_withdraws tame_within_passive trivial (fun _ => rfl) (absurd · hlock) (absurd · hunlock)))

/-! ## Locks -/

omit [Rendering] in
theorem lockAndDrain_deferred (actor : String) (hb : b.session.idleSelfLock = false) :
    ((lockAndDrain actor).run b).2.session.idleSelfLock = false :=
  Served.deferred (lockAndDrain_served tame_within_any trivial trivial actor) hb

/-- A request that succeeds was performed by its arm. -/
theorem perform_ok {v : Value} (h : (perform req ctx).run b = (.ok v, b')) :
    ∃ b1, (dispatchOp req ctx).run b = (.ok v, b1) ∧ b1.Carries b' := by
  rw [perform, run_get_bind, run_bind, run_attempt] at h
  rcases hr : (dispatchOp req ctx).run b with ⟨v' | e | _, b1⟩ <;> rw [hr] at h
  · have hslide : ∀ credential, Keeps Broker.Carries (ask (.slideSession credential)) := fun credential =>
      carries_of_served (tame_served tame_within_passive rfl)
    dsimp only at h
    split at h
    · rename_i credential _
      split at h
      · cases h
        exact ⟨_, rfl, refl_of Broker.Carries _⟩
      · obtain ⟨_, b2, h2, h⟩ := bind_eq_ok h
        have hc := hslide credential b1
        rw [h2] at hc
        cases h
        exact ⟨_, rfl, hc⟩
    · cases h
      exact ⟨_, rfl, refl_of Broker.Carries _⟩
  · obtain ⟨_, _, -, h⟩ := bind_eq_ok h
    dsimp only at h
    split at h
    · obtain ⟨_, _, -, h⟩ := bind_eq_ok h
      cases h
    · cases h
  · cases h

theorem dispatch_ok {v : Value} (h : (dispatch req proof).run b = (.ok v, b')) : ∃ identity actor b1 b2 b3,
    (authenticate req proof).run b = (.ok (identity, actor), b1) ∧ (screen req identity actor).run b1 = (.ok (), b2) ∧
    (dispatchOp req { actor, identity, proof }).run b2 = (.ok v, b3) ∧ b.Carries b2 ∧ b3.Carries b' := by
  obtain ⟨⟨identity, actor⟩, b1, h1, h⟩ := bind_eq_ok h
  obtain ⟨_, b2, h2, h⟩ := bind_eq_ok h
  obtain ⟨b3, h3, hc3⟩ := perform_ok h
  have hc1 : Broker.Carries b ((authenticate req proof).run b).2 := authenticate_carries b
  have hc2 : Broker.Carries b1 ((screen req identity actor).run b1).2 := screen_carries identity actor b1
  rw [h1] at hc1
  rw [h2] at hc2
  exact ⟨identity, actor, b1, b2, b3, h1, h2, h3, trans_of Broker.Carries hc1 hc2, hc3⟩

/-- A lock that succeeds leaves the vault locked. -/
theorem dispatch_locks (hop : req.op = "vault.lock") (hb : b.session.idleSelfLock = false) {v : Value}
    (h : (dispatch req proof).run b = (.ok v, b')) : b'.session.isLocked = true := by
  obtain ⟨identity, actor, b1, b2, b3, -, -, h3, hc, hc'⟩ := dispatch_ok h
  rw [dispatchOp, hop] at h3
  obtain ⟨_, b4, h4, h5⟩ := bind_eq_ok h3
  have hdef := lockAndDrain_deferred actor (hc hb).2
  rw [h4] at hdef
  cases h5
  obtain ⟨hruns, -⟩ := hc' hdef
  exact hruns.isLocked.trans (lockAndDrain_locks h4)

/-- An unlock takes a credential other than a session. -/
theorem dispatch_unlock (hop : req.op = "vault.unlock") (ht : req.token = none) (hp : req.passphrase = none)
    (v : Value) : (dispatch req proof).run b ≠ (.ok v, b') := by
  intro h
  obtain ⟨identity, actor, b1, b2, b3, h1, h2, h3, -⟩ := dispatch_ok h
  rw [dispatchOp, hop] at h3
  cases hs : req.session with
  | some credential =>
    have harm : vaultUnlockArm req { actor, identity, proof } =
      .fail (.of "E_SESSION_EXPIRED" "session expired or revoked") := by
      rw [vaultUnlockArm, if_pos (by simp [hs])]
    have h3' : (vaultUnlockArm req { actor, identity, proof }).run b2 = (.ok v, b3) := h3
    rw [harm] at h3'
    cases h3'
  | none =>
    rw [authenticate, run_get_bind, if_neg (by simp [hs]), ht, hp, hs] at h1
    cases h1
    rw [screen, if_pos (by simp [hop])] at h2
    dsimp only at h2
    split at h2
    · cases h2
    · obtain ⟨_, _, -, h2⟩ := bind_eq_ok h2
      cases h2

end

/-! ## Requests and the countdown -/

/-- A request that was answered: the session it found and the one it left, with the first and the last reading of the
clock. -/
structure Exchange where
  req : Request
  before : Session
  first : Instant
  outcome : Outcome WireError Value
  last : Instant
  after : Session

/-- The request comes with a token or a passphrase. -/
def Exchange.Proved (x : Exchange) : Prop := x.req.token.isSome ∨ x.req.passphrase.isSome

/-- The request was denied, or has no credential but perhaps a session. -/
def Exchange.Spared (x : Exchange) : Prop := (∃ e, x.outcome = .error e) ∨ (∃ v, x.outcome = .ok v) ∧ ¬x.Proved

section

variable [Crypto] [VaultJson] [AuditJson] [Rendering]

/-- The operation needs the vault open: it is neither the lock nor the unlock, and never succeeds on a locked vault. -/
def NeedsOpen (op : String) : Prop := op ≠ "vault.lock" ∧ op ≠ "vault.unlock" ∧
  ∀ (req : Request) (proof : Option DerivedKeks) (b : Broker Session), req.op = op → b.session.isLocked = true →
    b.session.idleSelfLock = false → ∀ v b', (dispatch req proof).run b ≠ (.ok v, b')

/-- The daemon answers so. -/
def Daemon.Exchanges (d : Daemon) (x : Exchange) : Prop :=
  d.session = some x.before ∧ (d.ahead 0).mono = x.first ∧ ∃ proof d',
    d.holding x.before (do idleLock; dispatch x.req proof) = (x.outcome, d') ∧ d'.host.mono = x.last ∧
    d'.session = some x.after

/-- What is answered to a request is. -/
theorem Daemon.handleRequest_exchanges {d d' : Daemon} {req : Request} {s : Session} {o : Outcome WireError Value}
    {proof : Option DerivedKeks} (hs : d.session = some s) (hproof : d.deriveHumanProof req = .ok proof)
    (h : d.handleRequest req = (o, d')) :
    ∃ s', d.Exchanges ⟨req, s, (d.ahead 0).mono, o, d'.host.mono, s'⟩ ∧ d'.session = some s' := by
  rw [Daemon.handleRequest, hproof, hs] at h
  dsimp only at h
  have hsession : ∃ s', d'.session = some s' := by
    rw [Daemon.holding] at h
    cases h
    exact ⟨_, rfl⟩
  obtain ⟨s', hs'⟩ := hsession
  exact ⟨s', ⟨hs, rfl, proof, d', h, rfl, hs'⟩, hs'⟩

/-- Activity resets the countdown, and nothing else does: a request that needs the vault open and succeeds under a token
or a passphrase puts the deadline at its own instant and the timeout, and one that is spared leaves it where it was. -/
structure Exchange.Counted (x : Exchange) : Prop where
  used : ∀ v, x.outcome = .ok v → NeedsOpen x.req.op → x.Proved →
    ∃ t, x.first ≤ t ∧ t ≤ x.last ∧ x.after.idleDeadline = some (t + x.after.idleTimeout)
  spared : x.Spared → x.after.idleDeadline = x.before.idleDeadline
  expires : x.after.isLocked = false → ∀ now, x.after.idleExpired now = true ↔
    ∃ deadline, x.after.idleDeadline = some deadline ∧ deadline ≤ now

/-- No time has passed since the last activity of a vault that is used; and a request that is spared does not lock it.
-/
structure Exchange.Excused (x : Exchange) : Prop where
  used : ∀ v, x.outcome = .ok v → NeedsOpen x.req.op → x.Proved →
    x.first ≤ x.before.lastActivity ∧ x.before.lastActivity ≤ x.last
  spared : x.Spared → x.before.isLocked = false →
    x.before.idleExpired x.first = false ∧ (x.req.op = "vault.lock" → ∃ e, x.outcome = .error e)

variable {d : Daemon} {x : Exchange}

/-- What is left of a request behind its idle check: the check has locked the vault, or done nothing. -/
theorem Daemon.Exchanges.dispatched (h : d.Exchanges x) (hself : x.before.idleSelfLock = false)
    (ho : x.outcome ≠ .panic) :
    ∃ (proof : Option DerivedKeks) (b b' : Broker Session), (dispatch x.req proof).run b = (x.outcome, b') ∧
      b'.session = x.after ∧ b.session.idleSelfLock = false ∧
      (x.before.isLocked = false ∧ x.before.idleExpired x.first = true ∧ b.session.isLocked = true ∨
        (x.before.isLocked = true ∨ x.before.idleExpired x.first = false) ∧ b.session = x.before) := by
  obtain ⟨-, hfirst, proof, d', hrun, -, hafter⟩ := h
  rw [Daemon.holding, run_bind] at hrun
  have hidle := idleLock_run { d with session := x.before }
  dsimp only at hidle
  rw [hfirst] at hidle
  rcases hr : idleLock.run { d with session := x.before } with ⟨_ | e | _, b⟩ <;> rw [hr] at hrun
  · rcases hd : (dispatch x.req proof).run b with ⟨o, b'⟩
    dsimp only at hrun
    rw [hd] at hrun
    obtain ⟨rfl, rfl⟩ := Prod.mk.inj hrun
    rw [hr] at hidle
    refine ⟨proof, b, b', hd, Option.some.inj hafter, ?_⟩
    split at hidle
    · rename_i hexpired
      obtain ⟨h1, h2⟩ : x.before.idleExpired x.first = true ∧ x.before.isLocked = false := by simpa using hexpired
      have hdef := lockAndDrain_deferred "human"
        (show (Broker.glanced { d with session := x.before }).session.idleSelfLock = false from hself)
      rw [← hidle] at hdef
      exact ⟨hdef, Or.inl ⟨h2, h1, lockAndDrain_locks hidle.symm⟩⟩
    · rename_i hquiet
      cases hidle
      refine ⟨hself, Or.inr ⟨?_, rfl⟩⟩
      cases hlocked : x.before.isLocked with
      | true => exact Or.inl rfl
      | false =>
        refine Or.inr ?_
        simpa [hlocked] using hquiet
  · exact absurd (congrArg Prod.fst hr) (idleLock_unfailing _ e)
  · exact absurd (Prod.mk.inj hrun).1.symm ho

/-- A vault that was used counts down as it did. -/
theorem Daemon.Exchanges.used (h : d.Exchanges x) (hself : x.before.idleSelfLock = false) {v : Value}
    (ho : x.outcome = .ok v) (hop : NeedsOpen x.req.op) : x.before.RunsOn x.after ∧ x.after.isLocked = false := by
  obtain ⟨proof, b, b', hrun, hafter, hdef, hb⟩ := h.dispatched hself (by rw [ho]; nofun)
  rw [ho] at hrun
  have hopen : b.session.isLocked = false := by
    cases hlocked : b.session.isLocked with
    | false => rfl
    | true => exact absurd hrun (hop.2.2 x.req proof b rfl hlocked hdef v b')
  have hc : Broker.Carries b ((dispatch x.req proof).run b).2 := dispatch_carries hop.1 hop.2.1 b
  rw [hrun] at hc
  obtain ⟨hruns, -⟩ := hc hdef
  dsimp only at hruns
  rw [hafter] at hruns
  rcases hb with ⟨-, -, hlocked⟩ | ⟨-, heq⟩
  · rw [hopen] at hlocked
    cases hlocked
  · rw [← heq]
    exact ⟨hruns, hruns.isLocked.trans hopen⟩

/-- A request that is spared leaves the countdown behind its idle check as it is, unless it is a lock that succeeds. -/
theorem spared_carries {req : Request} {proof : Option DerivedKeks} {b b' : Broker Session}
    {o : Outcome WireError Value} (hrun : (dispatch req proof).run b = (o, b')) (hdef : b.session.idleSelfLock = false)
    (hspared : (∃ e, o = .error e) ∨ (∃ v, o = .ok v) ∧ ¬(req.token.isSome ∨ req.passphrase.isSome)) :
    b.session.RunsOn b'.session ∨ req.op = "vault.lock" ∧ (∀ e, o ≠ .error e) ∧ b'.session.isLocked = true := by
  rcases hspared with ⟨e, rfl⟩ | ⟨⟨v, rfl⟩, hno⟩
  · exact Or.inl (dispatch_spares b e b' hrun hdef).1
  by_cases hlock : req.op = "vault.lock"
  · exact Or.inr ⟨hlock, nofun, dispatch_locks hlock hdef hrun⟩
  by_cases hunlock : req.op = "vault.unlock"
  · simp only [not_or, Bool.not_eq_true, Option.isSome_eq_false_iff, Option.isNone_iff_eq_none] at hno
    exact absurd hrun (dispatch_unlock hunlock hno.1 hno.2 v)
  have hc : Broker.Carries b ((dispatch req proof).run b).2 := dispatch_carries hlock hunlock b
  rw [hrun] at hc
  exact Or.inl (hc hdef).1

/-- The deadline after a request that is spared. -/
theorem Daemon.Exchanges.spared (h : d.Exchanges x) (hself : x.before.idleSelfLock = false)
    (ht : x.before.idleTimeout ≠ 0)
    (hspared : x.Spared) : x.after.idleDeadline = x.before.idleDeadline ↔ (x.before.isLocked = false →
      x.before.idleExpired x.first = false ∧ (x.req.op = "vault.lock" → ∃ e, x.outcome = .error e)) := by
  have hlocked {s : Session} (hs : s.isLocked = true) : s.idleDeadline = none := by simp [Session.idleDeadline, hs]
  have hopen {s : Session} (hs : s.isLocked = false) (ht : s.idleTimeout ≠ 0) : s.idleDeadline ≠ none := by
    simp [Session.idleDeadline, hs, ht]
  have ho : x.outcome ≠ .panic := by
    rcases hspared with ⟨e, he⟩ | ⟨⟨v, hv⟩, -⟩
    · rw [he]; simp
    · rw [hv]; simp
  obtain ⟨proof, b, b', hrun, hafter, hdef, hb⟩ := h.dispatched hself ho
  have hcarries := spared_carries hrun hdef hspared
  rw [hafter] at hcarries
  rcases hb with ⟨hbefore, hexpired, hb⟩ | ⟨hquiet, hb⟩
  · -- the idle check has locked the vault, and it stays locked
    have hend : x.after.isLocked = true := by
      rcases hcarries with hruns | ⟨-, -, hend⟩
      · exact hruns.isLocked.trans hb
      · exact hend
    rw [hlocked hend, hexpired]
    constructor
    · intro heq
      exact absurd heq.symm (hopen hbefore ht)
    · intro hcond
      cases (hcond hbefore).1
  · rw [hb] at hcarries
    rcases hcarries with hruns | ⟨hop, hok, hend⟩
    · constructor
      · intro _ hbefore
        have hexpired : x.before.idleExpired x.first = false := by
          rcases hquiet with h | h
          · rw [hbefore] at h
            cases h
          · exact h
        refine ⟨hexpired, fun hop => ?_⟩
        rcases hspared with he | ⟨⟨v, hv⟩, -⟩
        · exact he
        · rw [hv] at hrun
          have hend := dispatch_locks hop hdef hrun
          rw [hafter, hruns.isLocked, hbefore] at hend
          cases hend
      · intro _
        exact hruns.idleDeadline
    · rw [hlocked hend]
      constructor
      · intro heq hbefore
        exact absurd heq.symm (hopen hbefore ht)
      · intro hcond
        cases hbefore : x.before.isLocked with
        | true => rw [hlocked hbefore]
        | false =>
          obtain ⟨e, he⟩ := (hcond hbefore).2 hop
          exact absurd he (hok e)

/-- Whatever came before, a request is counted exactly when it is excused: only an unlock moves the deadline of a vault
that stays open, and only a lock takes it away. -/
theorem Watched.activity_resets_iff {w₀ w : Watched} {es : List Watched.Event} (h₀ : w₀.Fresh)
    (hr : runs Watched.step w₀ es = some w) (hx : w.daemon.Exchanges x) (ht : x.before.idleTimeout ≠ 0) :
    x.Counted ↔ x.Excused := by
  have hself := (h₀.kept_run hr).deferred _ hx.1
  have hdeadline {v : Value} (ho : x.outcome = .ok v) (hop : NeedsOpen x.req.op) :
      x.after.idleDeadline = some (x.before.lastActivity + x.after.idleTimeout) := by
    obtain ⟨hruns, hopen⟩ := hx.used hself ho hop
    rw [Session.idleDeadline, if_neg (by simp [hruns.idleTimeout, ht, hopen]), hruns.lastActivity]
  constructor
  · intro h
    refine ⟨fun v ho hop hp => ?_, fun hs => (hx.spared hself ht hs).mp (h.spared hs)⟩
    obtain ⟨t, h1, h2, heq⟩ := h.used v ho hop hp
    rw [hdeadline ho hop, Option.some.injEq] at heq
    obtain rfl : x.before.lastActivity = t := Nat.add_right_cancel heq
    exact ⟨h1, h2⟩
  · intro h
    refine ⟨fun v ho hop hp => ?_, fun hs => (hx.spared hself ht hs).mpr (h.spared hs), x.after.idleExpired_iff⟩
    obtain ⟨h1, h2⟩ := h.used v ho hop hp
    exact ⟨_, h1, h2, hdeadline ho hop⟩

end

namespace Reference

/-- The projects are listed with the passphrase. -/
def listRequest : Request := ⟨"0123456789abcdef", "project.list", some ⟨none, some typed, none⟩, .object []⟩

theorem needsOpen_projectList : NeedsOpen "project.list" := by
  refine ⟨by decide, by decide, fun req proof b hop hlocked hdef v b' h => ?_⟩
  obtain ⟨identity, actor, b1, b2, b3, -, -, h3, hc, -⟩ := dispatch_ok h
  rw [dispatchOp, hop] at h3
  obtain ⟨list, b4, h4, -⟩ := bind_eq_ok h3
  rw [ask, run_step] at h4
  rcases hr : (Call.projectList actor).exec.run ⟨b2.session, b2.host.under (b2.ahead 0)⟩ with ⟨_ | e | _, t⟩ <;>
    rw [hr] at h4 <;> cases h4
  obtain ⟨_, s1, hgate, -⟩ := bind_eq_ok hr
  obtain ⟨-, u, hu⟩ := gate_eq_ok hgate
  have hstill := (hc hdef).1.isLocked
  rw [hlocked, Session.isLocked, hu] at hstill
  cases hstill

/-- A vault that was just created lists its projects. -/
theorem lists {v : Vault} {s : Sys} {u : Unlocked} (hs : v.Coherent s) (hl : s.session.audit.limits = .default)
    (hlog : Bounded v 1 s.host.auditFile) (hself : s.session.idleSelfLock = false) (hu : s.session.unlocked = some u)
    (hwall : s.host.wall = 0) (happ : s.host.appends 0 = .ok) :
    ∃ t, (projectList "human").run s = (.ok u.doc.projects, t) ∧ t.host.mono = s.host.mono := by
  have hidle : s.session.locksItself s.host.mono = false := by simp [Session.locksItself, hself]
  have hbrief : Brief { actor := "human", op := "project.list", decision := .allowed } := by decide +kernel
  obtain ⟨audit, auditFile, appends, hrec, -⟩ := recorded _ .ordinary hs hl hlog (by omega) hbrief hwall happ
  have hopen : requireUnlocked.run s = (.ok u, s) := by simp [requireUnlocked, run_bind, hu]
  refine ⟨⟨{ s.session with audit }, { s.host with auditFile, appends }⟩, ?_, rfl⟩
  rw [projectList, reading, run_bind_ok (gate_ok hidle hu _ _ _ _), run_bind_ok hopen]
  dsimp only
  rw [auditRecord, run_bind_ok hrec, run_pure]

/-- Some time after its creation the vault is asked for its projects, and answers. -/
theorem listed {delay : Nat} (hdelay : delay < ofSecs 300) : ∃ (now : Instant) (w : Watched) (x : Exchange) (v : Value),
    runs Watched.step (usedDaemon now) [.request createRequest none] = some w ∧ w.daemon.Exchanges x ∧
    x.outcome = .ok v ∧ NeedsOpen x.req.op ∧ x.Proved ∧ x.before.idleTimeout = ofSecs 300 ∧
    x.first = x.before.lastActivity + delay ∧ x.last = x.first ∧ x.before.idleExpired x.first = false := by
  obtain ⟨s, h', hr⟩ := create_empty (ofSecs 300)
  obtain ⟨u, y, entry, hc⟩ := create_eq_ok hr
  let now : Instant := s.lastActivity + delay
  let cond : Conditions := { conditions with mono := now }
  have hcreate := opCreate_created (d := (usedDaemon now).daemon) rfl hr
  let w := (usedDaemon now).releaseArmed ((usedDaemon now).daemon.opCreate createRequest)
  have hdaemon : w.daemon = { (usedDaemon now).daemon with
      host := h', ahead := fun _ => cond, session := some s.deferIdleLock } := by
    rw [Watched.releaseArmed_daemon, hcreate]
    rfl
  obtain ⟨recipe, derived, -, -, hk⟩ := unlock_eq_ok (hc.openedBy s.envelope rfl)
  let b : Broker Session :=
    { (usedDaemon now).daemon with host := h'.under cond, ahead := fun _ => cond, session := s.deferIdleLock }
  have hquiet : s.idleExpired now = false := by
    have htimeout : s.idleTimeout = ofSecs 300 := create_idleTimeout hr
    have hnow : now - s.lastActivity = delay := Nat.add_sub_cancel_left _ _
    simp only [Session.idleExpired, htimeout, hnow, Bool.and_eq_false_iff, decide_eq_false_iff_not]
    exact Or.inr (Nat.not_le.mpr hdelay)
  have hidle : idleLock.run { w.daemon with session := s.deferIdleLock } = (.ok (), b) := by
    rw [idleLock_run, hdaemon, if_neg]
    · rfl
    · change ¬(s.idleExpired now && !s.isLocked) = true
      rw [hquiet]
      simp
  have hvalid : b.session.proofIsValid derived = true := by
    rw [Session.proofIsValid]
    rw [show b.session.envelope = s.envelope from rfl, hk]
  have hwhole : cond.Whole := by
    intro _ _ _ h
    cases h
  have hcoherent : Vault.Coherent ⟨s.envelope.header, u.keys⟩ ⟨s.deferIdleLock, (h'.under cond).under cond⟩ := by
    have h := (hc.coheres (Or.inl rfl) ⟨_, Chain.empty _⟩).session s rfl cond hwhole
    exact (h.under hwhole).congr rfl rfl rfl rfl rfl h.unlocked h.sealed
  have hlog : Bounded ⟨s.envelope.header, u.keys⟩ 1 h'.auditFile := bounded_created hc
  obtain ⟨t, ht, hmono⟩ := lists hcoherent hc.audit.2.2 hlog rfl hc.unlocked rfl rfl
  have hdispatch : ∃ v b', (dispatch listRequest (some derived)).run b = (.ok v, b') ∧ b'.host.mono = now := by
    have hask : (ask (.projectList "human")).run b = (.ok u.doc.projects,
        { b with session := t.session, host := t.host, ahead := fun i => b.ahead (i + 1) }) := by
      have hcall : (Call.projectList "human").exec.run ⟨b.session, b.host.under (b.ahead 0)⟩ =
        (.ok u.doc.projects, t) := ht
      rw [ask, run_step, hcall]
      rfl
    have harm : ∃ v b', (dispatchOp listRequest ⟨"human", .human, some derived⟩).run b = (.ok v, b') ∧
      b'.host.mono = now :=
      ⟨_, _, run_bind_ok hask, hmono⟩
    obtain ⟨v, b', harm, hlast⟩ := harm
    exact ⟨v, b', dispatch_arm (authenticate_passphrase rfl hvalid) rfl rfl harm, hlast⟩
  obtain ⟨v, b', hdispatch, hlast⟩ := hdispatch
  refine ⟨now, w, ⟨listRequest, s.deferIdleLock, now, .ok v, b'.host.mono, b'.session⟩, v, ?_, ⟨?_, ?_, some derived,
    { b' with session := some b'.session }, ?_, rfl, rfl⟩, rfl, needsOpen_projectList, Or.inr rfl,
    (create_idleTimeout hr : s.idleTimeout = _), rfl, hlast, hquiet⟩
  · exact runs_cons.mpr ⟨w, rfl, rfl⟩
  · rw [hdaemon]
  · rw [hdaemon]
  · rw [Daemon.holding, run_bind_ok hidle, hdispatch]

end Reference

/-- A use of the vault at the instant of its creation is counted. -/
theorem Watched.activity_resets_at_once : ∃ (w₀ w : Watched) (es : List Watched.Event) (x : Exchange), w₀.Fresh ∧
    runs Watched.step w₀ es = some w ∧ w.daemon.Exchanges x ∧ (∃ v, x.outcome = .ok v) ∧ NeedsOpen x.req.op ∧ x.Proved ∧
    x.Counted := by
  obtain ⟨now, w, x, v, hr, hx, ho, hop, hproved, ht, hfirst, hlast, hquiet⟩ :=
    Reference.listed (show 0 < ofSecs 300 by decide)
  have hfirst : x.first = x.before.lastActivity := hfirst
  refine ⟨_, w, _, x, Reference.usedDaemon_fresh now, hr, hx, ⟨v, ho⟩, hop, hproved,
    (Watched.activity_resets_iff (Reference.usedDaemon_fresh now) hr hx (by rw [ht]; decide)).mpr
      ⟨fun _ _ _ _ => ?_, fun hs _ => ?_⟩⟩
  · rw [hlast, hfirst]
    exact ⟨le_refl _, le_refl _⟩
  · exact ⟨hquiet, fun hlock => absurd hlock hop.1⟩

/-- A use of the vault ten seconds after its creation leaves the deadline where the creation has put it. -/
theorem Watched.use_is_no_activity : ∃ (w₀ w : Watched) (es : List Watched.Event) (x : Exchange), w₀.Fresh ∧
    runs Watched.step w₀ es = some w ∧ w.daemon.Exchanges x ∧ (∃ v, x.outcome = .ok v) ∧ NeedsOpen x.req.op ∧ x.Proved ∧
    x.first = x.before.lastActivity + ofSecs 10 ∧ x.after.idleDeadline = some (x.before.lastActivity + ofSecs 300) ∧
    ¬x.Counted := by
  obtain ⟨now, w, x, v, hr, hx, ho, hop, hproved, ht, hfirst, -⟩ :=
    Reference.listed (show ofSecs 10 < ofSecs 300 by decide)
  have hself := ((Reference.usedDaemon_fresh now).kept_run hr).deferred _ hx.1
  obtain ⟨hruns, hopen⟩ := hx.used hself ho hop
  have hdeadline : x.after.idleDeadline = some (x.before.lastActivity + ofSecs 300) := by
    rw [Session.idleDeadline, hruns.lastActivity, hruns.idleTimeout, ht, hopen]
    rfl
  refine ⟨_, w, _, x, Reference.usedDaemon_fresh now, hr, hx, ⟨v, ho⟩, hop, hproved, hfirst, hdeadline, fun h => ?_⟩
  obtain ⟨t, hle, -, heq⟩ := h.used v ho hop hproved
  rw [hdeadline, hruns.idleTimeout, ht, Option.some.injEq] at heq
  rw [hfirst] at hle
  have h10 : 0 < ofSecs 10 := by decide
  obtain rfl : x.before.lastActivity = t := Nat.add_right_cancel heq
  exact absurd hle (Nat.not_le.mpr (Nat.lt_add_of_pos_right h10))

end SecretsVault
