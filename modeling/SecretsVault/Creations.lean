import SecretsVault.Lib.Interleaving
import SecretsVault.ReferenceRuns

/-!
# Creating a vault from several processes

Any number of calls of `Session.create` and `Session.load` on one path, in one process or in several, are in flight at
once. A call takes one step at a time: `create` looks for the vault file, takes the lock of the vault, stages its audit
entry and builds the envelope, appends the entry, saves the vault file and returns a session; the lock is let go when
the session is dropped, or when the call returns an error. A process may die at any point, and the kernel then lets its
lock go.

- `ends_create`, `ends_load`: the steps of a call, without a pause, are the call.
- `create_never_overwrites`: after a create has returned a session no other create touches the vault file, and all that
  are not answered yet fail, where every create comes to the lock while there is still no vault file, or finds it taken.
- `create_overwrites`: the file is looked for before the lock is taken, and not again; a create that is overtaken in
  between replaces the vault of another.
-/

namespace SecretsVault

open Lib Lib.Prog Host

/-- The vault file and its lock are the same. -/
structure SameVault (h h' : Host) : Prop where
  vaultFile : h'.vaultFile = h.vaultFile
  vaultOwned : h'.vaultOwned = h.vaultOwned

theorem SameVault.refl (h : Host) : SameVault h h := ⟨rfl, rfl⟩

theorem SameVault.trans {a b c : Host} (h : SameVault a b) (h' : SameVault b c) : SameVault a c :=
  ⟨h'.1.trans h.1, h'.2.trans h.2⟩

instance : IsPreorder Host SameVault := { refl := SameVault.refl, trans := fun _ _ _ => SameVault.trans }

theorem randomBytes_sameVault (n : Nat) : Keeps SameVault (randomBytes n) := fun _ => ⟨rfl, rfl⟩

theorem generateKey_sameVault : Keeps SameVault Envelope.generateKey := by
  refine (randomBytes_sameVault _).attempt.bind fun r => ?_
  split
  · exact keeps_pure _
  · exact keeps_lift _

section

variable [Crypto] [VaultJson] [AuditJson]

/-! ## What the steps of a call leave alone -/

omit [AuditJson] in
theorem create_sameVault (passphrase document : Bytes) (createdAt : OffsetDateTime) :
    Keeps SameVault (Envelope.create passphrase document createdAt) := by
  refine generateKey_sameVault.bind fun mek => generateKey_sameVault.bind fun dek => ?_
  refine (randomBytes_sameVault _).bind fun salt => (randomBytes_sameVault _).bind fun nonce => ?_
  refine ((randomBytes_sameVault 8).bind fun _ => keeps_pure _ : Keeps SameVault hexId).bind fun id => ?_
  refine (keeps_lift _).bind fun kek => (randomBytes_sameVault _).bind fun dekNonce => ?_
  exact (randomBytes_sameVault _).bind fun docNonce => keeps_pure _

omit [VaultJson] in
theorem loadOrInit_sameVault : Keeps SameVault AuditLog.loadOrInit := by
  intro h
  rw [AuditLog.loadOrInit, run_get_bind]
  cases h.auditFile with
  | none =>
    have hcreate : Keeps SameVault createAudit := by
      intro h
      rw [createAudit, run_step]
      dsimp only
      split <;> exact ⟨rfl, rfl⟩
    exact (hcreate.bind fun _ => keeps_pure _ : Keeps SameVault _) h
  | some content => exact ((keeps_lift _).bind fun _ => keeps_pure _ : Keeps SameVault _) h

theorem prepare_sameVault (passphrase : Bytes) : Keeps SameVault (prepare passphrase) := by
  refine loadOrInit_sameVault.bind fun audit => keeps_get.bind fun h => (keeps_lift _).bind fun staged => ?_
  refine (keeps_lift _).bind fun bytes => (create_sameVault _ _ _).bind fun envelope =>
    (keeps_lift _).bind fun keys => ?_
  exact (keeps_lift _).bind fun staged => keeps_pure _

omit [VaultJson] in
theorem append_sameVault (p : Prepared) : Keeps SameVault p.append := by
  intro h
  obtain ⟨auditFile, appends, hh⟩ := appendStaged_auditOnly p.staged (p.audit, h)
  rw [Prepared.append, run_get_bind]
  dsimp only
  rw [run_modify_bind, hh]
  have hrest : Keeps SameVault (do
      lift ((AuditLog.appendStaged p.staged).run (p.audit, h)).1
      pure { p with audit := ((AuditLog.appendStaged p.staged).run (p.audit, h)).2.1 } :
        Prog VaultError Host Prepared) :=
    (keeps_lift _).bind fun _ => keeps_pure _
  exact SameVault.trans (b := { h with auditFile, appends }) ⟨rfl, rfl⟩ (hrest _)

theorem readVault_sameVault (idleTimeout : Nat) : Keeps SameVault (readVault idleTimeout) := by
  refine keeps_get.bind fun h => (keeps_lift _).bind fun bytes => ?_
  split
  · exact keeps_fail _
  · refine (keeps_lift _).bind fun envelope => loadOrInit_sameVault.bind fun audit => keeps_get.bind fun h => ?_
    exact keeps_pure _

omit [Crypto] [VaultJson] [AuditJson] in
theorem checkAbsent_sameVault (passphrase : Bytes) : Keeps SameVault (checkAbsent passphrase) := by
  unfold checkAbsent
  split
  · exact keeps_fail _
  · refine keeps_get.bind fun h => ?_
    split
    · exact keeps_fail _
    · exact keeps_pure _

/-! ## Calls in flight -/

/-- What a call is asked for. -/
inductive Task where
  | create (passphrase : Bytes)
  | load

/-- Where a call stands. -/
inductive Phase where
  | called
  /-- There was no vault file. -/
  | checked
  /-- The lock of the vault is taken. -/
  | holding
  | prepared (p : Prepared)
  | appended (p : Prepared)
  | saved (p : Prepared)
  /-- The call ends without a session, with an error or with a panic; the lock is still held. -/
  | failing (e : Option VaultError)
  /-- The call ended without a session. -/
  | failed (e : Option VaultError)
  /-- The call returned a session. -/
  | opened (s : Session)
  /-- The session was dropped. -/
  | dropped (s : Session)
  /-- The process died. -/
  | died

/-- Where a call goes on after one of its steps. -/
def Phase.follow {α : Type} (go : α → Phase) (stop : Option VaultError → Phase) : Outcome VaultError α → Phase
  | .ok a => go a
  | .error e => stop (some e)
  | .panic => stop none

/-- The answer of a call. -/
def Phase.answer? : Phase → Option (Outcome VaultError Session)
  | .opened s => some (.ok s)
  | .failed (some e) => some (.error e)
  | .failed none => some .panic
  | _ => none

/-- A call has the lock of the vault. -/
def Phase.holds : Phase → Bool
  | .holding | .prepared _ | .appended _ | .saved _ | .failing _ | .opened _ => true
  | _ => false

/-- A call of `Session.create` or of `Session.load`. -/
structure Caller where
  task : Task
  idleTimeout : Nat
  phase : Phase

/-- The next step of a call; the last one drops the session. -/
def Caller.next (c : Caller) (h : Host) : Option (Phase × Host) :=
  let perform {α : Type} (m : Prog VaultError Host α) (go : α → Phase) (stop : Option VaultError → Phase) :=
    some (Phase.follow go stop (m.run h).1, (m.run h).2)
  match c.task, c.phase with
  | .create passphrase, .called => perform (checkAbsent passphrase) (fun _ => .checked) .failed
  | .create _, .checked | .load, .called => perform acquireVault (fun _ => .holding) .failed
  | .create passphrase, .holding => perform (prepare passphrase) .prepared .failing
  | .create _, .prepared p => perform p.append .appended .failing
  | .create _, .appended p => perform p.save (fun _ => .saved p) .failing
  | .create _, .saved p => perform (p.session c.idleTimeout) (fun s => .opened s) .failing
  | .load, .holding => perform (readVault c.idleTimeout) (fun s => .opened s) .failing
  | _, .failing e => some (.failed e, h.releaseVault)
  | _, .opened s => some (.dropped s, h.releaseVault)
  | _, _ => none

/-- The calls in flight on one path, and what they run on. -/
structure Creations where
  host : Host
  callers : Nat → Caller

/-- What happens next: a call takes its next step, the process of a call dies, or time passes. -/
inductive Creations.Event where
  | next (i : Nat)
  | die (i : Nat)
  | meanwhile (c : Conditions)

namespace Creations

def setPhase (w : Creations) (i : Nat) (p : Phase) (host : Host) : Creations :=
  ⟨host, Function.update w.callers i { w.callers i with phase := p }⟩

def step (w : Creations) : Event → Option Creations
  | .next i => ((w.callers i).next w.host).map fun r => w.setPhase i r.1 r.2
  | .die i => some (w.setPhase i .died (if (w.callers i).phase.holds then w.host.releaseVault else w.host))
  | .meanwhile c => some { w with host := w.host.under c }

/-- No call has begun, and nobody has the lock. -/
def Fresh (w : Creations) : Prop := w.host.vaultOwned = false ∧ ∀ i, (w.callers i).phase = .called

end Creations

/-! ## What a step does to the vault -/

namespace Caller

/-- A create has the lock of the vault, and has not saved it. -/
def writing (c : Caller) : Bool :=
  match c.task, c.phase with
  | .create _, .holding | .create _, .prepared _ | .create _, .appended _ => true
  | _, _ => false

/-- The envelope a create has saved. -/
def stored (c : Caller) : Option Envelope :=
  match c.task, c.phase with
  | .create _, .saved p => some p.envelope
  | .create _, .opened s | .create _, .dropped s => some s.envelope
  | _, _ => none

/-- What a step of a call does to the vault file and its lock. -/
inductive Moves (c : Caller) (h : Host) (p : Phase) (h' : Host) : Prop
  | waits (hc : c.phase.holds = false) (hp : p.holds = false) (hs : SameVault h h')
      (hst : ({ c with phase := p } : Caller).stored = none)
  | acquires (hc : c.phase.holds = false) (hq : ∀ passphrase, c.task = .create passphrase → c.phase = .checked)
      (ho : h.vaultOwned = false) (hp : p = .holding) (hh : h' = h.owning)
  | works (hc : c.phase.holds = true) (hp : p.holds = true) (hs : SameVault h h')
      (hw : ({ c with phase := p } : Caller).writing = true → c.writing = true)
      (hst : ∀ e, ({ c with phase := p } : Caller).stored = some e → c.stored = some e)
  | saves (hw : c.writing = true) (e : Envelope) (hp : ({ c with phase := p } : Caller).stored = some e)
      (hh : p.holds = true) (hf : h'.vaultFile = some e.toBytes) (ho : h'.vaultOwned = h.vaultOwned)
  | releases (hc : c.phase.holds = true) (hp : p.holds = false) (hh : h' = h.releaseVault)
      (hst : ∀ e, ({ c with phase := p } : Caller).stored = some e → c.stored = some e)

omit [Crypto] [VaultJson] [AuditJson] in
theorem holds_of_writing {c : Caller} (h : c.writing = true) : c.phase.holds = true := by
  obtain ⟨task, idleTimeout, phase⟩ := c
  cases task <;> cases phase <;> first | rfl | cases h

omit [Crypto] [VaultJson] [AuditJson] in
theorem not_writing_of_stored {c : Caller} {e : Envelope} (h : c.stored = some e) : c.writing = false := by
  obtain ⟨task, idleTimeout, phase⟩ := c
  cases task <;> cases phase <;> first | rfl | cases h

omit [Crypto] [AuditJson] in
/-- A step inside the lock that cannot save. -/
theorem Moves.work {α : Type} {c : Caller} {h : Host} {m : Prog VaultError Host α} {go : α → Phase}
    (hm : Keeps SameVault m) (hc : c.phase.holds = true) (hp : ∀ a, (go a).holds = true)
    (hw : ∀ a, ({ c with phase := go a } : Caller).writing = true → c.writing = true)
    (hst : ∀ a e, ({ c with phase := go a } : Caller).stored = some e → (m.run h).1 = .ok a → c.stored = some e) :
    c.Moves h (Phase.follow go .failing (m.run h).1) (m.run h).2 := by
  have hs := hm h
  rcases hr : m.run h with ⟨o, h'⟩
  rw [hr] at hs hst
  have hstop : ∀ e, c.Moves h (.failing e) h' := fun e =>
    .works hc rfl hs (by cases c with | mk task _ _ => cases task <;> simp [writing])
      (by cases c with | mk task _ _ => cases task <;> simp [stored])
  cases o with
  | ok a => exact .works hc (hp a) hs (hw a) fun e he => hst a e he rfl
  | error e => exact hstop _
  | panic => exact hstop _

theorem next_moves {c : Caller} {h h' : Host} {p : Phase} (hn : c.next h = some (p, h')) : c.Moves h p h' := by
  obtain ⟨task, idleTimeout, phase⟩ := c
  have hrelease : ∀ {q : Phase}, phase.holds = true → q.holds = false → some (q, h.releaseVault) = some (p, h') →
      (∀ e, (⟨task, idleTimeout, q⟩ : Caller).stored = some e → (⟨task, idleTimeout, phase⟩ : Caller).stored = some e) →
      Moves ⟨task, idleTimeout, phase⟩ h p h' := by
    intro q hc hq heq hst
    cases heq
    exact .releases hc hq rfl hst
  have hacquire : phase.holds = false → (∀ passphrase, task = .create passphrase → phase = .checked) →
      some (Phase.follow (fun _ => .holding) .failed (acquireVault.run h).1, (acquireVault.run h).2) = some (p, h') →
      Moves ⟨task, idleTimeout, phase⟩ h p h' := by
    intro hc hq heq
    obtain ⟨e, hfails, -⟩ | ⟨-, ho, htaken⟩ := acquireVault_cases h
    · rw [hfails] at heq
      cases heq
      exact .waits hc rfl ⟨rfl, rfl⟩ (by cases task <;> rfl)
    · rw [htaken] at heq
      cases heq
      exact .acquires hc hq ho rfl rfl
  cases phase with
  | called =>
    cases task with
    | create passphrase =>
      simp only [next, Option.some.injEq, Prod.mk.injEq] at hn
      obtain ⟨hp, hh⟩ := hn
      have hs := checkAbsent_sameVault passphrase h
      rw [hh] at hs
      refine .waits rfl ?_ hs ?_ <;> rw [← hp] <;> cases ((checkAbsent passphrase).run h).1 <;> rfl
    | load => exact hacquire rfl (fun _ heq => by cases heq) hn
  | checked =>
    cases task with
    | create passphrase => exact hacquire rfl (fun _ _ => rfl) hn
    | load => cases hn
  | holding =>
    cases task with
    | create passphrase =>
      cases hn
      exact Moves.work (prepare_sameVault passphrase) rfl (fun _ => rfl) (fun _ _ => rfl) fun _ _ he _ => by cases he
    | load =>
      cases hn
      exact Moves.work (readVault_sameVault idleTimeout) rfl (fun _ => rfl) (fun _ hw => hw) fun _ _ he _ => by cases he
  | prepared q =>
    cases task with
    | create passphrase =>
      cases hn
      exact Moves.work (append_sameVault q) rfl (fun _ => rfl) (fun _ _ => rfl) fun _ _ he _ => by cases he
    | load => cases hn
  | appended q =>
    cases task with
    | create passphrase =>
      simp only [next, Prepared.save, saveAtomic, run_step] at hn
      cases hsave : h.saves 0 with
      | none =>
        rw [hsave] at hn
        cases hn
        exact .saves rfl q.envelope rfl rfl rfl rfl
      | some e =>
        rw [hsave] at hn
        cases hn
        exact .works rfl rfl ⟨rfl, rfl⟩ (fun _ => rfl) fun _ he => by cases he
    | load => cases hn
  | saved q =>
    cases task with
    | create passphrase =>
      cases hn
      refine Moves.work (keeps_get.bind fun _ => keeps_pure _ : Keeps SameVault (q.session idleTimeout))
        rfl (fun _ => rfl) (fun _ hw => hw) fun s e he hr => ?_
      cases hr
      exact he
    | load => cases hn
  | failing e => cases task <;> exact hrelease rfl rfl hn fun _ he => by cases he
  | failed e => cases task <;> cases hn
  | opened s => cases task <;> exact hrelease rfl rfl hn fun _ he => he
  | dropped s => cases task <;> cases hn
  | died => cases task <;> cases hn

omit [Crypto] [AuditJson] in
/-- A process that dies lets the lock go. -/
theorem die_moves (c : Caller) (h : Host) : c.Moves h .died (if c.phase.holds then h.releaseVault else h) := by
  have hst : ({ c with phase := .died } : Caller).stored = none := by
    obtain ⟨task, -, -⟩ := c
    cases task <;> rfl
  cases hc : c.phase.holds with
  | true => exact .releases hc rfl rfl fun e he => by rw [hst] at he; cases he
  | false => exact .waits hc rfl (SameVault.refl h) hst

end Caller

namespace Creations

variable {w w' : Creations} {e : Event}

theorem step_eq_some (hs : w.step e = some w') :
    (∃ i p h', (p = .holding → e = .next i) ∧ (w.callers i).Moves w.host p h' ∧ w' = w.setPhase i p h') ∨
      (w'.callers = w.callers ∧ SameVault w.host w'.host) := by
  cases e with
  | next i =>
    obtain ⟨⟨p, h'⟩, hn, rfl⟩ := Option.map_eq_some_iff.mp hs
    exact Or.inl ⟨i, p, h', fun _ => rfl, Caller.next_moves hn, rfl⟩
  | die i =>
    cases hs
    exact Or.inl ⟨i, _, _, (fun hp => by cases hp), Caller.die_moves _ _, rfl⟩
  | meanwhile c =>
    cases hs
    exact Or.inr ⟨rfl, rfl, rfl⟩

omit [Crypto] [VaultJson] [AuditJson] in
@[simp] theorem setPhase_host (w : Creations) (i : Nat) (p : Phase) (h : Host) : (w.setPhase i p h).host = h := rfl

omit [Crypto] [VaultJson] [AuditJson] in
@[simp] theorem setPhase_same (w : Creations) (i : Nat) (p : Phase) (h : Host) :
    (w.setPhase i p h).callers i = { w.callers i with phase := p } := by
  simp [setPhase]

omit [Crypto] [VaultJson] [AuditJson] in
@[simp] theorem setPhase_other (w : Creations) {i j : Nat} (p : Phase) (h : Host) (hne : j ≠ i) :
    (w.setPhase i p h).callers j = w.callers j := by
  simp [setPhase, hne]

omit [Crypto] [VaultJson] [AuditJson] in
@[simp] theorem setPhase_setPhase (w : Creations) (i : Nat) (p q : Phase) (h h' : Host) :
    (w.setPhase i p h).setPhase i q h' = w.setPhase i q h' := by
  simp [setPhase]

/-! ### A call that is not interrupted -/

/-- A call that takes its steps without a pause ends with an answer. -/
def Ends (w : Creations) (i : Nat) (o : Outcome VaultError Session) (h' : Host) : Prop :=
  ∃ n p, p.answer? = some o ∧ runs step w (List.replicate n (.next i)) = some (w.setPhase i p h')

/-- The same inside the lock: an error lets it go. -/
def EndsHeld (w : Creations) (i : Nat) (o : Outcome VaultError Session) (h' : Host) : Prop :=
  match o with
  | .ok s => w.Ends i (.ok s) h'
  | .error e => w.Ends i (.error e) h'.releaseVault
  | .panic => True

variable {i : Nat} {o : Outcome VaultError Session} {h h' : Host}

theorem Ends.step {p : Phase} (hs : w.step (.next i) = some (w.setPhase i p h)) (he : (w.setPhase i p h).Ends i o h') :
    w.Ends i o h' := by
  obtain ⟨n, q, hq, hr⟩ := he
  refine ⟨n + 1, q, hq, runs_cons.mpr ⟨_, hs, ?_⟩⟩
  rwa [setPhase_setPhase] at hr

theorem ends_of_answer {p : Phase} (hp : p.answer? = some o) : (w.setPhase i p h).Ends i o h :=
  ⟨0, p, hp, by simp⟩

theorem ends_failing (e : VaultError) : (w.setPhase i (.failing (some e)) h).Ends i (.error e) h.releaseVault := by
  refine Ends.step (p := .failed (some e)) (h := h.releaseVault) ?_ (ends_of_answer rfl)
  rw [Creations.step, setPhase_same, setPhase_host]
  rcases w.callers i with ⟨task, idleTimeout, phase⟩
  cases task <;> rfl

/-- One step inside the lock, and the rest of the call. -/
theorem EndsHeld.bind {α : Type} {m : Prog VaultError Host α} {f : α → Prog VaultError Host Session} {g : α → Phase}
    (hn : (w.callers i).next w.host = some (Phase.follow g .failing (m.run w.host).1, (m.run w.host).2))
    (hf : ∀ a h1, (w.setPhase i (g a) h1).EndsHeld i ((f a).run h1).1 ((f a).run h1).2) :
    w.EndsHeld i ((m >>= f).run w.host).1 ((m >>= f).run w.host).2 := by
  rw [run_bind]
  have hs : w.step (.next i) =
      some (w.setPhase i (Phase.follow g .failing (m.run w.host).1) (m.run w.host).2) := by
    rw [Creations.step, hn]
    rfl
  rcases hr : m.run w.host with ⟨a | e | _, h1⟩ <;> rw [hr] at hs
  · have hrest := hf a h1
    change w.EndsHeld i ((f a).run h1).1 ((f a).run h1).2
    rcases hr' : (f a).run h1 with ⟨s | e | _, h2⟩ <;> rw [hr'] at hrest
    · exact Ends.step hs hrest
    · exact Ends.step hs hrest
    · trivial
  · exact Ends.step hs (ends_failing e)
  · trivial

/-- The last step of a call. -/
theorem EndsHeld.last {m : Prog VaultError Host Session}
    (hn : (w.callers i).next w.host = some (Phase.follow .opened .failing (m.run w.host).1, (m.run w.host).2)) :
    w.EndsHeld i (m.run w.host).1 (m.run w.host).2 := by
  have hs : w.step (.next i) =
      some (w.setPhase i (Phase.follow .opened .failing (m.run w.host).1) (m.run w.host).2) := by
    rw [Creations.step, hn]
    rfl
  rcases hr : m.run w.host with ⟨s | e | _, h1⟩ <;> rw [hr] at hs
  · exact Ends.step hs (ends_of_answer rfl)
  · exact Ends.step hs (ends_failing e)
  · trivial

/-- What a call does with the lock of the vault, and taking it. -/
theorem ends_holding {m : Prog VaultError Host Session}
    (hn : (w.callers i).next w.host =
      some (Phase.follow (fun _ => .holding) .failed (acquireVault.run w.host).1, (acquireVault.run w.host).2))
    (hm : ∀ h1, (w.setPhase i .holding h1).EndsHeld i (m.run h1).1 (m.run h1).2)
    (hr : (holdingVault m).run w.host = (o, h')) (ho : o ≠ .panic) : w.Ends i o h' := by
  have hs : w.step (.next i) = some (w.setPhase i (Phase.follow (fun _ => .holding) .failed (acquireVault.run w.host).1)
      (acquireVault.run w.host).2) := by
    rw [Creations.step, hn]
    rfl
  rw [holdingVault, run_bind] at hr
  rcases hacq : acquireVault.run w.host with ⟨_ | e | _, h1⟩ <;> rw [hacq] at hr hs
  · have hheld := hm h1
    change (m.attempt >>= _).run h1 = _ at hr
    rw [run_bind, run_attempt] at hr
    rcases hbody : m.run h1 with ⟨s | e | _, h2⟩ <;> rw [hbody] at hr hheld <;> cases hr
    · exact Ends.step hs hheld
    · exact Ends.step hs hheld
    · exact absurd rfl ho
  · cases hr
    exact Ends.step hs (ends_of_answer rfl)
  · cases hr
    exact absurd rfl ho

/-- A create that has looked for the vault file goes on like `Session.create`. -/
theorem ends_checked {passphrase : Bytes} {idleTimeout : Nat}
    (hi : w.callers i = ⟨.create passphrase, idleTimeout, .checked⟩)
    (hr : (holdingVault (writeVault passphrase idleTimeout)).run w.host = (o, h')) (ho : o ≠ .panic) :
    w.Ends i o h' := by
  have hnext : ∀ p h1, (w.setPhase i p h1).callers i = ⟨.create passphrase, idleTimeout, p⟩ := by
    intro p h1
    rw [setPhase_same, hi]
  refine ends_holding (by rw [hi]; rfl) (fun h1 => ?_) hr ho
  refine EndsHeld.bind (m := prepare passphrase) (g := .prepared) (by rw [hnext]; rfl) fun p h2 => ?_
  rw [setPhase_setPhase]
  refine EndsHeld.bind (m := p.append) (g := .appended) (by rw [hnext]; rfl) fun p h3 => ?_
  rw [setPhase_setPhase]
  refine EndsHeld.bind (m := p.save) (g := fun _ => .saved p) (by rw [hnext]; rfl) fun _ h4 => ?_
  rw [setPhase_setPhase]
  exact EndsHeld.last (m := p.session idleTimeout) (by rw [hnext]; rfl)

/-- A create that is not interrupted is `Session.create`. -/
theorem ends_create {passphrase : Bytes} {idleTimeout : Nat}
    (hi : w.callers i = ⟨.create passphrase, idleTimeout, .called⟩)
    (hr : (Session.create passphrase idleTimeout).run w.host = (o, h')) (ho : o ≠ .panic) : w.Ends i o h' := by
  have hs : w.step (.next i) = some (w.setPhase i (Phase.follow (fun _ => .checked) .failed
      ((checkAbsent passphrase).run w.host).1) ((checkAbsent passphrase).run w.host).2) := by
    rw [Creations.step, hi]
    rfl
  rw [Session.create, run_bind] at hr
  rcases hcheck : (checkAbsent passphrase).run w.host with ⟨_ | e | _, h1⟩ <;> rw [hcheck] at hr hs
  · refine Ends.step hs (ends_checked ?_ hr ho)
    rw [Phase.follow, setPhase_same, hi]
  · cases hr
    exact Ends.step hs (ends_of_answer rfl)
  · cases hr
    exact absurd rfl ho

/-- A load that is not interrupted is `Session.load`. -/
theorem ends_load {idleTimeout : Nat} (hi : w.callers i = ⟨.load, idleTimeout, .called⟩)
    (hr : (Session.load idleTimeout).run w.host = (o, h')) (ho : o ≠ .panic) : w.Ends i o h' :=
  ends_holding (by rw [hi]; rfl)
    (fun h1 => EndsHeld.last (m := readVault idleTimeout) (by rw [setPhase_same, hi]; rfl)) hr ho

/-! ## Guarding the lock -/

/-- A create is called with a passphrase that is long enough, and tries to take the lock while there is still no vault
file, or while another has the lock and nothing else fails. -/
def Timely (w : Creations) : Event → Prop
  | .next i =>
    match (w.callers i).task, (w.callers i).phase with
    | .create passphrase, .called => MIN_PASSPHRASE_LEN ≤ passphrase.length
    | .create _, .checked => w.host.vaultFile = none ∨ w.host.vaultOwned = true ∧ w.host.syscalls 0 = none
    | _, _ => True
  | _ => True

/-- The lock has one owner. A create that may still save has found no vault file, and what a create has saved is the
vault file. -/
structure Guarded (w : Creations) : Prop where
  owned : ∀ i, (w.callers i).phase.holds = true → w.host.vaultOwned = true
  exclusive : ∀ i j, (w.callers i).phase.holds = true → (w.callers j).phase.holds = true → i = j
  absent : ∀ i, (w.callers i).writing = true → w.host.vaultFile = none
  stored : ∀ i e, (w.callers i).stored = some e → w.host.vaultFile = some e.toBytes
  winner : ∀ i j, (w.callers i).stored.isSome → (w.callers j).stored.isSome → i = j

omit [Crypto] [AuditJson] in
theorem Fresh.guarded (h : w.Fresh) : w.Guarded := by
  have hphase : ∀ i, (w.callers i).phase.holds = false ∧ (w.callers i).writing = false ∧
    (w.callers i).stored = none := by
    intro i
    have hc := h.2 i
    rcases hcaller : w.callers i with ⟨task, idleTimeout, phase⟩
    rw [hcaller] at hc
    subst hc
    cases task <;> exact ⟨rfl, rfl, rfl⟩
  constructor
  · intro i hi
    rw [(hphase i).1] at hi
    cases hi
  · intro i j hi
    rw [(hphase i).1] at hi
    cases hi
  · intro i hi
    rw [(hphase i).2.1] at hi
    cases hi
  · intro i e hi
    rw [(hphase i).2.2] at hi
    cases hi
  · intro i j hi
    rw [(hphase i).2.2] at hi
    cases hi

omit [Crypto] [AuditJson] in
/-- Nothing is lost where no call gets further and the vault file is the same. -/
theorem Guarded.less (h : w.Guarded) (hf : w'.host.vaultFile = w.host.vaultFile)
    (ho : ∀ i, (w'.callers i).phase.holds = true → (w.callers i).phase.holds = true ∧ w'.host.vaultOwned = true)
    (hw : ∀ i, (w'.callers i).writing = true → (w.callers i).writing = true)
    (hst : ∀ i e, (w'.callers i).stored = some e → (w.callers i).stored = some e) : w'.Guarded := by
  constructor
  · intro i hi
    exact (ho i hi).2
  · intro i j hi hj
    exact h.exclusive i j (ho i hi).1 (ho j hj).1
  · intro i hi
    rw [hf]
    exact h.absent i (hw i hi)
  · intro i e he
    rw [hf]
    exact h.stored i e (hst i e he)
  · intro i j hi hj
    obtain ⟨e, he⟩ := Option.isSome_iff_exists.mp hi
    obtain ⟨e', he'⟩ := Option.isSome_iff_exists.mp hj
    exact h.winner i j (by rw [hst i e he]; rfl) (by rw [hst j e' he']; rfl)

omit [Crypto] [VaultJson] [AuditJson] in
/-- What one call has not saved by moving, no call has. -/
theorem stored_of_setPhase {i : Nat} {p : Phase} {h' : Host}
    (hst : ∀ e, ({ w.callers i with phase := p } : Caller).stored = some e → (w.callers i).stored = some e) (j : Nat)
    (e : Envelope) (hj : ((w.setPhase i p h').callers j).stored = some e) : (w.callers j).stored = some e := by
  by_cases hji : j = i
  · subst hji
    rw [setPhase_same] at hj
    exact hst e hj
  · rwa [setPhase_other _ _ _ hji] at hj

omit [Crypto] [VaultJson] [AuditJson] in
theorem stored_holding (c : Caller) : ({ c with phase := .holding } : Caller).stored = none := by
  obtain ⟨task, -, -⟩ := c
  cases task <;> rfl

omit [Crypto] [AuditJson] in
/-- A call moves, and gets no further. -/
theorem Guarded.stays (h : w.Guarded) {i : Nat} {p : Phase} {h' : Host} (hf : h'.vaultFile = w.host.vaultFile)
    (hp : p.holds = true → (w.callers i).phase.holds = true)
    (ho : ∀ j, ((w.setPhase i p h').callers j).phase.holds = true → h'.vaultOwned = true)
    (hw : ({ w.callers i with phase := p } : Caller).writing = true → (w.callers i).writing = true)
    (hst : ∀ e, ({ w.callers i with phase := p } : Caller).stored = some e → (w.callers i).stored = some e) :
    (w.setPhase i p h').Guarded := by
  refine h.less hf (fun j hj => ⟨?_, ho j hj⟩) (fun j hj => ?_) (stored_of_setPhase hst)
  all_goals
    by_cases hji : j = i
    · subst hji
      rw [setPhase_same] at hj
      first | exact hp hj | exact hw hj
    · rwa [setPhase_other _ _ _ hji] at hj

omit [Crypto] [AuditJson] in
/-- A call takes the lock. -/
theorem Guarded.acquires (h : w.Guarded) {i : Nat} (ho : w.host.vaultOwned = false)
    (ha : ∀ passphrase, (w.callers i).task = .create passphrase → w.host.vaultFile = none) :
    (w.setPhase i .holding w.host.owning).Guarded := by
  have honly : ∀ j, ((w.setPhase i .holding w.host.owning).callers j).phase.holds = true → j = i := by
    intro j hj
    by_contra hji
    rw [setPhase_other _ _ _ hji] at hj
    have := h.owned j hj
    rw [ho] at this
    cases this
  have hst : ∀ j e, ((w.setPhase i .holding w.host.owning).callers j).stored = some e →
      (w.callers j).stored = some e :=
    stored_of_setPhase fun e he => by rw [stored_holding] at he; cases he
  constructor
  · intro j hj
    rfl
  · intro j k hj hk
    rw [honly j hj, honly k hk]
  · intro j hj
    obtain rfl := honly j (Caller.holds_of_writing hj)
    rw [setPhase_same] at hj
    rcases hcaller : w.callers j with ⟨task, idleTimeout, phase⟩
    rw [hcaller] at hj ha
    cases task with
    | create passphrase => exact ha passphrase rfl
    | load => cases hj
  · intro j e hj
    exact h.stored j e (hst j e hj)
  · intro j k hj hk
    obtain ⟨e, he⟩ := Option.isSome_iff_exists.mp hj
    obtain ⟨e', he'⟩ := Option.isSome_iff_exists.mp hk
    exact h.winner j k (by rw [hst j e he]; rfl) (by rw [hst k e' he']; rfl)

omit [Crypto] [AuditJson] in
/-- A create saves the vault. There was none, so no other create has saved one. -/
theorem Guarded.saves (h : w.Guarded) {i : Nat} {p : Phase} {h' : Host} {e : Envelope}
    (hw : (w.callers i).writing = true) (hst : ({ w.callers i with phase := p } : Caller).stored = some e)
    (hf : h'.vaultFile = some e.toBytes) (ho : h'.vaultOwned = w.host.vaultOwned) : (w.setPhase i p h').Guarded := by
  have hholds := Caller.holds_of_writing hw
  have honly : ∀ j, ((w.setPhase i p h').callers j).phase.holds = true → j = i := by
    intro j hj
    by_contra hji
    rw [setPhase_other _ _ _ hji] at hj
    exact hji (h.exclusive j i hj hholds)
  have hwinner : ∀ j, ((w.setPhase i p h').callers j).stored.isSome → j = i := by
    intro j hj
    by_contra hji
    rw [setPhase_other _ _ _ hji] at hj
    obtain ⟨e', he'⟩ := Option.isSome_iff_exists.mp hj
    have := h.stored j e' he'
    rw [h.absent i hw] at this
    cases this
  constructor
  · intro j hj
    rw [setPhase_host, ho]
    exact h.owned i hholds
  · intro j k hj hk
    rw [honly j hj, honly k hk]
  · intro j hj
    obtain rfl := honly j (Caller.holds_of_writing hj)
    rw [setPhase_same, Caller.not_writing_of_stored hst] at hj
    cases hj
  · intro j e' hj
    obtain rfl := hwinner j (by rw [hj]; rfl)
    rw [setPhase_same, hst] at hj
    cases hj
    exact hf
  · intro j k hj hk
    rw [hwinner j hj, hwinner k hk]

/-- One step, in which no create takes the lock while there is a vault file: the lock is guarded, and where there is a
vault file it stays as it is, and no create has saved that had not. -/
theorem Guarded.step (h : w.Guarded) (hc : w.Timely e) (hs : w.step e = some w') :
    w'.Guarded ∧ ∀ b, w.host.vaultFile = some b → w'.host.vaultFile = some b ∧
      ∀ j e, (w'.callers j).stored = some e → (w.callers j).stored = some e := by
  rcases step_eq_some hs with ⟨i, p, h', hi, hm, rfl⟩ | ⟨hcallers, hsame⟩
  · have hothers : ∀ j, j ≠ i → ((w.setPhase i p h').callers j).phase.holds = true → w.host.vaultOwned = true := by
      intro j hji hj
      rw [setPhase_other _ _ _ hji] at hj
      exact h.owned j hj
    cases hm with
    | waits hq hp hsame hst =>
      have hst' : ∀ e, ({ w.callers i with phase := p } : Caller).stored = some e → (w.callers i).stored = some e := by
        intro e he
        rw [hst] at he
        cases he
      refine ⟨h.stays hsame.vaultFile (fun hx => ?_) (fun j hj => ?_) (fun hx => ?_) hst',
        fun b hb => ⟨?_, stored_of_setPhase hst'⟩⟩
      · rw [hp] at hx
        cases hx
      · rw [hsame.vaultOwned]
        by_cases hji : j = i
        · subst hji
          rw [setPhase_same, hp] at hj
          cases hj
        · exact hothers j hji hj
      · have := Caller.holds_of_writing hx
        rw [hp] at this
        cases this
      · rw [setPhase_host, hsame.vaultFile, hb]
    | acquires hq htask ho hp hh =>
      subst hp hh
      obtain rfl := hi rfl
      refine ⟨h.acquires ho fun passphrase hcreate => ?_, fun b hb =>
        ⟨hb, stored_of_setPhase fun e he => by rw [stored_holding] at he; cases he⟩⟩
      simp only [Timely, hcreate, htask passphrase hcreate] at hc
      obtain hnone | ⟨howned, -⟩ := hc
      · exact hnone
      · rw [ho] at howned
        cases howned
    | works hq hp hsame hw hst =>
      refine ⟨h.stays hsame.vaultFile (fun _ => hq) (fun j hj => ?_) hw hst, fun b hb => ⟨?_, stored_of_setPhase hst⟩⟩
      · rw [hsame.vaultOwned]
        exact h.owned i hq
      · rw [setPhase_host, hsame.vaultFile, hb]
    | saves hw e hp hh hf ho =>
      refine ⟨h.saves hw hp hf ho, fun b hb => ?_⟩
      rw [h.absent i hw] at hb
      cases hb
    | releases hq hp hh hst =>
      subst hh
      refine ⟨h.stays rfl (fun hx => ?_) (fun j hj => ?_) (fun hx => ?_) hst, fun b hb => ⟨hb, stored_of_setPhase hst⟩⟩
      · rw [hp] at hx
        cases hx
      · -- the lock had one owner, which lets it go
        by_cases hji : j = i
        · subst hji
          rw [setPhase_same, hp] at hj
          cases hj
        · rw [setPhase_other _ _ _ hji] at hj
          exact absurd (h.exclusive j i hj hq) hji
      · have := Caller.holds_of_writing hx
        rw [hp] at this
        cases this
  · refine ⟨h.less hsame.vaultFile (fun i hi => ?_) (fun i hi => ?_) fun i e hi => ?_,
      fun b hb => ⟨?_, fun i e hi => ?_⟩⟩
    · rw [hcallers] at hi
      exact ⟨hi, hsame.vaultOwned.trans (h.owned i hi)⟩
    · rwa [hcallers] at hi
    · rwa [hcallers] at hi
    · rw [hsame.vaultFile, hb]
    · rwa [hcallers] at hi

end Creations

/-! ## Losing the race -/

/-- The call has not been answered. -/
def Phase.pending : Phase → Bool
  | .failed _ | .opened _ | .dropped _ | .died => false
  | _ => true

/-- A create that came too late: it has not got the lock, and if it is answered it fails because there is a vault or
because the lock is taken. -/
def Phase.Beaten : Phase → Prop
  | .called | .checked | .died => True
  | .failed e => e = some .exists_ ∨ e = some .busy
  | _ => False

omit [Crypto] [VaultJson] [AuditJson] in
/-- A create that has not been answered, and has not got the lock, has come too late. -/
theorem Phase.beaten_of_pending {p : Phase} (hp : p.pending = true) (hh : p.holds = false) : p.Beaten := by
  cases p <;> trivial

namespace Creations

variable {w w' : Creations} {e : Event}

theorem Beaten.step {b : Nat} {passphrase : Bytes} (ht : (w.callers b).task = .create passphrase)
    (hb : (w.callers b).phase.Beaten) {bytes : Bytes} (hv : w.host.vaultFile = some bytes) (hc : w.Timely e)
    (hs : w.step e = some w') : (w'.callers b).task = .create passphrase ∧ (w'.callers b).phase.Beaten := by
  cases e with
  | next i =>
    obtain ⟨⟨p, h'⟩, hn, rfl⟩ := Option.map_eq_some_iff.mp hs
    by_cases hbi : b = i
    · subst hbi
      rw [setPhase_same]
      refine ⟨ht, ?_⟩
      change p.Beaten
      rcases hcaller : w.callers b with ⟨task, idleTimeout, phase⟩
      rw [Timely, hcaller] at hc
      rw [hcaller] at ht hb hn
      subst ht
      cases phase with
      | called =>
        have hlen : ¬passphrase.length < MIN_PASSPHRASE_LEN := Nat.not_lt.mpr hc
        simp only [Caller.next, Option.some.injEq, Prod.mk.injEq] at hn
        rw [← hn.1, checkAbsent, if_neg hlen, run_get_bind, hv]
        exact Or.inl rfl
      | checked =>
        simp only [Caller.next, Option.some.injEq, Prod.mk.injEq] at hn
        obtain hnone | ⟨ho, hcall⟩ := hc
        · rw [hv] at hnone
          cases hnone
        · rw [← hn.1, acquireVault_of_owned hcall ho]
          exact Or.inr rfl
      | failed e => cases hn
      | died => cases hn
      | _ => exact absurd hb id
    · rw [setPhase_other _ _ _ hbi]
      exact ⟨ht, hb⟩
  | die i =>
    cases hs
    by_cases hbi : b = i
    · subst hbi
      rw [setPhase_same]
      exact ⟨ht, trivial⟩
    · rw [setPhase_other _ _ _ hbi]
      exact ⟨ht, hb⟩
  | meanwhile c =>
    cases hs
    exact ⟨ht, hb⟩

/-- A create goes on where there is no vault file. -/
theorem next_checked {c : Caller} {passphrase : Bytes} {h h' : Host} (ht : c.task = .create passphrase)
    (hlen : MIN_PASSPHRASE_LEN ≤ passphrase.length) (hn : c.next h = some (.checked, h')) : h'.vaultFile = none := by
  obtain ⟨task, idleTimeout, phase⟩ := c
  change task = _ at ht
  subst ht
  have hfollow : ∀ {α : Type} {m : Prog VaultError Host α} {go : α → Phase} {stop : Option VaultError → Phase},
      some (Phase.follow go stop (m.run h).1, (m.run h).2) = some (.checked, h') →
      (∀ a, go a ≠ .checked) → (∀ e, stop e ≠ .checked) → False := by
    intro α m go stop heq hgo hstop
    simp only [Option.some.injEq, Prod.mk.injEq] at heq
    rcases hr : (m.run h).1 with a | e | _ <;> rw [hr] at heq
    · exact hgo a heq.1
    · exact hstop _ heq.1
    · exact hstop _ heq.1
  cases phase with
  | called =>
    simp only [Caller.next, checkAbsent, if_neg (Nat.not_lt.mpr hlen), run_get_bind, Option.some.injEq,
      Prod.mk.injEq] at hn
    by_cases hv : h.vaultFile.isSome = true
    · rw [if_pos hv] at hn
      cases hn.1
    · rw [if_neg hv] at hn
      rw [← hn.2]
      simpa using hv
  | checked | holding | prepared | appended | saved =>
    exact (hfollow hn (fun _ hx => by cases hx) (fun _ hx => by cases hx)).elim
  | _ => cases hn

/-- A create that is not overtaken looks for the vault file in time. -/
theorem timely_alone {i : Nat} {passphrase : Bytes} (ht : (w.callers i).task = .create passphrase)
    (hlen : MIN_PASSPHRASE_LEN ≤ passphrase.length) (hv : (w.callers i).phase = .checked → w.host.vaultFile = none)
    (n : Nat) : Along step Timely w (List.replicate n (.next i)) := by
  induction n generalizing w with
  | zero => trivial
  | succ n ih =>
    refine ⟨?_, fun w' hs => ?_⟩
    · rcases hcaller : w.callers i with ⟨task, idleTimeout, phase⟩
      rw [hcaller] at ht hv
      subst ht
      rw [Timely, hcaller]
      cases phase with
      | called => exact hlen
      | checked => exact Or.inl (hv rfl)
      | _ => trivial
    · obtain ⟨⟨p, h'⟩, hn, rfl⟩ := Option.map_eq_some_iff.mp hs
      refine ih (by rw [setPhase_same]; exact ht) fun hp => ?_
      rw [setPhase_same] at hp
      change p = .checked at hp
      subst hp
      exact next_checked ht hlen hn

/-- After a create has returned a session the vault file is its vault, no other create has saved one, and every create
that is not answered yet fails because there is a vault or because the lock is taken: where every create is called with
a passphrase that is long enough, and tries to take the lock while there is still no vault file, or while another has it
and nothing else fails. -/
theorem create_never_overwrites {w₀ : Creations} {es es' : List Event} (h₀ : w₀.Fresh)
    (hc : Along step Timely w₀ (es ++ es')) (hr : runs step w₀ es = some w) (hr' : runs step w es' = some w') {a : Nat}
    {passphrase : Bytes} {s : Session} (ht : (w.callers a).task = .create passphrase)
    (ha : (w.callers a).phase = .opened s) :
    w'.host.vaultFile = some s.envelope.toBytes ∧
      ∀ b passphrase, b ≠ a → (w.callers b).task = .create passphrase → (w'.callers b).stored = none ∧
        ((w.callers b).phase.pending = true → ∀ o, (w'.callers b).phase = .failed o → o = some .exists_ ∨
          o = some .busy) := by
  obtain ⟨hc, hc'⟩ := along_append.mp hc
  have hc' := hc' w hr
  have hg : w.Guarded := runs_induction (I := Guarded) (fun _ _ _ hg hc hs => (hg.step hc hs).1) h₀.guarded hc hr
  have hstored : (w.callers a).stored = some s.envelope := by
    rcases hcaller : w.callers a with ⟨task, idleTimeout, phase⟩
    rw [hcaller] at ht ha
    subst ht ha
    rfl
  have hfile := hg.stored a _ hstored
  refine ⟨(runs_induction (I := fun w => w.Guarded ∧ w.host.vaultFile = some s.envelope.toBytes)
    (fun x e y hx hc hs => ?_) ⟨hg, hfile⟩ hc' hr').2, fun b pass hne htask => ?_⟩
  · obtain ⟨hy, hkeep⟩ := hx.1.step hc hs
    exact ⟨hy, (hkeep _ hx.2).1⟩
  · -- nobody else has saved, and nobody else has the lock
    have hnone : (w.callers b).stored = none := by
      by_contra hsome
      exact hne (hg.winner b a (Option.isSome_iff_ne_none.mpr hsome) (by rw [hstored]; rfl))
    have hfree : (w.callers b).phase.holds = false := by
      by_contra hholds
      exact hne (hg.exclusive b a (by simpa using hholds) (by rw [ha]; rfl))
    have hrun := runs_induction (I := fun x => (x.Guarded ∧ x.host.vaultFile = some s.envelope.toBytes) ∧
        (x.callers b).stored = none ∧ ((w.callers b).phase.pending = true →
          (x.callers b).task = .create pass ∧ (x.callers b).phase.Beaten))
      (fun x e y hx hc hs => ?_)
      ⟨⟨hg, hfile⟩, hnone, fun hp => ⟨htask, Phase.beaten_of_pending hp hfree⟩⟩ hc' hr'
    · refine ⟨hrun.2.1, fun hp o ho => ?_⟩
      have := (hrun.2.2 hp).2
      rwa [ho] at this
    · obtain ⟨⟨hgx, hfx⟩, hsx, hbx⟩ := hx
      obtain ⟨hgy, hkeep⟩ := hgx.step hc hs
      refine ⟨⟨hgy, (hkeep _ hfx).1⟩, ?_, fun hp => Beaten.step (hbx hp).1 (hbx hp).2 hfx hc hs⟩
      by_contra hsome
      obtain ⟨e', he'⟩ := Option.ne_none_iff_exists'.mp hsome
      have := (hkeep _ hfx).2 b e' he'
      rw [hsx] at this
      cases this

end Creations

end

/-! ## Two creations on one path -/

namespace Reference

open Creations

/-- Any number of creates on a path without a vault. -/
def callers : Creations := ⟨healthy, fun _ => ⟨.create passphrase, 0, .called⟩⟩

theorem callers_fresh : callers.Fresh := ⟨rfl, fun _ => rfl⟩

theorem eq_opened {p : Phase} {s : Session} (hp : p.answer? = some (.ok s)) : p = .opened s := by
  cases p with
  | opened s' =>
    cases hp
    rfl
  | failed e => cases e <;> cases hp
  | _ => cases hp

/-- One of them is not interrupted. -/
theorem first_opened : ∃ n s h', (Session.create passphrase 0).run healthy = (.ok s, h') ∧
    runs step callers (List.replicate n (.next 0)) = some (callers.setPhase 0 (.opened s) h') := by
  obtain ⟨s, h', hr⟩ := create_empty 0
  obtain ⟨n, p, hp, hes⟩ := ends_create (w := callers) (i := 0) rfl hr (by simp)
  obtain rfl := eq_opened hp
  exact ⟨n, s, h', hr, hes⟩

end Reference

/-- The second of two creates finds the vault of the first. -/
theorem create_never_overwrites_twice : ∃ es w s w', runs Creations.step Reference.callers es = some w ∧
    (w.callers 0).phase = .opened s ∧ runs Creations.step w [.next 1] = some w' ∧
    (w'.callers 1).phase = .failed (some .exists_) ∧ w'.host.vaultFile = some s.envelope.toBytes ∧
    ∀ b pass, b ≠ 0 → (w.callers b).task = .create pass → (w'.callers b).stored = none ∧
      ((w.callers b).phase.pending = true → ∀ o, (w'.callers b).phase = .failed o → o = some .exists_ ∨
        o = some .busy) := by
  obtain ⟨n, s, h', hr, hes⟩ := Reference.first_opened
  obtain ⟨u, x, entry, hcreated⟩ := create_eq_ok hr
  have hlen : ¬Reference.passphrase.length < MIN_PASSPHRASE_LEN := by decide
  have hstep : Creations.step (Reference.callers.setPhase 0 (.opened s) h') (.next 1) =
      some ((Reference.callers.setPhase 0 (.opened s) h').setPhase 1 (.failed (some .exists_)) h') := by
    have hnext : Caller.next ⟨.create Reference.passphrase, 0, .called⟩ h' = some (.failed (some .exists_), h') := by
      simp only [Caller.next, checkAbsent, if_neg hlen, run_get_bind, hcreated.vaultFile]
      rfl
    rw [Creations.step, Creations.setPhase_other _ _ _ (by decide)]
    exact congrArg (Option.map _) hnext
  have hes' := runs_cons.mpr ⟨_, hstep, runs_nil _ _⟩
  refine ⟨_, _, s, _, hes, by rw [Creations.setPhase_same], hes', by rw [Creations.setPhase_same], ?_⟩
  refine Creations.create_never_overwrites Reference.callers_fresh
    (along_append.mpr ⟨?_, fun w hw => ?_⟩) hes hes' (by rw [Creations.setPhase_same]; rfl)
    (by rw [Creations.setPhase_same])
  · exact Creations.timely_alone rfl (by decide) (fun hp => by cases hp) n
  · rw [hes, Option.some.injEq] at hw
    subst hw
    refine ⟨?_, fun _ _ => trivial⟩
    rw [Creations.Timely, Creations.setPhase_other _ _ _ (by decide)]
    exact Nat.not_lt.mp hlen

/-- A creation that is done with the lock has stored its vault. -/
theorem writeVault_stored [Crypto] [VaultJson] [AuditJson] {passphrase : Bytes} {idleTimeout : Nat} {h h' : Host}
    {s : Session} (hr : (holdingVault (writeVault passphrase idleTimeout)).run h = (.ok s, h')) :
    h'.vaultFile = some s.envelope.toBytes := by
  have hr := holdingVault_eq_ok hr
  obtain ⟨p, h1, -, hr⟩ := bind_eq_ok hr
  obtain ⟨q, h2, -, hr⟩ := bind_eq_ok hr
  obtain ⟨_, h3, hsave, hr⟩ := bind_eq_ok hr
  rw [Prepared.save, saveAtomic, run_step] at hsave
  dsimp only at hsave
  split at hsave
  · cases hsave
    rw [Prepared.session, run_get_bind] at hr
    cases hr
    rfl
  · cases hsave

/-- After a first creation another one, which has looked for the vault file, is done. -/
theorem Reference.second_returns {v : Vault} {c : Copies VaultDocument} {s : Session} {h' : Host}
    (hst : Stands v c 1 ⟨some s, h'⟩) :
    ∃ s' h'', (holdingVault (writeVault passphrase 0)).run (h'.releaseVault.under conditions) =
      (.ok s', h'') := by
  obtain ⟨content, x, hf, -, hch⟩ := hst.coheres.files.log
  obtain ⟨y, hy, hp, hs⟩ := hch.forget
  obtain ⟨hlen, hseq⟩ := hst.log content x hf hch
  obtain ⟨_, hsome, -, hlimits⟩ := hst.session
  cases hsome
  have hfits := fits (s := ⟨s, h'⟩) (n := 1) (x := y) .ordinary hlimits hlen (by rw [hs]; exact hseq) (by decide)
    brief_lifecycle.1
  rw [Fits, hlimits] at hfits
  obtain ⟨s', h'', hr, -⟩ := creation_returns (h := h'.releaseVault.under conditions)
    ⟨fun _ => rfl, fun _ => rfl, fun _ => rfl, fun _ => rfl⟩ (fun _ _ => ⟨_, rfl⟩) rfl hf hy
    (show AuditLog.timestamp healthy.wall = .ok "1970-01-01T00:00:00Z" from rfl) hfits (docToVec_new _) 0
  exact ⟨s', h'', hr⟩

/-- The vault file is looked for before the lock is taken, and not again. Of two creates that both find none, the second
replaces the vault of the first: the first had returned its session, and dropped it. -/
theorem create_overwrites : ∃ es es' w w' s s', Reference.callers.Fresh ∧
    runs Creations.step Reference.callers es = some w ∧ (w.callers 0).phase = .opened s ∧
    w.host.vaultFile = some s.envelope.toBytes ∧ runs Creations.step w es' = some w' ∧
    (w.callers 1).phase.pending = true ∧ (w'.callers 1).phase = .opened s' ∧
    w'.host.vaultFile = some s'.envelope.toBytes := by
  obtain ⟨s, h', u, hr, -, -, hst⟩ := Reference.stands_created
  obtain ⟨u', x, entry, hcreated⟩ := create_eq_ok hr
  -- the second looks for the vault file, and the first does all the rest
  have hfirst : Creations.step Reference.callers (.next 1) =
    some (Reference.callers.setPhase 1 .checked Reference.healthy) := rfl
  obtain ⟨n, p, hp, hes⟩ := Creations.ends_create (w := Reference.callers.setPhase 1 .checked Reference.healthy)
    (i := 0) (by rw [Creations.setPhase_other _ _ _ (by decide)]; rfl) hr (by simp)
  obtain rfl := Reference.eq_opened hp
  set w := (Reference.callers.setPhase 1 .checked Reference.healthy).setPhase 0 (.opened s) h' with hw
  have hdrop : Creations.step w (.next 0) = some (w.setPhase 0 (.dropped s) h'.releaseVault) := by
    rw [Creations.step, hw, Creations.setPhase_same]
    rfl
  have hlater : Creations.step (w.setPhase 0 (.dropped s) h'.releaseVault) (.meanwhile Reference.conditions) =
      some (w.setPhase 0 (.dropped s) (h'.releaseVault.under Reference.conditions)) := rfl
  obtain ⟨s', h'', hr'⟩ := Reference.second_returns hst
  obtain ⟨m, p', hp', hes'⟩ := Creations.ends_checked (i := 1)
    (w := w.setPhase 0 (.dropped s) (h'.releaseVault.under Reference.conditions))
    (by rw [Creations.setPhase_other _ _ _ (by decide), hw, Creations.setPhase_other _ _ _ (by decide),
      Creations.setPhase_same]; rfl) hr' (by simp)
  obtain rfl := Reference.eq_opened hp'
  refine ⟨_, _, w, _, s, s', Reference.callers_fresh,
    runs_cons.mpr ⟨_, hfirst, hes⟩, by rw [hw, Creations.setPhase_same],
    hcreated.vaultFile, runs_cons.mpr ⟨_, hdrop, runs_cons.mpr ⟨_, hlater, hes'⟩⟩, ?_, by rw [Creations.setPhase_same],
    writeVault_stored hr'⟩
  rw [hw, Creations.setPhase_other _ _ _ (by decide), Creations.setPhase_same]
  rfl

end SecretsVault
