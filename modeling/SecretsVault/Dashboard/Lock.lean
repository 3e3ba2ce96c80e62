import SecretsVault.Dashboard.Moves

/-!
# What survives a lock

`doLock` clears the state of the page when `lock` is answered, but requests that were made before are still in flight,
and their answers are applied when they arrive.

- `lock_is_final`: after a lock nothing comes back until a request that was made later is answered, unless one of the
  earlier requests is answered with data.
- `lock_is_not_final`: a list of projects that was asked for before the lock, and arrives after it.
-/

namespace SecretsVault.Dashboard

open Lib Coroutine

/-- Nothing of the vault is in the state. -/
def ShellState.Cleared (s : ShellState) : Prop :=
  s.slices = ⟨none, none, none, none, none, none, none, none, none, none, none⟩

instance (s : ShellState) : Decidable s.Cleared := inferInstanceAs (Decidable (_ = _))

theorem ShellState.cleared_iff {s : ShellState} : s.Cleared ↔ s.projects = none ∧ s.secrets = none ∧ s.agents = none ∧
    s.grants = none ∧ s.approvals = none ∧ s.leases = none ∧ s.runs = none ∧ s.overview = none ∧ s.health = none ∧
    s.audit = none ∧ s.auditVerify = none := by
  rw [ShellState.Cleared, ShellState.slices, Slices.mk.injEq]

/-- Nothing of the vault is on the page. -/
structure Ui.Cleared (u : Ui) : Prop where
  shell : u.shell.Cleared
  token : u.oneTimeTokenNode = none
  value : ∀ live, u.live = some live → live.value = none

/-- An answer to an earlier request that brings nothing of the vault back: a failure, an acknowledgement or a posture.
The answer to `unlock` brings the object back that was held, and a health that is read into an object touches no other
one. -/
def Harmless : (c : ApiCall) → Ui → Reply c → Ui → Prop
  | _, _, .error _, _ => True
  | .unlock _, issued, .ok _, u => (u.objects issued.cur).shell.Cleared
  | .health, issued, .ok _, u => issued.cur ≠ u.cur
  | .secretsList _, _, .ok (rows : List SecretRow), _ => (rows.filter (·.key ≠ "")).any (·.value.isSome) = true
  | .agentAdd .., _, .ok (res : AgentAddResult), _ => res.token = ""
  | .reveal project key, _, .ok (value : String), u =>
    value = "" ∨ ∀ live, u.live = some live → ¬(live.project = project ∧ live.key = key)
  | .settingsHealth, _, .ok _, _ | .overviewRefresh, _, .ok _, _ | .projectsList, _, .ok _, _ | .agentsList, _, .ok _, _
  | .grantsList, _, .ok _, _ | .approvalsPending, _, .ok _, _ | .leasesList, _, .ok _, _ | .runsList, _, .ok _, _
  | .auditShow .., _, .ok _, _ | .auditVerify, _, .ok _, _ => False
  | _, _, .ok _, _ => True

variable {u v : Ui}

theorem Ui.Cleared.assign (hu : u.Cleared) {o : Obj} (ho : o.shell.Cleared) : (u.assign o).Cleared where
  shell := (u.shell_assign o).symm ▸ ho
  token := hu.token
  value := hu.value

/-! ## What the handlers do on their own -/

theorem Slices.Keeps.cleared {s t : ShellState} (h : s.slices.Keeps t.slices) (hs : s.Cleared) : t.Cleared := by
  have keep : ∀ {α : Type} {a b : Option α}, b = a ∨ b = none → a = none → b = none := by
    rintro α a b (rfl | rfl) ha
    · exact ha
    · rfl
  rw [ShellState.cleared_iff] at hs ⊢
  obtain ⟨hprojects, hsecrets, hagents, hgrants, happrovals, hleases, hruns, hoverview, hhealth, haudit, hverify⟩ := hs
  exact ⟨keep h.projects hprojects, keep h.secrets hsecrets, keep h.agents hagents, keep h.grants hgrants,
    keep h.approvals happrovals, keep h.leases hleases, keep h.runs hruns, keep h.overview hoverview,
    keep h.health hhealth, keep h.audit haudit, keep h.auditVerify hverify⟩

theorem Ui.Cleared.choose (hu : u.Cleared) (name : String) : (u.choose name).Cleared := by
  rw [Ui.choose]
  split
  · exact ⟨hu.shell, hu.token, hu.value⟩
  · refine ⟨(u.shell_assign _).symm ▸ ?_, hu.token, hu.value⟩
    have hs := hu.shell
    dsimp only [applyActiveProject]
    split
    · exact hs
    · rw [ShellState.cleared_iff] at hs ⊢
      simp [hs]

theorem cleared_applyBoot {s : ShellState} (hs : s.Cleared) (status : BrokerStatus) (pin : PinStatus) :
    (applyBoot s status pin).Cleared := by
  rw [ShellState.cleared_iff] at hs ⊢
  simp [applyBoot, initialState, hs]

theorem Ui.Cleared.refreshed (hu : u.Cleared) (status : BrokerStatus) (pin : PinStatus) :
    (u.refreshed status pin).Cleared := by
  have hs := hu.shell
  rw [Ui.refreshed]
  split
  · exact ⟨(u.shell_assign _).symm ▸ rfl, rfl, fun _ h => by cases h⟩
  · refine ⟨(u.shell_assign _).symm ▸ ?_, hu.token, hu.value⟩
    exact cleared_applyBoot hs status pin

theorem Ui.cleared_locked (u : Ui) : u.locked.Cleared := ⟨(u.shell_assign _).symm ▸ rfl, rfl, fun _ h => by cases h⟩

/-- No handler brings anything of the vault back on its own. -/
theorem Moves.cleared (h : Moves u v) (hu : u.Cleared) : v.Cleared := by
  cases h with
  | aside hobjects hcur hchosen htoken hlive =>
    refine ⟨?_, ?_, fun l hl => ?_⟩
    · rw [Ui.shell, Ui.obj, hobjects, hcur]
      exact hu.shell
    · rcases htoken with h | h
      · exact h.trans hu.token
      · exact h
    · rcases hlive l hl with h | ⟨l', hl', h⟩
      · exact h
      · exact h.trans (hu.value l' hl')
  | set hf => exact hu.assign (hf.slices.cleared hu.shell)
  | choose name => exact hu.choose name
  | openForm form => exact hu.assign (show ShellState.Cleared _ from hu.shell)
  | askDelete hproject key => exact hu.assign (show ShellState.Cleared _ from hu.shell)
  | refreshed status pin => exact hu.refreshed status pin
  | locked => exact u.cleared_locked

/-! ## What harmless answers bring -/

/-- Keys that carry a value are refused. -/
theorem storeSecrets_harmless {project : String} {s u v : Ui} {rows : List SecretRow}
    (hA : Harmless (.secretsList project) s (.ok rows) u) : u.storeSecrets project rows ≠ .ok v := by
  have hA : (rows.filter (·.key ≠ "")).any (·.value.isSome) = true := hA
  intro h
  rw [Ui.storeSecrets, applySecrets] at h
  dsimp only at h
  rw [if_pos hA] at h
  cases h

theorem not_harmless_of_lists {c : ApiCall} {s : Ui} {r : c.Payload} (hc : c.Lists) : ¬Harmless c s (.ok r) u := by
  cases c <;> first | exact hc.elim | exact id

theorem not_harmless_of_holds {c : ApiCall} {s : Ui} {r : c.Payload} (hc : c.Holds) : ¬Harmless c s (.ok r) u := by
  cases c <;> first | exact hc.elim | exact id

/-- A health that is read into another object than the one that `s` names. -/
theorem Ui.Cleared.writeHealth (hu : u.Cleared) {ref : Nat} (h : ref ≠ u.cur) (x : HealthResponse) :
    (u.writeHealth ref x).Cleared := by
  refine ⟨?_, hu.token, hu.value⟩
  have hobj : (u.writeHealth ref x).obj = u.obj := Function.update_of_ne h.symm _ _
  rw [Ui.shell, hobj]
  exact hu.shell

/-- A modal that does not wait for the value stays as it is. -/
theorem Ui.Cleared.deliver (hu : u.Cleared) {project key : String} (value : String)
    (h : ∀ live, u.live = some live → ¬(live.project = project ∧ live.key = key)) :
    (u.deliverRevealedValue project key value).Cleared := by
  refine ⟨hu.shell, hu.token, fun live hl => ?_⟩
  obtain ⟨live', hl', rfl⟩ := Option.map_eq_some_iff.mp hl
  rw [if_neg (h live' hl')]
  exact hu.value live' hl'

theorem Brings.cleared {c : ApiCall} {s : Ui} {r : Reply c} (h : Brings c s r u v) (hA : Harmless c s r u)
    (hu : u.Cleared) : v.Cleared := by
  cases h with
  | projects list => exact hA.elim
  | secrets h => exact absurd h (storeSecrets_harmless hA)
  | list hc hf haudit => exact absurd hA (not_harmless_of_lists hc)
  | held hc hf haudit => exact absurd hA (not_harmless_of_holds hc)
  | unlocked passphrase resp =>
    have hheld : (u.objects s.cur).shell.Cleared := hA
    refine ⟨(u.shell_assign _).symm ▸ ?_, rfl, hu.value⟩
    rw [ShellState.cleared_iff] at hheld ⊢
    simp [applyUnlockSuccess, hheld]
  | health x => exact hu.writeHealth hA x
  | token h => exact absurd hA h
  | value h =>
    rcases hA with hA | hA
    · exact absurd hA h
    · exact hu.deliver _ hA

theorem carries_cleared : Carries Harmless Ui.Cleared := ⟨fun h => h.cleared, fun h => h.cleared⟩

/-! ## Runs -/

/-- The answer, if the event is one, is to one of the first `n` requests. -/
def Earlier (n : Nat) (_ : Page) (e : Event) : Prop := ∀ i c r, e = .answer i c r → i < n

/-- And it brings nothing of the vault back. -/
def Spent (n : Nat) (p : Page) (e : Event) : Prop := Earlier n p e ∧ p.Admits Harmless e

/-- What `doLock` leaves when its request is answered, whatever happens meanwhile. -/
theorem doLock_clears {p₁ p₂ : Page} {es : List Event} {r : Reply .lock}
    (hr : runs step p₁ (.start .lock :: es ++ [.answer p₁.next .lock r]) = some p₂) : p₂.state.Cleared := by
  rw [List.cons_append] at hr
  obtain ⟨p, hstart, hr⟩ := runs_cons.mp hr
  obtain ⟨q, hes, hr⟩ := runs_append.mp hr
  obtain ⟨_, hanswer, hr⟩ := runs_cons.mp hr
  cases hr
  cases hstart
  have hflight : (p₁.settle ((handle .lock).run p₁.state)).flights p₁.next =
      some ⟨_, .lock, fun _ => do alter Ui.locked; render⟩ := Function.update_self _ _ _
  rw [step, Loop.step] at hanswer
  rcases Loop.runs_flight hes (Nat.lt_succ_self p₁.next) with h | h
  · rw [h, hflight] at hanswer
    cases hanswer
    exact (moves_paint _).cleared (Ui.cleared_locked _)
  · rw [h] at hanswer
    cases hanswer

/-- After a lock, and until a request that is made later is answered, nothing comes back, if every answer to an earlier
request is harmless. -/
theorem lock_is_final {p₁ p₂ p₃ : Page} {es es' : List Event} {r : Reply .lock} {before : List Event}
    (h₁ : runs step initial before = some p₁)
    (h₂ : runs step p₁ (.start .lock :: es ++ [.answer p₁.next .lock r]) = some p₂)
    (h₃ : runs step p₂ es' = some p₃) (hspent : Along step (Spent p₂.next) p₂ es') : p₃.state.Cleared := by
  have hsound : p₂.Sound Harmless (Guarantee Ui.Cleared) := carries_cleared.sound (runs_append.mpr ⟨p₁, h₁, h₂⟩)
  refine (runs_induction (I := fun p : Page => p.Sound Harmless (Guarantee Ui.Cleared) ∧ p.state.Cleared)
    (fun p e p' hp ha hs => ?_) ⟨hsound, doLock_clears h₂⟩ hspent h₃).2
  obtain ⟨hp', hkeeps⟩ := hp.1.step carries_cleared.handle hs
  exact ⟨hp', (hkeeps ha.2).1 hp.2⟩

namespace Example

/-- The projects that the page has asked for are answered. -/
def projects (r : Reply .projectsList) : List Event := [.answer 4 .projectsList r]

/-- What is seen of the page at the end of a run. -/
theorem seen {α : Type} (f : Page → α) {x : α} {es : List Event} {p : Page} (hr : runs step initial es = some p)
    (h : (runs step initial es).map f = some x) : f p = x := by
  rw [hr] at h
  exact Option.some.inj h

theorem earlier_projects {n : Nat} {p : Page} (r : Reply .projectsList) (hn : 4 < n) :
    Along step (Earlier n) p (projects r) := by
  refine ⟨fun i c r' h => ?_, fun _ _ => trivial⟩
  cases h
  exact hn

end Example

/-- The list of projects fails after the lock, and nothing comes back. -/
theorem lock_is_final_failure : ∃ p₁ p₂ p₃, runs step initial Example.booted = some p₁ ∧
    runs step p₁ (.start .lock :: [] ++ [.answer p₁.next .lock (.ok ())]) = some p₂ ∧
    runs step p₂ (Example.projects (.error .other)) = some p₃ ∧ p₃.state.Cleared := by
  obtain ⟨p₃, hr⟩ : ∃ p, runs step initial (Example.booted ++ (.start .lock :: [] ++ [.answer 5 .lock (.ok ())]) ++
      Example.projects (.error .other)) = some p := ⟨_, rfl⟩
  obtain ⟨p₂, hr, h₃⟩ := runs_append.mp hr
  obtain ⟨p₁, h₁, h₂⟩ := runs_append.mp hr
  have hlater : 4 < p₂.next := by
    rw [Example.seen Loop.next hr (x := 6) rfl]
    decide
  rw [← Example.seen Loop.next h₁ (x := 5) rfl] at h₂
  refine ⟨p₁, p₂, p₃, h₁, h₂, h₃, lock_is_final h₁ h₂ h₃ ⟨⟨?_, ?_⟩, fun _ _ => trivial⟩⟩
  · exact (Example.earlier_projects (p := p₂) (.error .other) hlater).1
  · intro i c r fl h hfl
    cases h
    trivial

/-- The list of projects was asked for before the lock, and arrives after it. -/
theorem lock_is_not_final : ∃ p₁ p₂ p₃, runs step initial Example.booted = some p₁ ∧
    runs step p₁ (.start .lock :: [] ++ [.answer p₁.next .lock (.ok ())]) = some p₂ ∧
    runs step p₂ (Example.projects (.ok [⟨"p", ["/home/p"]⟩])) = some p₃ ∧
    Along step (Earlier p₂.next) p₂ (Example.projects (.ok [⟨"p", ["/home/p"]⟩])) ∧
    p₃.state.shell.projects = some [⟨"p", ["/home/p"]⟩] :=
  ⟨_, _, _, rfl, rfl, rfl, Example.earlier_projects _ (by decide), rfl⟩

end SecretsVault.Dashboard
