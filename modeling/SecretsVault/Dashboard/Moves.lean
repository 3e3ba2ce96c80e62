import SecretsVault.Dashboard.App

/-!
# What the handlers do to the page

Whatever a handler does between two of its calls is a chain of moves, the first of which may store the answer that has
resumed it. What every move keeps, and every answer that is admitted, is kept in every run.

- `Moves`: what a handler does on its own.
- `Brings c s r`: what it does with the answer `r` to the call `c` that was made in `s`.
- `Carries.handle`: every handler keeps what they keep, and sends secrets for the active project only.
-/

namespace SecretsVault.Dashboard

open Lib Coroutine

/-! ## Moves -/

/-- What the state has of the vault. -/
structure Slices where
  projects : Option (List ProjectEntry)
  secrets : Option (List SecretMeta)
  agents : Option (List AgentEntry)
  grants : Option (List GrantEntry)
  approvals : Option (List ApprovalEntry)
  leases : Option (List LeaseEntry)
  runs : Option (List RunEntry)
  overview : Option OverviewData
  health : Option HealthResponse
  audit : Option AuditPage
  auditVerify : Option AuditVerifyResult
  deriving DecidableEq

def ShellState.slices (s : ShellState) : Slices :=
  ⟨s.projects, s.secrets, s.agents, s.grants, s.approvals, s.leases, s.runs, s.overview, s.health, s.audit,
    s.auditVerify⟩

/-- Every slice stays, or is dropped. -/
structure Slices.Keeps (a b : Slices) : Prop where
  projects : b.projects = a.projects ∨ b.projects = none
  secrets : b.secrets = a.secrets ∨ b.secrets = none
  agents : b.agents = a.agents ∨ b.agents = none
  grants : b.grants = a.grants ∨ b.grants = none
  approvals : b.approvals = a.approvals ∨ b.approvals = none
  leases : b.leases = a.leases ∨ b.leases = none
  runs : b.runs = a.runs ∨ b.runs = none
  overview : b.overview = a.overview ∨ b.overview = none
  health : b.health = a.health ∨ b.health = none
  audit : b.audit = a.audit ∨ b.audit = none
  auditVerify : b.auditVerify = a.auditVerify ∨ b.auditVerify = none

theorem Slices.Keeps.refl (a : Slices) : a.Keeps a :=
  ⟨.inl rfl, .inl rfl, .inl rfl, .inl rfl, .inl rfl, .inl rfl, .inl rfl, .inl rfl, .inl rfl, .inl rfl, .inl rfl⟩

/-- A change of the state that brings nothing, stays with the active project, and opens no form and asks for no deletion
of a secret. -/
structure Plain (s t : ShellState) : Prop where
  slices : s.slices.Keeps t.slices
  activeProject : t.activeProject = s.activeProject
  secretForm : t.forms.secretForm = s.forms.secretForm ∨ t.forms.secretForm = none
  pendingConfirm : t.forms.pendingConfirm = s.forms.pendingConfirm ∨
    ∀ c, t.forms.pendingConfirm = some c → c.kind ≠ .secret

/-- What a handler does on its own. -/
inductive Moves (u : Ui) : Ui → Prop
  /-- The state stays as it is. A token or a value may go. -/
  | aside {v : Ui} (hobjects : v.objects = u.objects) (hcur : v.cur = u.cur) (hchosen : v.chosen = u.chosen)
      (htoken : v.oneTimeTokenNode = u.oneTimeTokenNode ∨ v.oneTimeTokenNode = none)
      (hlive : ∀ l, v.live = some l → l.value = none ∨ ∃ l', u.live = some l' ∧ l.value = l'.value) : Moves u v
  | set {f : ShellState → ShellState} (hf : Plain u.shell (f u.shell)) : Moves u (u.set f)
  | choose (name : String) : Moves u (u.choose name)
  | openForm (form : SecretForm) : Moves u (u.assign { u.obj with
      shell := { u.shell with forms := { u.shell.forms with secretForm := some form, pendingConfirm := none } }
      formIn := u.shell.activeProject })
  | askDelete {project : String} (hproject : u.shell.activeProject = some project) (key : String) : Moves u (u.assign
      { u.obj with
        shell := { u.shell with forms := { u.shell.forms with pendingConfirm := some ⟨.secret, project, some key⟩ } }
        confirmIn := some project })
  | refreshed (status : BrokerStatus) (pin : PinStatus) : Moves u (u.refreshed status pin)
  | locked : Moves u u.locked

/-- Calls that read a list other than those of the projects and the secrets. -/
def ApiCall.Lists : ApiCall → Prop
  | .agentsList | .grantsList | .approvalsPending | .leasesList | .runsList | .auditShow .. => True
  | _ => False

/-- Calls whose answer is stored in the object that was held. -/
def ApiCall.Holds : ApiCall → Prop
  | .overviewRefresh | .auditVerify | .settingsHealth => True
  | _ => False

/-- The active project, its secrets and the forms stay. -/
structure Beside (s t : ShellState) : Prop where
  activeProject : t.activeProject = s.activeProject
  secrets : t.secrets = s.secrets
  forms : t.forms = s.forms

/-- The audit slice when the answer to a call is stored in a state. -/
def ApiCall.auditAfter : (c : ApiCall) → c.Payload → ShellState → Option AuditPage
  | .auditShow _ beforeSeq, (page : AuditPage), s =>
    ((if beforeSeq.isNone then applyAuditFirstPage else applyAuditOlderPage) s page).audit
  | _, _, s => s.audit

/-- What a handler does with the answer to its call. -/
inductive Brings : (c : ApiCall) → Ui → Reply c → Ui → Ui → Prop
  | projects {s u : Ui} (list : List ProjectEntry) : Brings .projectsList s (.ok list) u (u.storeProjects list)
  | secrets {s u v : Ui} {project : String} {rows : List SecretRow} (h : u.storeSecrets project rows = .ok v) :
      Brings (.secretsList project) s (.ok rows) u v
  | list {c : ApiCall} {s u : Ui} {r : c.Payload} {f : ShellState → ShellState} (hc : c.Lists)
      (hf : Beside u.shell (f u.shell)) (haudit : (f u.shell).audit = c.auditAfter r u.shell) :
      Brings c s (.ok r) u (u.set f)
  | held {c : ApiCall} {s u : Ui} {r : c.Payload} {f : ShellState → ShellState} (hc : c.Holds)
      (hf : ∀ t, Beside t (f t)) (haudit : ∀ t, (f t).audit = t.audit) :
      Brings c s (.ok r) u (u.assign { u.objects s.cur with shell := f (u.objects s.cur).shell })
  | unlocked {s u : Ui} (passphrase : String) (resp : UnlockResponse) : Brings (.unlock passphrase) s (.ok resp) u
      { u.assign { u.objects s.cur with shell := applyUnlockSuccess (u.objects s.cur).shell resp u.nowMs } with
        oneTimeTokenNode := none, decidedApprovals := [] }
  | health {s u : Ui} (h : HealthResponse) : Brings .health s (.ok h) u (u.writeHealth s.cur h)
  | token {s u : Ui} {name : String} {tokenPath : Option String} {res : AgentAddResult} (h : res.token ≠ "") :
      Brings (.agentAdd name tokenPath) s (.ok res)
      u { u with oneTimeTokenNode := some (res.token, res.tokenSavedPath) }
  | value {s u : Ui} {project key value : String} (h : value ≠ "") :
      Brings (.reveal project key) s (.ok value) u (u.deliverRevealedValue project key value)

/-- A secret is written to the active project, and deleted from it when that is confirmed. An older page of the log is
asked for by the cursor. -/
def Sends (u : Ui) : ApiCall → Prop
  | .auditShow tail beforeSeq =>
    tail = AUDIT_PAGE_SIZE ∧ ∀ next, beforeSeq = some next → u.shell.audit.bind (·.nextBeforeSeq) = some next
  | .secretSet project _ _ => u.shell.activeProject = some project
  | .secretDelete project key => u.shell.activeProject = some project ∧
    u.shell.forms.pendingConfirm = some ⟨.secret, project, some key⟩
  | _ => True

/-- A call that neither writes nor deletes a secret. -/
def ApiCall.Free (c : ApiCall) : Prop := ∀ u, Sends u c

/-- What a stretch of a handler keeps and sends. -/
def Guarantee (I : Ui → Prop) (u v : Ui) (c : Option ApiCall) : Prop :=
  (I u → I v) ∧ ∀ call, c = some call → Sends u call

theorem live_kept {u : Ui} (l : RevealLive) (hl : u.live = some l) :
    l.value = none ∨ ∃ l', u.live = some l' ∧ l.value = l'.value := Or.inr ⟨l, hl, rfl⟩

theorem moves_refl (u : Ui) : Moves u u := .aside rfl rfl rfl (Or.inl rfl) live_kept

theorem moves_setError (u : Ui) (screen : Screen) (e : Option MappedError) : Moves u (u.setError screen e) :=
  .aside rfl rfl rfl (Or.inl rfl) live_kept

/-- A modal that a repaint opens shows no value. -/
theorem moves_paint (u : Ui) : Moves u u.paint := by
  rw [Ui.paint]
  split
  · split
    · exact .aside rfl rfl rfl (Or.inl rfl) fun l hl => Or.inl (by cases hl; rfl)
    · exact moves_refl u
  · exact moves_refl u

/-- What every move keeps, and every answer that is admitted. -/
structure Carries (A : (c : ApiCall) → Ui → Reply c → Ui → Prop) (I : Ui → Prop) : Prop where
  move : ∀ {u v}, Moves u v → I u → I v
  bring : ∀ {c s r u v}, Brings c s r u v → A c s r u → I u → I v

namespace Carries

variable {A : (c : ApiCall) → Ui → Reply c → Ui → Prop} {I : Ui → Prop} {α β : Type}

theorem refl (u : Ui) : Guarantee I u u none := ⟨fun h => h, fun _ h => by cases h⟩

/-! ## The parts of the handlers -/

theorem alter (h : Carries A I) {f : Ui → Ui} (hf : ∀ u, Moves u (f u)) : (alter f).Tame A (Guarantee I) :=
  tame_modify fun _ s hs => ⟨fun h₀ => h.move (hf s) (hs.1 h₀), fun _ hc => by cases hc⟩

theorem change (h : Carries A I) {f : ShellState → ShellState} (hf : ∀ s, Plain s (f s)) :
    (change f).Tame A (Guarantee I) := h.alter fun _ => .set (hf _)

/-- What the page has beside its objects changes; a token and a value stay, or go. -/
theorem aside (h : Carries A I) {f : Ui → Ui} (hf : ∀ u, (f u).objects = u.objects ∧ (f u).cur = u.cur ∧
    (f u).chosen = u.chosen ∧ ((f u).oneTimeTokenNode = u.oneTimeTokenNode ∨ (f u).oneTimeTokenNode = none) ∧
    ∀ l, (f u).live = some l → l.value = none ∨ ∃ l', u.live = some l' ∧ l.value = l'.value) :
    (Dashboard.alter f).Tame A (Guarantee I) := h.alter fun u =>
  .aside (hf u).1 (hf u).2.1 (hf u).2.2.1 (hf u).2.2.2.1 (hf u).2.2.2.2

/-- The token and the modal stay as well. -/
theorem beside (h : Carries A I) {f : Ui → Ui} (hf : ∀ u, (f u).objects = u.objects ∧ (f u).cur = u.cur ∧
    (f u).chosen = u.chosen ∧ (f u).oneTimeTokenNode = u.oneTimeTokenNode ∧ (f u).live = u.live) :
    (Dashboard.alter f).Tame A (Guarantee I) := h.aside fun u => by
  obtain ⟨hobjects, hcur, hchosen, htoken, hlive⟩ := hf u
  exact ⟨hobjects, hcur, hchosen, Or.inl htoken, hlive ▸ live_kept⟩

theorem setError (h : Carries A I) (screen : Screen) (e : Option MappedError) :
    (Dashboard.alter (·.setError screen e)).Tame A (Guarantee I) := h.alter fun u => moves_setError u screen e

theorem clearReveal (h : Carries A I) : (Dashboard.alter Ui.clearReveal).Tame A (Guarantee I) :=
  h.aside fun _ => ⟨rfl, rfl, rfl, Or.inl rfl, fun _ hl => by cases hl⟩

/-- The modal that is shown changes its texts. -/
theorem mapLive (h : Carries A I) {f : Ui → RevealLive → RevealLive} (hf : ∀ u l, (f u l).value = none ∨
    (f u l).value = l.value) : (Dashboard.alter fun u => { u with live := u.live.map (f u) }).Tame A (Guarantee I) :=
  h.aside fun u => ⟨rfl, rfl, rfl, Or.inl rfl, fun l hl => by
    obtain ⟨l', hl', rfl⟩ := Option.map_eq_some_iff.mp hl
    exact (hf u l').imp id fun hv => ⟨l', hl', hv⟩⟩

theorem render (h : Carries A I) : Dashboard.render.Tame A (Guarantee I) := h.alter moves_paint

/-- A change of what is beside the slices, the active project and the forms. -/
theorem plain_of_eq {s t : ShellState} (hslices : t.slices = s.slices) (hactive : t.activeProject = s.activeProject)
    (hform : t.forms.secretForm = s.forms.secretForm ∨ t.forms.secretForm = none)
    (hconfirm : t.forms.pendingConfirm = s.forms.pendingConfirm ∨ ∀ c, t.forms.pendingConfirm = some c →
    c.kind ≠ .secret) : Plain s t := ⟨hslices ▸ .refl _, hactive, hform, hconfirm⟩

theorem plain_applyError (s : ShellState) (e : ApiError) : Plain s (applyError s e) := by
  have hhealth : ∀ session at_ expired conn error, Plain s { s with
      session := session, unlockedAtMs := at_, sessionExpired := expired, conn := conn, health := none,
      error := error } :=
    fun _ _ _ _ _ => ⟨⟨.inl rfl, .inl rfl, .inl rfl, .inl rfl, .inl rfl, .inl rfl, .inl rfl, .inl rfl, .inr rfl,
      .inl rfl, .inl rfl⟩, rfl, Or.inl rfl, Or.inl rfl⟩
  rw [applyError]
  split
  · exact hhealth _ _ _ _ _
  · split
    · exact hhealth _ _ _ _ _
    · repeat' split
      all_goals exact plain_of_eq rfl rfl (Or.inl rfl) (Or.inl rfl)

theorem applyError (h : Carries A I) (e : ApiError) :
    (Dashboard.change (Dashboard.applyError · e)).Tame A (Guarantee I) :=
  h.change fun s => plain_applyError s e

theorem noteCallError (h : Carries A I) (e : ApiError) : (Dashboard.noteCallError e).Tame A (Guarantee I) := by
  refine tame_look.bind fun u => (h.applyError e).bind fun _ => tame_look.bind fun v => ?_
  split
  · exact Tame.bind (h.aside fun _ => ⟨rfl, rfl, rfl, Or.inl rfl, fun _ hl => by cases hl⟩) fun _ => tame_pure _
  · split
    · exact h.clearReveal.bind fun _ => tame_pure _
    · exact tame_pure _

theorem noteOn (h : Carries A I) (screen : Screen) (text : MappedError → MappedError) (e : ApiError) :
    (Dashboard.noteOn screen text e).Tame A (Guarantee I) := by
  refine (h.noteCallError e).bind fun expired => ?_
  split
  · exact tame_pure _
  · exact h.beside fun _ => ⟨rfl, rfl, rfl, rfl, rfl⟩

theorem done (h : Carries A I) : (Dashboard.change applyMutationDone).Tame A (Guarantee I) :=
  h.change fun _ => plain_of_eq rfl rfl (Or.inl rfl) (Or.inl rfl)

theorem markBusy (h : Carries A I) (action : String) : (Dashboard.markBusy action).Tame A (Guarantee I) :=
  h.change fun _ => plain_of_eq rfl rfl (Or.inl rfl) (Or.inl rfl)

theorem loadFailed (h : Carries A I) (screen : Screen) (e : ApiError) :
    (Dashboard.loadFailed screen e).Tame A (Guarantee I) :=
  h.done.bind fun _ => h.noteOn screen id e

theorem mutateFailed (h : Carries A I) (screen : Screen) (text : MappedError → MappedError) (e : ApiError) :
    (Dashboard.mutateFailed screen text e).Tame A (Guarantee I) :=
  h.done.bind fun _ => (h.noteOn screen text e).bind fun _ => h.render

/-! ## Calls and answers -/

section

variable {c : ApiCall} {s t : Ui} {r : Reply c}

theorem resumes {m : Handler α} (hm : m.Tame A (Guarantee I)) : Resumes A (Guarantee I) c s r t m := hm.resumes refl

theorem api (hc : c.Free) {f : Reply c → Handler β} (hf : ∀ s r t, Resumes A (Guarantee I) c s r t (f r)) :
    (Dashboard.api c >>= f).Tame A (Guarantee I) :=
  tame_ask_bind (fun s₀ s hs => ⟨hs.1, fun _ h => by cases h; exact hc s₀⟩) hf

theorem apiHeld (hc : c.Free) {f : Reply c × Obj → Handler β}
    (hf : ∀ s r t, Resumes A (Guarantee I) c s r t (f (r, t.objects s.cur))) :
    (Dashboard.apiHeld c >>= f).Tame A (Guarantee I) :=
  fun Q _ s hs hQ => ⟨fun s₀ h => ⟨(hs s₀ h).1, fun _ h => by cases h; exact hc s₀⟩, fun r t => hf s r t Q hQ⟩

/-- An answer is stored. -/
theorem bringing (h : Carries A I) {f : Ui → Ui} {k : Unit → Handler α} (hf : Brings c s r t (f t))
    (hk : ∀ a, (k a).Tame A (Guarantee I)) : Resumes A (Guarantee I) c s r t (Dashboard.alter f >>= k) :=
  resumes_modify_bind (fun hA => ⟨h.bring hf hA, fun _ h => by cases h⟩) hk

theorem store (h : Carries A I) {f : Ui → α → Except ApiError Ui} {a : α} {k : Except ApiError Unit → Handler β}
    (hf : ∀ v, f t a = .ok v → Brings c s r t v ∨ Moves t v) (hk : ∀ x, (k x).Tame A (Guarantee I)) :
    Resumes A (Guarantee I) c s r t (Dashboard.store f a >>= k) := by
  intro Q hQ
  rw [meets_bind, Dashboard.store, meets_bind, look, meets_look]
  cases hv : f t a with
  | error e => exact hk _ Q _ t (fun s₀ hs₀ => hs₀.1 ▸ refl _) hQ
  | ok v =>
    refine hk _ Q _ v (fun s₀ hs₀ => ⟨fun hI => ?_, fun _ h => by cases h⟩) hQ
    rcases hf v hv with hb | hm
    · exact h.bring hb hs₀.2 (hs₀.1 ▸ hI)
    · exact h.move hm (hs₀.1 ▸ hI)

end

/-! ## Posture, overview and health -/

theorem refreshPosture (h : Carries A I) : Dashboard.refreshPosture.Tame A (Guarantee I) := by
  refine api (c := .posture) (fun _ => trivial) fun s r t => ?_
  rcases r with e | ⟨status, pin⟩
  · exact resumes (tame_pure _)
  · exact resumes (Tame.bind (h.alter fun _ => .refreshed status pin) fun _ => tame_pure _)

theorem storeOverview (h : Carries A I) {data : OverviewData} {s t : Ui} {k : Unit → Handler α}
    (hk : ∀ a, (k a).Tame A (Guarantee I)) : Resumes A (Guarantee I) .overviewRefresh s (.ok data) t
      (Dashboard.storeOverview (t.objects s.cur) data >>= k) :=
  h.bringing (.held (f := (applyOverview · data)) trivial (fun _ => ⟨rfl, rfl, rfl⟩) fun _ => rfl) hk

theorem refreshOverviewData (h : Carries A I) : Dashboard.refreshOverviewData.Tame A (Guarantee I) := by
  refine tame_look.bind fun u => ?_
  split
  · exact tame_pure _
  · refine apiHeld (c := .overviewRefresh) (fun _ => trivial) fun s r t => ?_
    rcases r with e | data
    · exact resumes ((h.noteCallError e).bind fun _ => tame_pure _)
    · exact h.storeOverview (k := pure) tame_pure

theorem refreshHealth (h : Carries A I) : Dashboard.refreshHealth.Tame A (Guarantee I) := by
  intro Q o s hs hQ
  refine ⟨fun s₀ h => ⟨(hs s₀ h).1, fun _ h => by cases h; trivial⟩, fun r t => ?_⟩
  rcases r with e | x
  · exact resumes ((h.noteCallError e).bind fun _ => tame_pure _) Q hQ
  · exact h.bringing (f := (·.writeHealth s.cur x)) (k := pure) (.health x) tame_pure Q hQ

theorem refreshAll (h : Carries A I) : Dashboard.refreshAll.Tame A (Guarantee I) := by
  refine h.refreshPosture.bind fun r => ?_
  rcases r with e | _
  · exact tame_pure _
  · refine tame_look.bind fun u => ?_
    have hrest : (do Dashboard.refreshOverviewData; pure (.ok ()) : Handler (Except ApiError Unit)).Tame A
      (Guarantee I) :=
      h.refreshOverviewData.bind fun _ => tame_pure _
    dsimp only
    split
    · exact Tame.bind h.refreshHealth fun _ => hrest
    · exact hrest

/-! ## Lists -/

/-- A list that may be asked for from where its stretch has started. -/
theorem load_meets (h : Carries A I) {screen : Screen} {busyAction : Option String} {c : ApiCall}
    {f : Ui → c.Payload → Except ApiError Ui} (hf : ∀ s r u v, f u r = .ok v → Brings c s (.ok r) u v)
    {Q : Unit → (Ui → Prop) → Ui → Prop} {o : Ui → Prop} {s : Ui} (hs : ∀ s₀, o s₀ → Guarantee I s₀ s none)
    (hc : ∀ s₀, o s₀ → Sends s₀ c) (hQ : ∀ a o t, (∀ s₀, o s₀ → Guarantee I s₀ t none) → Q a o t) :
    (Dashboard.load screen busyAction c f).Meets A (Guarantee I) Q o s := by
  rw [Dashboard.load, meets_bind, look, meets_look]
  split
  · rcases busyAction with _ | action
    case' some =>
      rw [meets_bind]
      let busy := fun s : ShellState => { s with forms := { s.forms with busyAction := some action } }
      replace hs : ∀ s₀, o s₀ → Guarantee I s₀ (s.set busy) none := fun s₀ h₀ =>
        ⟨fun hI => h.move (.set (plain_of_eq rfl rfl (Or.inl rfl) (Or.inl rfl))) ((hs s₀ h₀).1 hI),
          fun _ hc => by cases hc⟩
    all_goals
      refine ⟨fun s₀ h₀ => ⟨(hs s₀ h₀).1, fun _ h => by cases h; exact hc s₀ h₀⟩, fun r t => ?_⟩
      rcases r with e | r
      · exact resumes (h.loadFailed screen e) Q hQ
      · refine h.store (fun v hv => Or.inl (hf _ r t v hv)) (fun x => ?_) Q hQ
        rcases x with e | _
        · exact h.loadFailed screen e
        · exact h.done
  · exact hQ _ _ _ hs

theorem load (h : Carries A I) {screen : Screen} {busyAction : Option String} {c : ApiCall}
    {f : Ui → c.Payload → Except ApiError Ui} (hc : c.Free) (hf : ∀ s r u v, f u r = .ok v → Brings c s (.ok r) u v) :
    (Dashboard.load screen busyAction c f).Tame A (Guarantee I) := fun _ _ _ hs hQ =>
  h.load_meets hf hs (fun s₀ _ => hc s₀) hQ

theorem brings_storing {c : ApiCall} {f : ShellState → c.Payload → ShellState} (hc : c.Lists)
    (hf : ∀ s r, Beside s (f s r)) (haudit : ∀ s r, (f s r).audit = c.auditAfter r s) (s : Ui) (r : c.Payload)
    (u v : Ui) (hv : storing f u r = .ok v) : Brings c s (.ok r) u v := by
  cases hv
  exact .list hc (hf _ r) (haudit _ r)

theorem brings_projects (s : Ui) (r : List ProjectEntry) (u v : Ui)
    (hv : (.ok (u.storeProjects r) : Except ApiError Ui) = .ok v) :
    Brings .projectsList s (.ok r) u v := by
  cases hv
  exact .projects r

theorem loadProjectsList (h : Carries A I) : Dashboard.loadProjectsList.Tame A (Guarantee I) :=
  h.load (fun _ => trivial) brings_projects

theorem loadAgentsList (h : Carries A I) : Dashboard.loadAgentsList.Tame A (Guarantee I) :=
  h.load (fun _ => trivial) (brings_storing trivial (fun _ _ => ⟨rfl, rfl, rfl⟩) fun _ _ => rfl)

theorem loadGrantsList (h : Carries A I) : Dashboard.loadGrantsList.Tame A (Guarantee I) :=
  h.load (fun _ => trivial) (brings_storing trivial (fun _ _ => ⟨rfl, rfl, rfl⟩) fun _ _ => rfl)

theorem loadLeasesList (h : Carries A I) : Dashboard.loadLeasesList.Tame A (Guarantee I) :=
  h.load (fun _ => trivial) (brings_storing trivial (fun _ _ => ⟨rfl, rfl, rfl⟩) fun _ _ => rfl)

theorem loadRunsList (h : Carries A I) : Dashboard.loadRunsList.Tame A (Guarantee I) :=
  h.load (fun _ => trivial) (brings_storing trivial (fun _ _ => ⟨rfl, rfl, rfl⟩) fun _ _ => rfl)

theorem loadApprovalsList (h : Carries A I) : Dashboard.loadApprovalsList.Tame A (Guarantee I) :=
  h.load (fun _ => trivial) (brings_storing trivial (fun _ _ => ⟨rfl, rfl, rfl⟩) fun _ _ => rfl)

theorem beside_applyAuditOlderPage (s : ShellState) (page : AuditPage) : Beside s (applyAuditOlderPage s page) := by
  rw [applyAuditOlderPage]
  split <;> exact ⟨rfl, rfl, rfl⟩

/-- The first page, or an older one. -/
theorem beside_audit (first : Bool) (s : ShellState) (page : AuditPage) :
    Beside s ((if first then applyAuditFirstPage else applyAuditOlderPage) s page) := by
  cases first with
  | true => exact ⟨rfl, rfl, rfl⟩
  | false => exact beside_applyAuditOlderPage s page

/-- The newest page. -/
theorem loadAuditPage (h : Carries A I) : (Dashboard.loadAuditPage none).Tame A (Guarantee I) :=
  h.load (fun _ => ⟨rfl, fun _ hnext => by cases hnext⟩)
    (brings_storing trivial (fun s r => beside_audit true s r) fun _ _ => rfl)

/-- An older page, by the cursor of the slice from which the stretch has started. -/
theorem loadOlderPage (h : Carries A I) {next : Nat} {Q : Unit → (Ui → Prop) → Ui → Prop} {o : Ui → Prop} {s : Ui}
    (hs : ∀ s₀, o s₀ → Guarantee I s₀ s none) (hnext : ∀ s₀, o s₀ → s₀.shell.audit.bind (·.nextBeforeSeq) = some next)
    (hQ : ∀ a o t, (∀ s₀, o s₀ → Guarantee I s₀ t none) → Q a o t) :
    (Dashboard.loadAuditPage (some next)).Meets A (Guarantee I) Q o s := by
  refine h.load_meets (c := .auditShow AUDIT_PAGE_SIZE (some next)) ?_ hs (fun s₀ h₀ => ⟨rfl, fun n hn => ?_⟩) hQ
  · exact brings_storing trivial (fun s r => beside_audit false s r) fun _ _ => rfl
  · cases hn
    exact hnext s₀ h₀

theorem loadSecretsList (h : Carries A I) : Dashboard.loadSecretsList.Tame A (Guarantee I) := by
  refine tame_look.bind fun u => ?_
  split
  · exact tame_pure _
  · exact h.load (fun _ => trivial) fun _ _ _ _ hv => .secrets hv

theorem loadAuditVerify (h : Carries A I) : Dashboard.loadAuditVerify.Tame A (Guarantee I) := by
  refine tame_look.bind fun u => ?_
  split
  · refine (h.markBusy _).bind fun _ => apiHeld (c := .auditVerify) (fun _ => trivial) fun s r t => ?_
    rcases r with e | r
    · exact resumes (h.loadFailed .audit e)
    · exact h.bringing (.held (f := (applyAuditVerify · r)) trivial (fun _ => ⟨rfl, rfl, rfl⟩) fun _ => rfl)
        fun _ => h.done
  · exact tame_pure _

theorem plain_applyBoot (s : ShellState) (status : BrokerStatus) (pin : PinStatus) : Plain s (applyBoot s status pin) :=
  ⟨⟨.inl rfl, .inl rfl, .inl rfl, .inl rfl, .inl rfl, .inl rfl, .inl rfl, .inl rfl, .inr rfl, .inr rfl, .inr rfl⟩, rfl,
    Or.inl rfl, Or.inl rfl⟩

theorem loadSettingsData (h : Carries A I) : Dashboard.loadSettingsData.Tame A (Guarantee I) := by
  refine (h.markBusy _).bind fun _ => api (c := .posture) (fun _ => trivial) fun s r t => ?_
  rcases r with e | ⟨status, pin⟩
  · exact resumes (h.loadFailed .settings e)
  · refine resumes (Tame.bind (h.change fun s => plain_applyBoot s status pin) fun _ => tame_look.bind fun u => ?_)
    split
    · refine apiHeld (c := .settingsHealth) (fun _ => trivial) fun s r t => ?_
      rcases r with e | x
      · refine resumes ((h.noteCallError e).bind fun expired => ?_)
        split
        · exact tame_pure _
        · exact h.done
      · exact h.bringing (.held (f := fun s => { s with health := some x }) trivial (fun _ => ⟨rfl, rfl, rfl⟩) fun _ =>
          rfl) fun _ => h.done
    · exact h.done

theorem loadSettingsProbe (h : Carries A I) : Dashboard.loadSettingsProbe.Tame A (Guarantee I) := by
  refine (h.markBusy _).bind fun _ => api (c := .probeFingerprint) (fun _ => trivial) fun s r t => ?_
  rcases r with e | fingerprint
  · exact resumes (h.loadFailed .settings e)
  · exact resumes (Tame.bind (h.alter fun u => .set (plain_of_eq rfl rfl (Or.inl rfl) (Or.inl rfl))) fun _ => h.done)

theorem unlessLoaded (slice : ShellState → Option α) {m : Handler Unit} (hm : m.Tame A (Guarantee I)) :
    (Dashboard.unlessLoaded slice m).Tame A (Guarantee I) := by
  refine tame_look.bind fun u => ?_
  split
  · exact hm
  · exact tame_pure _

theorem loadRouteData (h : Carries A I) (route : RouteId) : (Dashboard.loadRouteData route).Tame A (Guarantee I) := by
  have hprojects := unlessLoaded ShellState.projects h.loadProjectsList
  have hagents := unlessLoaded ShellState.agents h.loadAgentsList
  have hleases := unlessLoaded ShellState.leases h.loadLeasesList
  cases route with
  | overview => exact h.refreshOverviewData.bind fun _ => hprojects.bind fun _ => hagents.bind fun _ => hleases
  | projects => exact hprojects
  | secrets => exact hprojects.bind fun _ => unlessLoaded _ h.loadSecretsList
  | agents => exact hagents
  | grants => exact hprojects.bind fun _ => hagents.bind fun _ => unlessLoaded _ h.loadGrantsList
  | leases => exact hleases
  | approvals => exact unlessLoaded _ h.loadApprovalsList
  | runs => exact unlessLoaded _ h.loadRunsList
  | audit => exact h.loadAuditPage
  | settings => exact h.loadSettingsData

/-! ## Mutations -/

theorem rereadCounts (h : Carries A I) (screen : Screen) (text : String) :
    (Dashboard.rereadCounts screen text).Tame A (Guarantee I) := by
  have hdone : (do Dashboard.change applyMutationDone; Dashboard.render : Handler Unit).Tame A (Guarantee I) :=
    h.done.bind fun _ => h.render
  refine apiHeld (c := .overviewRefresh) (fun _ => trivial) fun s r t => ?_
  rcases r with e | data
  · exact resumes ((h.noteOn screen _ e).bind fun _ => hdone)
  · exact h.storeOverview fun _ => hdone

theorem reread (h : Carries A I) {m : Mutation} (hc : m.reread.Free)
    (hfill : ∀ s r u v, m.fill u r = .ok v → Brings m.reread s (.ok r) u v) :
    (Dashboard.reread m).Tame A (Guarantee I) := by
  refine api hc fun s r t => ?_
  rcases r with e | r
  · exact resumes (h.mutateFailed m.screen _ e)
  · refine h.store (fun v hv => Or.inl (hfill s r t v hv)) fun x => ?_
    rcases x with e | _
    · exact h.mutateFailed m.screen _ e
    · dsimp only
      split
      · exact h.rereadCounts m.screen _
      · exact h.done.bind fun _ => h.render

theorem moves_start (u : Ui) (action : String) : Moves u (u.set (applyMutationStart · action)) :=
  .set (plain_of_eq rfl rfl (Or.inr rfl) (Or.inr fun _ h => by cases h))

/-- A mutation whose call may be sent from where its stretch has started. -/
theorem mutate_meets (h : Carries A I) {m : Mutation}
    (hack : ∀ s r u v, m.acknowledge u r = .ok v → Brings m.call s (.ok r) u v ∨ Moves u v) (hc : m.reread.Free)
    (hfill : ∀ s r u v, m.fill u r = .ok v → Brings m.reread s (.ok r) u v) {Q : Unit → (Ui → Prop) → Ui → Prop}
    {o : Ui → Prop} {s : Ui} (hs : ∀ s₀, o s₀ → (I s₀ → I s) ∧ Sends s₀ m.call)
    (hQ : ∀ a o t, (∀ s₀, o s₀ → Guarantee I s₀ t none) → Q a o t) :
    (Dashboard.mutate m).Meets A (Guarantee I) Q o s := by
  refine ⟨fun s₀ hs₀ => ⟨fun h₀ => ?_, fun call hcall => ?_⟩, fun r t => ?_⟩
  · exact h.move (moves_paint _) (h.move (moves_setError _ m.screen none) (h.move (moves_start s m.action)
      ((hs s₀ hs₀).1 h₀)))
  · cases hcall
    exact (hs s₀ hs₀).2
  · rcases r with e | r
    · exact resumes (h.mutateFailed m.screen id e) Q hQ
    · refine h.store (fun v hv => hack _ r t v hv) (fun x => ?_) Q hQ
      rcases x with e | _
      · exact h.mutateFailed m.screen id e
      · exact h.reread hc hfill

/-- A mutation that writes no secret. -/
theorem mutate (h : Carries A I) {m : Mutation}
    (hack : ∀ s r u v, m.acknowledge u r = .ok v → Brings m.call s (.ok r) u v ∨ Moves u v) (hcall : m.call.Free)
    (hc : m.reread.Free) (hfill : ∀ s r u v, m.fill u r = .ok v → Brings m.reread s (.ok r) u v) :
    (Dashboard.mutate m).Tame A (Guarantee I) := fun _ _ _ hs hQ =>
  h.mutate_meets hack hc hfill (fun s₀ h₀ => ⟨(hs s₀ h₀).1, hcall s₀⟩) hQ

/-- An acknowledgement that is not stored. -/
theorem acked {c : ApiCall} (s : Ui) (r : c.Payload) (u v : Ui) (hv : (.ok u : Except ApiError Ui) = .ok v) :
    Brings c s (.ok r) u v ∨ Moves u v := by
  cases hv
  exact Or.inr (moves_refl u)

theorem mutateProjects (h : Carries A I) (action : String) {call : ApiCall} (hcall : call.Free) :
    (Dashboard.mutateProjects action call).Tame A (Guarantee I) :=
  h.mutate acked hcall (fun _ => trivial) brings_projects

theorem mutateAgents (h : Carries A I) (action : String) {call : ApiCall} (hcall : call.Free) :
    (Dashboard.mutateAgents action call).Tame A (Guarantee I) :=
  h.mutate acked hcall (fun _ => trivial) (brings_storing trivial (fun _ _ => ⟨rfl, rfl, rfl⟩) fun _ _ => rfl)

theorem mutateGrants (h : Carries A I) (action : String) {call : ApiCall} (hcall : call.Free) :
    (Dashboard.mutateGrants action call).Tame A (Guarantee I) :=
  h.mutate acked hcall (fun _ => trivial) (brings_storing trivial (fun _ _ => ⟨rfl, rfl, rfl⟩) fun _ _ => rfl)

theorem mutateLeases (h : Carries A I) (action : String) {call : ApiCall} (hcall : call.Free) :
    (Dashboard.mutateLeases action call).Tame A (Guarantee I) :=
  h.mutate acked hcall (fun _ => trivial) (brings_storing trivial (fun _ _ => ⟨rfl, rfl, rfl⟩) fun _ _ => rfl)

theorem mutateApprovals (h : Carries A I) (action : String) {call : ApiCall} (outcome : call.Payload → String × String)
    (hcall : call.Free) : (Dashboard.mutateApprovals action call outcome).Tame A (Guarantee I) := by
  refine h.mutate (fun s r u v hv => ?_) hcall (fun _ => trivial) (brings_storing trivial (fun _ _ => ⟨rfl, rfl, rfl⟩)
    fun _ _ => rfl)
  cases hv
  exact Or.inr (.aside rfl rfl rfl (Or.inl rfl) live_kept)

/-- A secret is written, or deleted. -/
theorem mutateSecrets (h : Carries A I) {action project : String} {call : ApiCall} {u : Ui} (hcall : Sends u call) :
    (Dashboard.mutateSecrets action project call).Meets A (Guarantee I) (fun _ o s => ∀ s₀, o s₀ →
      Guarantee I s₀ s none) (fun s₀ => s₀ = u) u := by
  refine h.mutate_meets acked ?_ (fun _ _ _ _ hv => .secrets hv) (fun s₀ h₀ => ?_) fun _ _ _ h => h
  · exact fun _ => trivial
  · subst h₀
    exact ⟨fun h => h, hcall⟩

theorem refuse (h : Carries A I) (screen : Screen) (message : String) :
    (Dashboard.refuse screen message).Tame A (Guarantee I) := (h.setError screen _).bind fun _ => h.render

theorem confirmed (h : Carries A I) {confirm : PendingConfirm} (hkind : confirm.kind ≠ .secret) {m : Handler Unit}
    (hm : m.Tame A (Guarantee I)) : (Dashboard.confirmed confirm m).Tame A (Guarantee I) := by
  refine tame_look.bind fun u => ?_
  split
  · exact hm
  · refine Tame.bind (h.change fun s => plain_of_eq rfl rfl (Or.inl rfl) (Or.inr fun c hc => ?_)) fun _ => h.render
    cases hc
    exact hkind

theorem reload (h : Carries A I) (screen : Screen) {m : Handler Unit} (hm : m.Tame A (Guarantee I)) :
    (Dashboard.reload screen m).Tame A (Guarantee I) :=
  (h.setError screen none).bind fun _ => h.render.bind fun _ => hm.bind fun _ => h.render

/-! ## The handlers -/

/-- Only the page around the state changes, and that is shown. -/
theorem asideShown (h : Carries A I) {f : Ui → Ui} (hf : ∀ u, (f u).objects = u.objects ∧ (f u).cur = u.cur ∧
    (f u).chosen = u.chosen ∧ (f u).oneTimeTokenNode = u.oneTimeTokenNode ∧ (f u).live = u.live) :
    (do Dashboard.alter f; Dashboard.render : Handler Unit).Tame A (Guarantee I) :=
  (h.beside hf).bind fun _ => h.render

theorem doLock (h : Carries A I) : Dashboard.doLock.Tame A (Guarantee I) :=
  Tame.bind (h.beside fun _ => ⟨rfl, rfl, rfl, rfl, rfl⟩) fun _ => h.render.bind fun _ =>
    api (c := .lock) (fun _ => trivial) fun _ _ _ => resumes (Tame.bind (h.alter fun _ => .locked) fun _ => h.render)

theorem refreshOrNote (h : Carries A I) : Dashboard.refreshOrNote.Tame A (Guarantee I) := by
  refine h.refreshAll.bind fun r => ?_
  rcases r with e | _
  · exact h.applyError e
  · exact tame_pure _

theorem unlockFailed (h : Carries A I) (e : ApiError) : (Dashboard.unlockFailed e).Tame A (Guarantee I) :=
  (h.applyError e).bind fun _ => h.beside fun _ => ⟨rfl, rfl, rfl, rfl, rfl⟩

theorem onUnlock (h : Carries A I) (passphrase : String) : (Dashboard.onUnlock passphrase).Tame A (Guarantee I) := by
  rw [Dashboard.onUnlock]
  split
  · exact h.asideShown fun _ => ⟨rfl, rfl, rfl, rfl, rfl⟩
  · have hend : (do Dashboard.alter fun u => { u with busy := false }; Dashboard.render : Handler Unit).Tame A
      (Guarantee I) :=
      h.asideShown fun _ => ⟨rfl, rfl, rfl, rfl, rfl⟩
    refine Tame.bind (h.beside fun _ => ⟨rfl, rfl, rfl, rfl, rfl⟩) fun _ => h.render.bind fun _ =>
      apiHeld (c := .unlock passphrase) (fun _ => trivial) fun s r t => ?_
    rcases r with e | resp
    · exact resumes ((h.unlockFailed e).bind fun _ => hend)
    · refine h.bringing (.unlocked passphrase resp) fun _ => h.refreshAll.bind fun r => ?_
      rcases r with e | _
      · exact (h.unlockFailed e).bind fun _ => hend
      · exact tame_look.bind fun u => (h.loadRouteData u.route).bind fun _ =>
          Tame.bind (h.beside fun _ => ⟨rfl, rfl, rfl, rfl, rfl⟩) fun _ => hend

theorem onProbe (h : Carries A I) : Dashboard.onProbe.Tame A (Guarantee I) := by
  have hend : (do Dashboard.alter fun u => { u with busy := false }; Dashboard.render : Handler Unit).Tame A
    (Guarantee I) :=
    h.asideShown fun _ => ⟨rfl, rfl, rfl, rfl, rfl⟩
  refine Tame.bind (h.beside fun _ => ⟨rfl, rfl, rfl, rfl, rfl⟩) fun _ => h.render.bind fun _ =>
    Tame.bind (h.beside fun _ => ⟨rfl, rfl, rfl, rfl, rfl⟩) fun _ => api (c := .probeFingerprint) (fun _ => trivial)
      fun s r t => ?_
  rcases r with e | fingerprint
  · exact resumes ((h.applyError e).bind fun _ => Tame.bind (h.beside fun _ => ⟨rfl, rfl, rfl, rfl, rfl⟩) fun _ => hend)
  · exact resumes (Tame.bind (h.beside fun _ => ⟨rfl, rfl, rfl, rfl, rfl⟩) fun _ => hend)

theorem manualRefresh (h : Carries A I) {f g : Ui → Ui} (hf : (Dashboard.alter f).Tame A (Guarantee I))
    (hg : (Dashboard.alter g).Tame A (Guarantee I)) :
    (do Dashboard.alter f; Dashboard.render; Dashboard.refreshOrNote; Dashboard.alter g; Dashboard.render :
      Handler Unit).Tame A (Guarantee I) :=
  hf.bind fun _ => h.render.bind fun _ => h.refreshOrNote.bind fun _ => hg.bind fun _ => h.render

theorem boot (h : Carries A I) : Dashboard.boot.Tame A (Guarantee I) :=
  Tame.bind (h.beside fun _ => ⟨rfl, rfl, rfl, rfl, rfl⟩) fun _ => h.render.bind fun _ => h.refreshOrNote.bind fun _ =>
    tame_look.bind fun u => (h.loadRouteData u.route).bind fun _ => h.asideShown fun _ => ⟨rfl, rfl, rfl, rfl, rfl⟩

theorem plain_clearAudit (s : ShellState) : Plain s (clearAudit s) :=
  ⟨⟨.inl rfl, .inl rfl, .inl rfl, .inl rfl, .inl rfl, .inl rfl, .inl rfl, .inl rfl, .inl rfl, .inr rfl, .inr rfl⟩, rfl,
    Or.inl rfl, Or.inl rfl⟩

theorem onHashChange (h : Carries A I) : Dashboard.onHashChange.Tame A (Guarantee I) := by
  refine h.clearReveal.bind fun _ => tame_look.bind fun u => ?_
  dsimp only
  split
  on_goal 1 => refine Tame.bind (h.change plain_clearAudit) fun _ => ?_
  all_goals
    refine h.render.bind fun _ => h.refreshPosture.bind fun r => ?_
    rcases r with e | _
    · exact (h.applyError e).bind fun _ => h.render
    · exact (h.loadRouteData u.route).bind fun _ => h.render

theorem slowTick (h : Carries A I) (visible : Bool) : (Dashboard.slowTick visible).Tame A (Guarantee I) := by
  refine tame_look.bind fun u => ?_
  split
  · exact h.refreshAll.bind fun _ => tame_pure _
  · exact tame_pure _

theorem approvalsTick (h : Carries A I) (visible : Bool) : (Dashboard.approvalsTick visible).Tame A (Guarantee I) := by
  refine tame_look.bind fun u => ?_
  split
  · exact h.loadApprovalsList
  · exact tame_pure _

/-- An older page is asked for by the cursor of the slice. -/
theorem onAuditLoadOlder (h : Carries A I) : Dashboard.onAuditLoadOlder.Begins A (Guarantee I) := by
  intro u
  rw [Dashboard.onAuditLoadOlder, meets_bind, look, meets_look]
  cases hnext : u.shell.audit.bind (·.nextBeforeSeq) with
  | none => exact fun s₀ h₀ => h₀ ▸ refl _
  | some next =>
    dsimp only
    rw [Dashboard.reload, meets_bind]
    refine meets_bind.mpr (meets_bind.mpr (h.loadOlderPage (fun s₀ h₀ => ?_) (fun s₀ h₀ => ?_) fun _ o t ht => ?_))
    · subst h₀
      exact ⟨fun hI => h.move (moves_paint _) (h.move (moves_setError _ .audit none) hI), fun _ hc => by cases hc⟩
    · subst h₀
      exact hnext
    · exact h.render _ o t ht fun _ _ _ h => h

/-- A change that brings nothing, and is shown. -/
theorem changeShown (h : Carries A I) {f : ShellState → ShellState} (hf : ∀ s, Plain s (f s)) :
    (do Dashboard.change f; Dashboard.render : Handler Unit).Tame A (Guarantee I) :=
    (h.change hf).bind fun _ => h.render

theorem onOpenProject (h : Carries A I) (name : String) : (Dashboard.onOpenProject name).Tame A (Guarantee I) := by
  refine Tame.bind (h.change fun s => plain_of_eq rfl rfl (Or.inl rfl) (Or.inl rfl)) fun _ =>
    Tame.bind (h.alter fun _ => .choose name) fun _ => tame_look.bind fun u => ?_
  split
  · exact h.asideShown fun _ => ⟨rfl, rfl, rfl, rfl, rfl⟩
  · exact h.render.bind fun _ => h.loadSecretsList.bind fun _ => h.render

theorem onAgentEnroll (h : Carries A I) (name : String) (tokenPath : Option String) :
    (Dashboard.onAgentEnroll name tokenPath).Tame A (Guarantee I) := by
  rw [Dashboard.onAgentEnroll]
  split
  · exact h.refuse _ _
  · refine h.mutate (fun s r u v hv => ?_) (fun _ => trivial) (fun _ => trivial)
      (brings_storing trivial (fun _ _ => ⟨rfl, rfl, rfl⟩) fun _ _ => rfl)
    dsimp only at hv
    split at hv
    · cases hv
    · rename_i htoken
      cases hv
      exact Or.inl (.token htoken)

theorem onGrantSave (h : Carries A I) (agent project : String) (ops : List String) :
    (Dashboard.onGrantSave agent project ops).Tame A (Guarantee I) := by
  rw [Dashboard.onGrantSave]
  split
  · exact h.refuse _ _
  · refine tame_look.bind fun u => ?_
    split
    · exact h.changeShown fun _ => plain_of_eq rfl rfl (Or.inl rfl) (Or.inr fun _ hc => by cases hc)
    · exact h.mutateGrants _ fun _ => trivial

theorem onGrantConfirmSave (h : Carries A I) : Dashboard.onGrantConfirmSave.Tame A (Guarantee I) := by
  refine tame_look.bind fun u => ?_
  split
  · exact tame_pure _
  · exact Tame.bind (h.change fun _ => plain_of_eq rfl rfl (Or.inl rfl) (Or.inl rfl)) fun _ =>
      h.mutateGrants _ fun _ => trivial

theorem onApprovalDecide (h : Carries A I) (id : String) (approve : Bool) :
    (Dashboard.onApprovalDecide id approve).Tame A (Guarantee I) := by
  rw [Dashboard.onApprovalDecide]
  split
  · exact tame_pure _
  · split
    · exact h.mutateApprovals _ _ fun _ => trivial
    · exact h.mutateApprovals _ _ fun _ => trivial

theorem onReturnToReveal (h : Carries A I) (project key : String) :
    (Dashboard.onReturnToReveal project key).Tame A (Guarantee I) := by
  rw [Dashboard.onReturnToReveal]
  split
  · exact tame_pure _
  · exact Tame.bind (h.alter fun _ => .choose project) fun _ => h.asideShown fun _ => ⟨rfl, rfl, rfl, rfl, rfl⟩

theorem onPickProject (h : Carries A I) (name : String) : (Dashboard.onPickProject name).Tame A (Guarantee I) := by
  refine tame_look.bind fun u => Tame.bind (h.alter fun _ => .choose name) fun _ => ?_
  split
  · exact tame_pure _
  · exact h.reload _ h.loadSecretsList

theorem onSecretFormOpen (h : Carries A I) (form : SecretForm) :
    (Dashboard.onSecretFormOpen form).Tame A (Guarantee I) :=
  Tame.bind (h.alter fun _ => .openForm form) fun _ => (h.setError .secrets none).bind fun _ => h.render

theorem onSecretSubmit (h : Carries A I) (key value : String) :
    (Dashboard.onSecretSubmit key value).Begins A (Guarantee I) := by
  intro u
  rw [Dashboard.onSecretSubmit, meets_bind, look, meets_look]
  cases hproject : u.shell.activeProject with
  | none => exact fun s₀ h₀ => h₀ ▸ refl _
  | some project =>
    dsimp only
    split
    · exact fun s₀ h₀ => h₀ ▸ refl _
    · exact h.mutateSecrets hproject

/-- The first click asks, and the second one deletes. -/
theorem onSecretDelete (h : Carries A I) (key : String) : (Dashboard.onSecretDelete key).Begins A (Guarantee I) := by
  intro u
  rw [Dashboard.onSecretDelete, meets_bind, look, meets_look]
  cases hproject : u.shell.activeProject with
  | none => exact fun s₀ h₀ => h₀ ▸ refl _
  | some project =>
    dsimp only
    split
    · rename_i hconfirm
      exact h.mutateSecrets ⟨hproject, hconfirm⟩
    · rw [meets_bind]
      intro s₀ h₀
      subst h₀
      exact ⟨fun h₀ => h.move (moves_paint _) (h.move (.askDelete hproject key) h₀), fun _ hc => by cases hc⟩

theorem onRevealOpen (h : Carries A I) (key : String) : (Dashboard.onRevealOpen key).Tame A (Guarantee I) := by
  refine tame_look.bind fun u => ?_
  split
  · exact tame_pure _
  · split
    · exact tame_pure _
    · exact h.aside fun _ => ⟨rfl, rfl, rfl, Or.inl rfl, fun _ hl => by cases hl; exact Or.inl rfl⟩

theorem revealNotShown (h : Carries A I) (project key : String) (e : ApiError) :
    (Dashboard.revealNotShown project key e).Tame A (Guarantee I) := by
  refine h.done.bind fun _ => (h.noteCallError e).bind fun expired => ?_
  dsimp only
  split
  · exact h.render
  · refine Tame.bind (h.mapLive fun u live => Or.inr ?_) fun _ => h.render
    split
    · rfl
    · rfl

theorem onRevealShow (h : Carries A I) (project key : String) :
    (Dashboard.onRevealShow project key).Tame A (Guarantee I) := by
  refine Tame.bind (h.alter fun u => moves_start u _) fun _ => (h.setError _ _).bind fun _ => h.render.bind fun _ =>
    api (c := .reveal project key) (fun _ => trivial) fun s r t => ?_
  rcases r with e | (value : String)
  · exact resumes (h.revealNotShown project key e)
  · dsimp only
    split
    · exact resumes (h.revealNotShown project key _)
    · rename_i hvalue
      exact h.bringing (.value hvalue) fun _ => h.done.bind fun _ => h.render

theorem pressReveal (h : Carries A I) : Dashboard.pressReveal.Tame A (Guarantee I) := by
  refine tame_look.bind fun u => ?_
  split
  · exact tame_pure _
  · rename_i live _
    split
    · exact tame_pure _
    · exact Tame.bind (h.mapLive fun _ _ => Or.inr rfl) fun _ => h.onRevealShow live.project live.key

/-- Every handler keeps what moves and answers keep, and sends secrets for the active project only. -/
theorem handle (h : Carries A I) (a : Act) : (handle a).Begins A (Guarantee I) := by
  have begins : ∀ {m : Handler Unit}, m.Tame A (Guarantee I) → m.Begins A (Guarantee I) := fun hm => hm.begins refl
  cases a with
  | boot => exact begins h.boot
  | lock => exact begins h.doLock
  | unlock passphrase => exact begins (h.onUnlock passphrase)
  | probe => exact begins h.onProbe
  | untrustedRefresh =>
    exact begins (h.manualRefresh (h.beside fun _ => ⟨rfl, rfl, rfl, rfl, rfl⟩)
      (h.beside fun _ => ⟨rfl, rfl, rfl, rfl, rfl⟩))
  | manualRefresh =>
    exact begins (h.manualRefresh (h.beside fun _ => ⟨rfl, rfl, rfl, rfl, rfl⟩)
      (h.beside fun _ => ⟨rfl, rfl, rfl, rfl, rfl⟩))
  | navigate route => exact begins (h.beside fun _ => ⟨rfl, rfl, rfl, rfl, rfl⟩)
  | hashChange => exact begins h.onHashChange
  | slowTick visible => exact begins (h.slowTick visible)
  | approvalsTick visible => exact begins (h.approvalsTick visible)
  | repaint => exact begins h.render
  | clock nowMs => exact begins (h.beside fun _ => ⟨rfl, rfl, rfl, rfl, rfl⟩)
  | reloadProjects => exact begins (h.reload _ h.loadProjectsList)
  | reloadSecrets => exact begins (h.reload _ h.loadSecretsList)
  | reloadAgents => exact begins (h.reload _ h.loadAgentsList)
  | reloadGrants =>
    exact begins (h.reload _ ((unlessLoaded _ h.loadProjectsList).bind fun _ =>
      (unlessLoaded _ h.loadAgentsList).bind fun _ => h.loadGrantsList))
  | reloadApprovals => exact begins (h.reload _ h.loadApprovalsList)
  | reloadLeases => exact begins (h.reload _ h.loadLeasesList)
  | reloadRuns => exact begins (h.reload _ h.loadRunsList)
  | reloadAudit => exact begins (h.reload _ (h.loadAuditPage))
  | loadOlder => exact h.onAuditLoadOlder
  | verifyAudit => exact begins (h.reload _ h.loadAuditVerify)
  | reloadSettings => exact begins (h.reload _ h.loadSettingsData)
  | probeSettings => exact begins (h.reload _ h.loadSettingsProbe)
  | projectCreate name paths =>
    simp only [Dashboard.handle, onProjectCreate]
    split
    · exact begins (h.refuse _ _)
    · exact begins (h.mutateProjects _ fun _ => trivial)
  | projectRemove name => exact begins (h.confirmed (by simp) (h.mutateProjects _ fun _ => trivial))
  | pathAdd name path =>
    simp only [Dashboard.handle, onPathAdd]
    split
    · exact begins (h.refuse _ _)
    · exact begins (h.mutateProjects _ fun _ => trivial)
  | pathRemove name path => exact begins (h.confirmed (by simp) (h.mutateProjects _ fun _ => trivial))
  | projectSelect name => exact begins (h.changeShown fun _ => plain_of_eq rfl rfl (Or.inl rfl) (Or.inl rfl))
  | tab t => exact begins (h.changeShown fun _ => plain_of_eq rfl rfl (Or.inl rfl) (Or.inl rfl))
  | agentSelect name => exact begins (h.changeShown fun _ => plain_of_eq rfl rfl (Or.inl rfl) (Or.inl rfl))
  | openProject name => exact begins (h.onOpenProject name)
  | cancelConfirm =>
    exact begins (h.changeShown fun _ => plain_of_eq rfl rfl (Or.inl rfl) (Or.inr fun _ hc => by cases hc))
  | grantCancelConfirm =>
    exact begins (h.changeShown fun _ => plain_of_eq rfl rfl (Or.inl rfl) (Or.inr fun _ hc => by cases hc))
  | agentEnroll name tokenPath => exact begins (h.onAgentEnroll name tokenPath)
  | tokenDismiss =>
    exact begins (Tame.bind (h.aside fun _ => ⟨rfl, rfl, rfl, Or.inr rfl, live_kept⟩) fun _ => h.render)
  | agentRevoke name => exact begins (h.confirmed (by simp) (h.mutateAgents _ fun _ => trivial))
  | grantPairChange agent project => exact begins (h.changeShown fun _ => plain_of_eq rfl rfl (Or.inl rfl) (Or.inl rfl))
  | grantSave agent project ops => exact begins (h.onGrantSave agent project ops)
  | grantConfirmSave => exact begins h.onGrantConfirmSave
  | grantRevoke agent project => exact begins (h.confirmed (by simp) (h.mutateGrants _ fun _ => trivial))
  | approvalDecide id approve => exact begins (h.onApprovalDecide id approve)
  | returnToReveal project key => exact begins (h.onReturnToReveal project key)
  | pickProject name => exact begins (h.onPickProject name)
  | formOpen form => exact begins (h.onSecretFormOpen form)
  | formClose => exact begins (h.changeShown fun _ => plain_of_eq rfl rfl (Or.inr rfl) (Or.inl rfl))
  | submit key value => exact h.onSecretSubmit key value
  | deleteSecret key => exact h.onSecretDelete key
  | revealOpen key => exact begins (h.onRevealOpen key)
  | revealShow => exact begins h.pressReveal
  | revealHide => exact begins (h.mapLive fun _ _ => Or.inl rfl)
  | revealClose => exact begins h.clearReveal
  | leaseRevoke id => exact begins (h.confirmed (by simp) (h.mutateLeases _ fun _ => trivial))
  | filterAudit f => exact begins (h.changeShown fun _ => plain_of_eq rfl rfl (Or.inl rfl) (Or.inl rfl))

end Carries

/-! ## Runs -/

/-- In every run, every call in flight goes on as it must. -/
theorem Carries.sound {A : (c : ApiCall) → Ui → Reply c → Ui → Prop} {I : Ui → Prop} (h : Carries A I) {p : Page}
    {es : List Event} (hr : runs step initial es = some p) : p.Sound A (Guarantee I) :=
  runs_induction (C := fun _ _ => True) (I := fun p : Page => p.Sound A (Guarantee I))
    (fun _ _ _ hp _ hs => (hp.step h.handle hs).1) (fun _ _ h => by cases h) (along_true _ _ _) hr

/-- A secret is sent for the active project only, whatever has been answered. -/
theorem sends {p p' : Page} {es : List Event} {e : Event} (hr : runs step initial es = some p) (hs : step p e = some p')
    {c : ApiCall} (hc : Loop.sent p p' = some c) : Sends p.state c := by
  have hcarries : Carries (fun _ _ _ _ => True) fun _ => True := ⟨fun _ _ => trivial, fun _ _ _ => trivial⟩
  obtain ⟨_, hstep⟩ := (hcarries.sound hr).step hcarries.handle hs
  exact (hstep fun _ _ _ _ _ _ => trivial).2 c hc

end SecretsVault.Dashboard
