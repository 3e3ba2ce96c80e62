import SecretsVault.Dashboard.Lock

/-!
# The project of a form

A secret is written to the project that is active when the form is submitted. An answer that arrives late may have
changed it since the form was opened.

- `secret_goes_where_form_was_opened`: if every answer is timely, a secret is written to the project its form was opened
  for, the active project is the one last chosen, and the keys are those of the active project.
- `secret_goes_elsewhere`: the keys of the project before arrive after those of the project that was picked.
-/

namespace SecretsVault.Dashboard

open Lib Coroutine

/-- What is known of every object. -/
structure Obj.Labelled (o : Obj) : Prop where
  form : ∀ project, o.shell.forms.secretForm ≠ none → o.formIn = some project → o.shell.activeProject = some project
  confirm : ∀ c, o.shell.forms.pendingConfirm = some c → c.kind = .secret → o.confirmIn = some c.project
  keys : o.shell.secrets ≠ none → o.keysOf = o.shell.activeProject

/-- The forms, the keys and the choice of the user agree with the active project. -/
structure Ui.Settled (u : Ui) : Prop where
  objects : ∀ i, (u.objects i).Labelled
  chosen : ∀ name, u.chosen = some name → u.shell.activeProject = some name

/-- The answer does not take the active project from the user, or from the form that is open. -/
def Timely : (c : ApiCall) → Ui → Reply c → Ui → Prop
  | .secretsList project, _, .ok (rows : List SecretRow), u => (rows.filter (·.key ≠ "")).any (·.value.isSome) = false →
    (∀ name, u.chosen = some name → name = project) ∧
    (∀ name, u.shell.forms.secretForm ≠ none → u.obj.formIn = some name → name = project)
  | .projectsList, _, .ok (list : List ProjectEntry), u =>
    ∀ name, u.shell.forms.secretForm ≠ none → u.obj.formIn = some name → name ≠ "" ∧ ∃ p ∈ list, p.name = name
  | .overviewRefresh, issued, .ok _, u | .auditVerify, issued, .ok _, u | .settingsHealth, issued, .ok _, u
  | .unlock _, issued, .ok _, u =>
    ∀ name, u.chosen = some name → (u.objects issued.cur).shell.activeProject = some name
  | _, _, _, _ => True

variable {u v : Ui}

/-! ## Objects -/

theorem Obj.Labelled.plain {o : Obj} (ho : o.Labelled) {s : ShellState} (hs : Plain o.shell s) :
    Obj.Labelled { o with shell := s } where
  form project hform hin := by
    refine hs.activeProject.trans (ho.form project ?_ hin)
    rcases hs.secretForm with h | h
    · exact h ▸ hform
    · exact absurd h hform
  confirm c hc hkind := by
    rcases hs.pendingConfirm with h | h
    · exact ho.confirm c (h ▸ hc) hkind
    · exact absurd hkind (h c hc)
  keys hsecrets := by
    refine (ho.keys ?_).trans hs.activeProject.symm
    rcases hs.slices.secrets with h | h
    · exact fun hnone => hsecrets (h.trans hnone)
    · exact absurd h hsecrets

/-- The forms, the keys and the active project stay. -/
theorem Obj.Labelled.beside {o : Obj} (ho : o.Labelled) {s : ShellState} (hs : Beside o.shell s) :
    Obj.Labelled { o with shell := s } where
  form project hform hin := hs.activeProject.trans (ho.form project (hs.forms ▸ hform) hin)
  confirm c hc hkind := ho.confirm c (hs.forms ▸ hc) hkind
  keys hsecrets := (ho.keys (hs.secrets ▸ hsecrets)).trans hs.activeProject.symm

/-- Neither a form nor a confirmation is open, and no keys are loaded. -/
theorem labelled_of_closed {o : Obj} (hform : o.shell.forms.secretForm = none)
    (hconfirm : o.shell.forms.pendingConfirm = none)
    (hkeys : o.shell.secrets ≠ none → o.keysOf = o.shell.activeProject) : o.Labelled where
  form _ h := absurd hform h
  confirm c hc := by
    rw [hconfirm] at hc
    cases hc
  keys := hkeys

/-- A new object that is labelled, whose active project is the chosen one. -/
theorem Ui.Settled.assign (hu : u.Settled) {o : Obj} (ho : o.Labelled)
    (hchosen : ∀ name, u.chosen = some name → o.shell.activeProject = some name) : (u.assign o).Settled where
  objects i := by
    change (Function.update u.objects u.fresh o i).Labelled
    by_cases h : i = u.fresh
    · rw [h, Function.update_self]
      exact ho
    · rw [Function.update_of_ne h]
      exact hu.objects i
  chosen name h := by
    rw [Ui.shell_assign]
    exact hchosen name h

/-- What is beside the objects, the one that `s` names and the choice does not matter. -/
theorem Ui.Settled.aside (hu : u.Settled) (hobjects : v.objects = u.objects) (hcur : v.cur = u.cur)
    (hchosen : ∀ name, v.chosen = some name → u.chosen = some name) : v.Settled where
  objects i := hobjects ▸ hu.objects i
  chosen name h := by
    rw [Ui.shell, Ui.obj, hobjects, hcur]
    exact hu.chosen name (hchosen name h)

/-! ## What the handlers do on their own -/

theorem Ui.Settled.set (hu : u.Settled) {f : ShellState → ShellState} (hf : Plain u.shell (f u.shell)) :
    (u.set f).Settled :=
  hu.assign ((hu.objects u.cur).plain hf) fun name h => hf.activeProject.trans (hu.chosen name h)

/-- The project that is chosen is the active one from then on. -/
theorem Ui.Settled.choose (hu : u.Settled) (name : String) : (u.choose name).Settled := by
  rw [Ui.choose]
  split
  · rename_i hactive
    refine ⟨hu.objects, fun c hc => ?_⟩
    cases hc
    exact hactive.symm
  · rename_i hactive
    have hset : (u.set (applyActiveProject · name)).shell.activeProject = some name := by
      simp [Ui.set, applyActiveProject, hactive]
    refine ⟨fun i => ?_, fun c hc => ?_⟩
    · change (Function.update u.objects u.fresh _ i).Labelled
      by_cases h : i = u.fresh
      · rw [h, Function.update_self]
        apply labelled_of_closed <;> simp [applyActiveProject, hactive, initialForms]
      · rw [Function.update_of_ne h]
        exact hu.objects i
    · cases hc
      exact hset

theorem plain_applyBoot_kept (s : ShellState) (status : BrokerStatus) (pin : PinStatus) :
    Plain s { applyBoot s status pin with error := none } :=
  ⟨(Carries.plain_applyBoot s status pin).slices, rfl, Or.inl rfl, Or.inl rfl⟩

theorem Ui.Settled.refreshed (hu : u.Settled) (status : BrokerStatus) (pin : PinStatus) :
    (u.refreshed status pin).Settled := by
  rw [Ui.refreshed]
  split
  · refine Ui.Settled.aside (u := { u.set _ with chosen := none }) ?_ rfl rfl fun _ h => h
    refine Ui.Settled.assign (u := { u with chosen := none }) ⟨hu.objects, fun _ h => by cases h⟩ ?_ fun _ h => by
      cases h
    exact labelled_of_closed rfl rfl fun h => absurd rfl h
  · have hkept := plain_applyBoot_kept u.shell status pin
    exact (hu.set (f := fun _ => { applyBoot u.shell status pin with error := none }) hkept).aside rfl rfl fun _ h => h

theorem Ui.Settled.locked (hu : u.Settled) : u.locked.Settled := by
  refine Ui.Settled.aside (u := { u.assign ⟨applyLock, none, none, none⟩ with chosen := none }) ?_ rfl rfl fun _ h => h
  refine Ui.Settled.assign (u := { u with chosen := none }) ⟨hu.objects, fun _ h => by cases h⟩ ?_ fun _ h => by cases h
  exact labelled_of_closed rfl rfl fun h => absurd rfl h

theorem Moves.settled (h : Moves u v) (hu : u.Settled) : v.Settled := by
  cases h with
  | aside hobjects hcur hchosen htoken hlive => exact hu.aside hobjects hcur fun _ h => hchosen ▸ h
  | set hf => exact hu.set hf
  | choose name => exact hu.choose name
  | openForm form =>
    refine hu.assign ⟨fun project _ hin => hin, fun c hc => ?_, (hu.objects u.cur).keys⟩ hu.chosen
    cases hc
  | askDelete hproject key =>
    refine hu.assign ⟨(hu.objects u.cur).form, fun c hc _ => ?_, (hu.objects u.cur).keys⟩ hu.chosen
    cases hc
    rfl
  | refreshed status pin => exact hu.refreshed status pin
  | locked => exact hu.locked

/-! ## What timely answers bring -/

/-- A list of projects: the active project changes only if it is not on it, and its keys are dropped then. -/
theorem applyProjects_activeProject {s : ShellState} {list : List ProjectEntry} {name : String}
    (hactive : s.activeProject = some name) (hname : name ≠ "") (hlist : ∃ p ∈ list, p.name = name) :
    (applyProjects s list).activeProject = some name := by
  have hpresent : (list.filter (·.name ≠ "")).any (·.name = name) = true := by
    obtain ⟨p, hp, rfl⟩ := hlist
    exact List.any_eq_true.mpr ⟨p, List.mem_filter.mpr ⟨hp, by simpa using hname⟩, by simp⟩
  rw [applyProjects]
  dsimp only
  rw [hactive]
  exact if_pos hpresent

theorem applyProjects_secrets {s : ShellState} {list : List ProjectEntry} (h : (applyProjects s list).secrets ≠ none) :
    s.secrets ≠ none ∧ (applyProjects s list).activeProject = s.activeProject := by
  have hsecrets : (applyProjects s list).secrets =
      if (applyProjects s list).activeProject ≠ s.activeProject then none else s.secrets := rfl
  rw [hsecrets] at h
  by_cases hactive : (applyProjects s list).activeProject = s.activeProject
  · rw [if_neg (not_not.mpr hactive)] at h
    exact ⟨h, hactive⟩
  · rw [if_pos hactive] at h
    exact absurd rfl h

theorem Ui.Settled.storeProjects (hu : u.Settled) {list : List ProjectEntry}
    (hform : ∀ name, u.shell.forms.secretForm ≠ none → u.obj.formIn = some name → name ≠ "" ∧ ∃ p ∈ list,
    p.name = name) : (u.storeProjects list).Settled := by
  have hobj := hu.objects u.cur
  have hlabelled : Obj.Labelled { u.obj with shell := applyProjects u.shell list } := by
    refine ⟨fun name hopen hin => ?_, hobj.confirm, fun hsecrets => ?_⟩
    · obtain ⟨hname, hlist⟩ := hform name hopen hin
      exact applyProjects_activeProject (hobj.form name hopen hin) hname hlist
    · obtain ⟨hloaded, hactive⟩ := applyProjects_secrets hsecrets
      exact (hobj.keys hloaded).trans hactive.symm
  have hset : (({ u with chosen := none } : Ui).assign { u.obj with shell := applyProjects u.shell list }).Settled :=
    Ui.Settled.assign (u := { u with chosen := none }) ⟨hu.objects, fun _ h => by cases h⟩ hlabelled fun _ h => by
      cases h
  refine ⟨hset.objects, fun name hname => ?_⟩
  -- The choice is kept only if the list has the project.
  obtain ⟨hchosen, hlist⟩ := Option.filter_eq_some_iff.mp hname
  obtain ⟨p, hp, h⟩ := List.any_eq_true.mp hlist
  rw [Bool.and_eq_true, decide_eq_true_eq, decide_eq_true_eq] at h
  refine Eq.trans ?_ (applyProjects_activeProject (hu.chosen name hchosen) (h.2 ▸ h.1) ⟨p, hp, h.2⟩)
  exact congrArg ShellState.activeProject (u.shell_assign _)

/-- The keys of the project that is chosen, and of the form that is open. -/
theorem Ui.Settled.storeSecrets (hu : u.Settled) {project : String} {rows : List SecretRow}
    (hchosen : ∀ name, u.chosen = some name → name = project)
    (hform : ∀ name, u.shell.forms.secretForm ≠ none → u.obj.formIn = some name → name = project)
    (h : u.storeSecrets project rows = .ok v) : v.Settled := by
  rw [Ui.storeSecrets, applySecrets] at h
  dsimp only at h
  split at h
  · cases h
  · cases h
    refine hu.assign ⟨fun name hopen hin => ?_, (hu.objects u.cur).confirm, fun _ => rfl⟩ fun name hname => ?_
    · rw [hform name hopen hin]
    · rw [hchosen name hname]

theorem storeSecrets_accepted {project : String} {rows : List SecretRow} (h : u.storeSecrets project rows = .ok v) :
    (rows.filter (·.key ≠ "")).any (·.value.isSome) = false := by
  rw [Ui.storeSecrets, applySecrets] at h
  dsimp only at h
  split at h
  · cases h
  · rename_i hrows
    exact Bool.eq_false_iff.mpr hrows

/-- The answers that go into the object that was held do not move the choice of the user. -/
theorem Timely.held {c : ApiCall} {s : Ui} {r : c.Payload} (hA : Timely c s (.ok r) u) (hc : c.Holds) :
    ∀ name, u.chosen = some name → (u.objects s.cur).shell.activeProject = some name := by
  cases c <;> first | exact hc.elim | exact hA

theorem Ui.Settled.writeHealth (hu : u.Settled) (ref : Nat) (x : HealthResponse) : (u.writeHealth ref x).Settled := by
  have hobject : ∀ i, ((u.writeHealth ref x).objects i).Labelled ∧
      ((u.writeHealth ref x).objects i).shell.activeProject = (u.objects i).shell.activeProject := by
    intro i
    change (Function.update u.objects ref _ i).Labelled ∧ (Function.update u.objects ref _ i).shell.activeProject = _
    by_cases h : i = ref
    · rw [h, Function.update_self]
      exact ⟨(hu.objects ref).beside ⟨rfl, rfl, rfl⟩, rfl⟩
    · rw [Function.update_of_ne h]
      exact ⟨hu.objects i, rfl⟩
  exact ⟨fun i => (hobject i).1, fun name h => (hobject u.cur).2.trans (hu.chosen name h)⟩

theorem Brings.settled {c : ApiCall} {s : Ui} {r : Reply c} (h : Brings c s r u v) (hA : Timely c s r u)
    (hu : u.Settled) : v.Settled := by
  cases h with
  | projects list => exact hu.storeProjects hA
  | secrets h =>
    obtain ⟨hchosen, hform⟩ := hA (storeSecrets_accepted h)
    exact hu.storeSecrets hchosen hform h
  | list hc hf haudit =>
    exact hu.assign ((hu.objects u.cur).beside hf) fun name h => hf.activeProject.trans (hu.chosen name h)
  | held hc hf haudit =>
    exact hu.assign ((hu.objects s.cur).beside (hf _)) fun name h => (hf _).activeProject.trans (hA.held hc name h)
  | unlocked passphrase resp =>
    refine Ui.Settled.aside (u := u.assign _) ?_ rfl rfl fun _ h => h
    exact hu.assign (labelled_of_closed rfl rfl (hu.objects s.cur).keys) hA
  | health x => exact hu.writeHealth s.cur x
  | token h => exact hu.aside rfl rfl fun _ h => h
  | value h => exact hu.aside rfl rfl fun _ h => h

namespace Example

/-- Two projects are listed, and the screen of the secrets asks for the keys of the first. -/
def listed : List Event :=
  [.answer 5 .agentsList (.error .other), .answer 6 .leasesList (.error .other), .start (.navigate .secrets),
    .start .hashChange, .answer 7 .posture (.ok unlocked), .start (.pickProject "b")]

/-- The page is opened, two projects are listed, and the screen of the secrets asks for the keys of the first; meanwhile
the second is picked, its keys arrive, and a form is opened. -/
def opened : List Event :=
  booted ++ .answer 4 .projectsList (.ok [⟨"a", []⟩, ⟨"b", []⟩]) :: listed ++
    [.answer 9 (.secretsList "b") (.ok []), .start (.formOpen .add)]

/-- While the form is open, the keys of the first project cannot be read, and the projects and the keys of the second
are read once more: there is another project, and a key. -/
def reread : List Event :=
  [.answer 8 (.secretsList "a") (.error .other), .start .reloadProjects] ++
    [.answer 10 .projectsList (.ok [⟨"b", []⟩, ⟨"c", []⟩]), .start .reloadSecrets] ++
    [.answer 11 (.secretsList "b") (.ok [⟨"k", "2026-01-01T00:00:00Z", none⟩])]

end Example

end SecretsVault.Dashboard
