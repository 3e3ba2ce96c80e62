import SecretsVault.Dashboard.State
import SecretsVault.Lib.Coroutine

/-!
# The handlers of the dashboard

One thread runs the handlers of the page; each waits for the answers of the backend, and other handlers run meanwhile.
The variable `s` of the program names an object, and every transition makes a new one. Where the program writes `s =
f(s, await call())`, the object that `f` sees is the one that `s` named before the wait.

Toasts, timers and the page itself are left out: a timer is an event that can happen at any time, and so is a repaint.
-/

namespace SecretsVault.Dashboard

open Lib

/-! ## The page -/

/-- Screens with an error of their own. -/
inductive Screen where
  | projects | secrets | agents | grants | approvals | leases | runs | audit | settings
  deriving DecidableEq, Repr

/-- The reveal modal. -/
structure RevealLive where
  project : String
  key : String
  value : Option String
  shownAtMs : Option Nat
  busy : Bool
  error : Option String
  deriving DecidableEq, Repr

/-- An object of the shell state. What is not in the program: the projects that were active when its secret form was
opened and when its confirmation was asked for, and the project that its keys were read of. -/
structure Obj where
  shell : ShellState
  formIn : Option String
  confirmIn : Option String
  keysOf : Option String
  deriving DecidableEq, Repr

/-- The variables of the page: its objects, the one that `s` names, and the rest. The project that the user has chosen,
as long as the lists of projects have it, is not in the program. -/
structure Ui where
  objects : Nat → Obj
  cur : Nat
  fresh : Nat
  chosen : Option String
  route : RouteId
  nowMs : Nat
  busy : Bool
  overviewBusy : Bool
  unlockFailure : Option String
  probed : Option String
  probeError : Option String
  errors : Screen → Option MappedError
  oneTimeTokenNode : Option (String × Option String)
  decidedApprovals : List (String × String)
  pendingRevealOpen : Option (String × String)
  live : Option RevealLive

namespace Ui

def obj (u : Ui) : Obj := u.objects u.cur

def shell (u : Ui) : ShellState := u.obj.shell

/-- `s` names a new object. -/
def assign (u : Ui) (o : Obj) : Ui :=
  { u with objects := Function.update u.objects u.fresh o, cur := u.fresh, fresh := u.fresh + 1 }

@[simp] theorem obj_assign (u : Ui) (o : Obj) : (u.assign o).obj = o := by
  simp [assign, obj]

@[simp] theorem shell_assign (u : Ui) (o : Obj) : (u.assign o).shell = o.shell := by
  rw [shell, obj_assign]

/-- `s` names a new object that is made from the one before. -/
def set (u : Ui) (f : ShellState → ShellState) : Ui := u.assign { u.obj with shell := f u.shell }

/-- The health of an object is written where it is. -/
def writeHealth (u : Ui) (ref : Nat) (h : HealthResponse) : Ui :=
  { u with objects := Function.update u.objects ref { u.objects ref with
    shell := { (u.objects ref).shell with health := some h } } }

def setError (u : Ui) (screen : Screen) (e : Option MappedError) : Ui :=
  { u with errors := Function.update u.errors screen e }

/-- The user chooses a project. -/
def choose (u : Ui) (name : String) : Ui :=
  if some name = u.shell.activeProject then { u with chosen := some name }
  else { u.set (applyActiveProject · name) with chosen := some name }

def storeProjects (u : Ui) (projects : List ProjectEntry) : Ui :=
  { u.set (applyProjects · projects) with
    chosen := u.chosen.filter fun name => projects.any fun p => p.name ≠ "" && p.name = name }

def storeSecrets (u : Ui) (project : String) (secrets : List SecretRow) : Except ApiError Ui :=
  (applySecrets u.shell project secrets).map fun shell => u.assign { u.obj with shell, keysOf := some project }

/-- Whether the screen of the secrets is shown. -/
def showsSecrets (u : Ui) : Bool :=
  u.route = .secrets && u.shell.fatal.isNone && u.shell.conn = .trusted && !needsUnlockGate u.shell

/-- A repaint opens the modal that waits for the screen of the secrets. -/
def paint (u : Ui) : Ui :=
  match u.pendingRevealOpen with
  | some (project, key) =>
    if u.showsSecrets then
      { u with pendingRevealOpen := none, live := some ⟨project, key, none, none, false, none⟩ }
    else u
  | none => u

def clearReveal (u : Ui) : Ui := { u with live := none }

/-- The value is shown in the modal that waits for it, if there is one. -/
def deliverRevealedValue (u : Ui) (project key value : String) : Ui :=
  { u with live := u.live.map fun live =>
      if live.project = project ∧ live.key = key then
        { live with value := some value, shownAtMs := some u.nowMs, busy := false, error := none }
      else live }

def revealFailed (u : Ui) (project key message : String) : Ui :=
  { u with live := u.live.map fun live =>
      if live.project = project ∧ live.key = key then { live with busy := false, error := some message } else live }

end Ui

/-! ## The calls of the backend -/

/-- `posture` is `get_status` and `pin_status` together; `settingsHealth` is `health`, as the settings ask for it. -/
inductive ApiCall where
  | posture
  | probeFingerprint
  | unlock (passphrase : String)
  | lock
  | health
  | settingsHealth
  | overviewRefresh
  | projectsList
  | projectAdd (name : String) (paths : List String)
  | projectRemove (name : String)
  | projectPathAdd (name path : String)
  | projectPathRemove (name path : String)
  | secretsList (project : String)
  | secretSet (project key value : String)
  | secretDelete (project key : String)
  | agentsList
  | agentAdd (name : String) (tokenPath : Option String)
  | agentRevoke (name : String)
  | grantsList
  | grantSet (agent project : String) (ops : List String)
  | grantRevoke (agent project : String)
  | approvalsPending
  | approvalApprove (id : String)
  | approvalDeny (id : String)
  | reveal (project key : String)
  | leasesList
  | leaseRevoke (id : String)
  | runsList
  | auditShow (tail : Nat) (beforeSeq : Option Nat)
  | auditVerify
  deriving DecidableEq, Repr

/-- What a call answers when it succeeds. -/
def ApiCall.Payload : ApiCall → Type
  | .posture => BrokerStatus × PinStatus
  | .probeFingerprint => String
  | .unlock _ => UnlockResponse
  | .health | .settingsHealth => HealthResponse
  | .overviewRefresh => OverviewData
  | .projectsList => List ProjectEntry
  | .secretsList _ => List SecretRow
  | .agentsList => List AgentEntry
  | .agentAdd .. => AgentAddResult
  | .grantsList => List GrantEntry
  | .approvalsPending => List ApprovalEntry
  | .approvalApprove _ | .approvalDeny _ => String × String
  | .reveal .. => String
  | .leasesList => List LeaseEntry
  | .runsList => List RunEntry
  | .auditShow .. => AuditPage
  | .auditVerify => AuditVerifyResult
  | .lock | .projectAdd .. | .projectRemove _ | .projectPathAdd .. | .projectPathRemove .. | .secretSet .. |
      .secretDelete ..
  | .agentRevoke _ | .grantSet .. | .grantRevoke .. | .leaseRevoke _ => Unit

abbrev Reply (c : ApiCall) : Type := Except ApiError c.Payload

abbrev Handler (α : Type) : Type := Coroutine Ui ApiCall Reply α

def alter (f : Ui → Ui) : Handler Unit := .modify f

def change (f : ShellState → ShellState) : Handler Unit := alter (·.set f)

def look : Handler Ui := .look

def api (c : ApiCall) : Handler (Reply c) := .ask c

/-- Wait for an answer, holding the object that `s` names before the wait. -/
def apiHeld (c : ApiCall) : Handler (Reply c × Obj) := do
  let u ← look
  let r ← api c
  let v ← look
  pure (r, v.objects u.cur)

def render : Handler Unit := alter Ui.paint

/-! ## Errors, posture and overview -/

/-- Apply the error of a call. It says whether the session has expired. -/
def noteCallError (e : ApiError) : Handler Bool := do
  let u ← look
  change (applyError · e)
  let v ← look
  if v.shell.sessionExpired then
    alter fun w => { w.clearReveal with
      unlockFailure := if u.shell.session.present then some "Your session expired — unlock again." else none
      route := .overview }
    pure true
  else
    if v.shell.conn = .offline ∨ v.shell.fatal.isSome then alter Ui.clearReveal else pure ()
    pure false

def callError (u : Ui) : MappedError := u.shell.error.getD ⟨"E_UNKNOWN", "Request failed."⟩

/-- Note an error, and show it on a screen unless the session has expired. -/
def noteOn (screen : Screen) (text : MappedError → MappedError) (e : ApiError) : Handler Unit := do
  let expired ← noteCallError e
  if expired then pure () else alter fun u => u.setError screen (some (text (callError u)))

/-- What is dropped when the vault is not open any more. -/
def dropStale (s : ShellState) : ShellState :=
  { s with
    session := .absent, unlockedAtMs := 0, health := none, sessionExpired := false, overview := none, projects := none,
    selectedProject := none, projectTab := .overview, activeProject := none, secrets := none, agents := none,
    selectedAgent := none, grants := none, approvals := none, leases := none, runs := none, forms := initialForms }

/-- A new posture. -/
def Ui.refreshed (u : Ui) (status : BrokerStatus) (pin : PinStatus) : Ui :=
  let s := applyBoot u.shell status pin
  if s.conn ≠ .trusted ∨ status.locked then
    { u.set fun _ => { dropStale s with error := none } with
      chosen := none, oneTimeTokenNode := none, live := none, decidedApprovals := [], errors := fun _ => none }
  else { u.set fun _ => { s with error := none } with errors := fun _ => none }

def refreshPosture : Handler (Except ApiError Unit) := do
  match ← api .posture with
  | .error e => pure (.error e)
  | .ok (status, pin) => do
    alter (·.refreshed status pin)
    pure (.ok ())

/-- Store the overview in the object that was held. -/
def storeOverview (held : Obj) (data : OverviewData) : Handler Unit :=
  alter (·.assign { held with shell := applyOverview held.shell data })

def refreshOverviewData : Handler Unit := do
  let u ← look
  if u.shell.conn ≠ .trusted then pure ()
  else match ← apiHeld .overviewRefresh with
    | (.ok data, held) => storeOverview held data
    | (.error e, _) => do
      let _ ← noteCallError e

/-- Whether a list may be read. -/
def loadable (s : ShellState) : Bool := s.conn = .trusted && s.status.any (!·.locked) && !s.sessionExpired

/-- Read the health into the object that `s` names before the wait. -/
def refreshHealth : Handler Unit := do
  let u ← look
  match ← api .health with
  | .ok h => alter (·.writeHealth u.cur h)
  | .error e => do
    let _ ← noteCallError e

def refreshAll : Handler (Except ApiError Unit) := do
  match ← refreshPosture with
  | .error e => pure (.error e)
  | .ok () => do
    let u ← look
    if loadable u.shell then refreshHealth else pure ()
    refreshOverviewData
    pure (.ok ())

/-! ## Lists -/

def loadFailed (screen : Screen) (e : ApiError) : Handler Unit := do
  change applyMutationDone
  noteOn screen id e

def markBusy (action : String) : Handler Unit :=
  change fun s => { s with forms := { s.forms with busyAction := some action } }

/-- Store an answer, or fail as the call would. -/
def store {α : Type} (f : Ui → α → Except ApiError Ui) (a : α) : Handler (Except ApiError Unit) := do
  let u ← look
  match f u a with
  | .error e => pure (.error e)
  | .ok v => do
    alter fun _ => v
    pure (.ok ())

/-- Read one list. -/
def load (screen : Screen) (busyAction : Option String) (c : ApiCall) (f : Ui → c.Payload → Except ApiError Ui) :
    Handler Unit := do
  let u ← look
  if loadable u.shell then
    busyAction.forM markBusy
    match ← api c with
    | .error e => loadFailed screen e
    | .ok r =>
      match ← store f r with
      | .error e => loadFailed screen e
      | .ok () => change applyMutationDone
  else pure ()

def storing {α : Type} (f : ShellState → α → ShellState) (u : Ui) (a : α) : Except ApiError Ui := .ok (u.set (f · a))

def loadProjectsList : Handler Unit :=
  load .projects (some "projects_list") .projectsList fun u r => .ok (u.storeProjects r)

def loadSecretsList : Handler Unit := do
  let u ← look
  match u.shell.activeProject with
  | none => pure ()
  | some active => load .secrets (some "secrets_list") (.secretsList active) (·.storeSecrets active ·)

def loadAgentsList : Handler Unit := load .agents (some "agents_list") .agentsList (storing applyAgents)
def loadGrantsList : Handler Unit := load .grants (some "grants_list") .grantsList (storing applyGrants)
def loadLeasesList : Handler Unit := load .leases none .leasesList (storing applyLeases)
def loadRunsList : Handler Unit := load .runs (some "runs_list") .runsList (storing applyRuns)
def loadApprovalsList : Handler Unit := load .approvals (some "approvals_pending") .approvalsPending
    (storing applyApprovals)

def loadAuditPage (beforeSeq : Option Nat) : Handler Unit :=
  load .audit (some "audit_show") (.auditShow AUDIT_PAGE_SIZE beforeSeq)
    (storing (if beforeSeq.isNone then applyAuditFirstPage else applyAuditOlderPage))

def loadAuditVerify : Handler Unit := do
  let u ← look
  if loadable u.shell then
    markBusy "audit_verify"
    match ← apiHeld .auditVerify with
    | (.error e, _) => loadFailed .audit e
    | (.ok r, held) => do
      alter (·.assign { held with shell := applyAuditVerify held.shell r })
      change applyMutationDone
  else pure ()

def loadSettingsData : Handler Unit := do
  markBusy "settings_refresh"
  match ← api .posture with
  | .error e => loadFailed .settings e
  | .ok (status, pin) => do
    change (applyBoot · status pin)
    let u ← look
    if loadable u.shell then
      match ← apiHeld .settingsHealth with
      | (.ok h, held) => do
        alter (·.assign { held with shell := { held.shell with health := some h } })
        change applyMutationDone
      | (.error e, _) => do
        let expired ← noteCallError e
        if expired then pure () else change applyMutationDone
    else change applyMutationDone

def loadSettingsProbe : Handler Unit := do
  markBusy "probe_fingerprint"
  match ← api .probeFingerprint with
  | .error e => loadFailed .settings e
  | .ok fingerprint => do
    alter fun u => u.set (applySettingsProbe · fingerprint u.nowMs)
    change applyMutationDone

/-- Read a list that has not been read. -/
def unlessLoaded {α : Type} (slice : ShellState → Option α) (m : Handler Unit) : Handler Unit := do
  let u ← look
  if (slice u.shell).isNone then m else pure ()

def loadRouteData : RouteId → Handler Unit
  | .overview => do
    refreshOverviewData
    unlessLoaded ShellState.projects loadProjectsList
    unlessLoaded ShellState.agents loadAgentsList
    unlessLoaded ShellState.leases loadLeasesList
  | .projects => unlessLoaded ShellState.projects loadProjectsList
  | .secrets => do
    unlessLoaded ShellState.projects loadProjectsList
    unlessLoaded ShellState.secrets loadSecretsList
  | .agents => unlessLoaded ShellState.agents loadAgentsList
  | .grants => do
    unlessLoaded ShellState.projects loadProjectsList
    unlessLoaded ShellState.agents loadAgentsList
    unlessLoaded ShellState.grants loadGrantsList
  | .leases => unlessLoaded ShellState.leases loadLeasesList
  | .approvals => unlessLoaded ShellState.approvals loadApprovalsList
  | .runs => unlessLoaded ShellState.runs loadRunsList
  | .audit => loadAuditPage none
  | .settings => loadSettingsData

/-! ## Mutations -/

/-- A mutation: its call and what is done with the answer, the list that is read again, and what is said when that or
the counts cannot be read. Some do not read the counts. -/
structure Mutation where
  screen : Screen
  action : String
  call : ApiCall
  acknowledge : Ui → call.Payload → Except ApiError Ui
  reread : ApiCall
  fill : Ui → reread.Payload → Except ApiError Ui
  stale : String
  counts : Option String

/-- An error of the list that is read again. -/
def staleText (text : String) (cause : MappedError) : MappedError :=
  ⟨cause.code, text ++ " (" ++ cause.code ++ ": " ++ cause.message ++ ") — shown data may be stale."⟩

/-- An error of the counts. -/
def countsText (text : String) (cause : MappedError) : MappedError :=
  ⟨cause.code, text ++ " (" ++ cause.code ++ ": " ++ cause.message ++ ")."⟩

def mutateFailed (screen : Screen) (text : MappedError → MappedError) (e : ApiError) : Handler Unit := do
  change applyMutationDone
  noteOn screen text e
  render

/-- The counts are read again. -/
def rereadCounts (screen : Screen) (text : String) : Handler Unit := do
  match ← apiHeld .overviewRefresh with
  | (.ok data, held) => storeOverview held data
  | (.error e, _) => noteOn screen (countsText text) e
  change applyMutationDone
  render

/-- The list is read again, and the counts. -/
def reread (m : Mutation) : Handler Unit := do
  match ← api m.reread with
  | .error e => mutateFailed m.screen (staleText m.stale) e
  | .ok r =>
    match ← store m.fill r with
    | .error e => mutateFailed m.screen (staleText m.stale) e
    | .ok () =>
      match m.counts with
      | some text => rereadCounts m.screen text
      | none => do
        change applyMutationDone
        render

def mutate (m : Mutation) : Handler Unit := do
  change (applyMutationStart · m.action)
  alter (·.setError m.screen none)
  render
  match ← api m.call with
  | .error e => mutateFailed m.screen id e
  | .ok r =>
    match ← store m.acknowledge r with
    | .error e => mutateFailed m.screen id e
    | .ok () => reread m

def mutateProjects (action : String) (call : ApiCall) : Handler Unit :=
  mutate ⟨.projects, action, call, fun u _ => .ok u, .projectsList, fun u r => .ok (u.storeProjects r),
    "Saved, but the fresh list could not be read",
    some "Saved and the list is fresh, but counts could not be refreshed"⟩

def mutateSecrets (action project : String) (call : ApiCall) : Handler Unit :=
  mutate ⟨.secrets, action, call, fun u _ => .ok u, .secretsList project, (·.storeSecrets project ·),
    "Saved, but the fresh keys could not be read",
    some "Saved and the keys are fresh, but counts could not be refreshed"⟩

def mutateAgents (action : String) (call : ApiCall) : Handler Unit :=
  mutate ⟨.agents, action, call, fun u _ => .ok u, .agentsList, storing applyAgents,
    "Saved, but the fresh agents could not be read",
    some "Saved and the agents are fresh, but counts could not be refreshed"⟩

def mutateGrants (action : String) (call : ApiCall) : Handler Unit :=
  mutate ⟨.grants, action, call, fun u _ => .ok u, .grantsList, storing applyGrants,
    "Saved, but the fresh grants could not be read", none⟩

def mutateLeases (action : String) (call : ApiCall) : Handler Unit :=
  mutate ⟨.leases, action, call, fun u _ => .ok u, .leasesList, storing applyLeases,
    "Revoked, but the fresh leases could not be read",
    some "Revoked and the leases are fresh, but counts could not be refreshed"⟩

def DECIDED_APPROVALS_CAP : Nat := 100

/-- Remember the outcome of an approval, and no more than the newest outcomes. -/
def Ui.rememberDecidedApproval (u : Ui) (outcome : String × String) : Ui :=
  let decided := u.decidedApprovals.filter (·.1 ≠ outcome.1) ++ [outcome]
  { u with decidedApprovals := decided.drop (decided.length - DECIDED_APPROVALS_CAP) }

/-- The answer of a decision names the approval and its outcome. -/
def mutateApprovals (action : String) (call : ApiCall) (outcome : call.Payload → String × String) : Handler Unit :=
  mutate ⟨.approvals, action, call, fun u r => .ok (u.rememberDecidedApproval (outcome r)), .approvalsPending,
    storing applyApprovals, "Decided, but the fresh inbox could not be read", none⟩

/-! ## The handlers -/

/-- Everything is cleared. -/
def Ui.locked (u : Ui) : Ui :=
  { u.assign ⟨applyLock, none, none, none⟩ with
    chosen := none, unlockFailure := none, probed := none, probeError := none, errors := fun _ => none,
    oneTimeTokenNode := none, live := none, decidedApprovals := [], route := .overview, busy := false }

def doLock : Handler Unit := do
  alter fun u => { u with busy := true }
  render
  let _ ← api .lock
  alter Ui.locked
  render

def unlockFailed (e : ApiError) : Handler Unit := do
  change (applyError · e)
  alter fun u => { u with unlockFailure := some ((callError u).code ++ ": " ++ (callError u).message) }

def onUnlock (passphrase : String) : Handler Unit := do
  if passphrase = "" then
    alter fun u => { u with unlockFailure := some "Enter the passphrase." }
    render
  else
    alter fun u => { u with busy := true }
    render
    match ← apiHeld (.unlock passphrase) with
    | (.error e, _) => unlockFailed e
    | (.ok resp, held) => do
      alter fun u => { u.assign { held with shell := applyUnlockSuccess held.shell resp u.nowMs } with
        oneTimeTokenNode := none, decidedApprovals := [] }
      match ← refreshAll with
      | .error e => unlockFailed e
      | .ok () => do
        let u ← look
        loadRouteData u.route
        alter fun u => { u with route := .overview }
    alter fun u => { u with busy := false }
    render

def onProbe : Handler Unit := do
  alter fun u => { u with busy := true }
  render
  alter fun u => { u with probeError := none }
  match ← api .probeFingerprint with
  | .ok fingerprint => alter fun u => { u with probed := some fingerprint }
  | .error e => do
    change (applyError · e)
    alter fun u => { u with probeError := some ((callError u).code ++ ": " ++ (callError u).message) }
  alter fun u => { u with busy := false }
  render

/-- Read the posture and the counts; an error is applied. -/
def refreshOrNote : Handler Unit := do
  match ← refreshAll with
  | .error e => change (applyError · e)
  | .ok () => pure ()

def onUntrustedRefresh : Handler Unit := do
  alter fun u => { u with busy := true }
  render
  refreshOrNote
  alter fun u => { u with busy := false }
  render

def onManualRefresh : Handler Unit := do
  alter fun u => { u with overviewBusy := true }
  render
  refreshOrNote
  alter fun u => { u with overviewBusy := false }
  render

def boot : Handler Unit := do
  alter fun u => { u with busy := true }
  render
  refreshOrNote
  let u ← look
  loadRouteData u.route
  alter fun u => { u with busy := false }
  render

def onHashChange : Handler Unit := do
  alter Ui.clearReveal
  let u ← look
  if u.route ≠ .audit ∧ u.shell.audit.isSome then change clearAudit else pure ()
  render
  match ← refreshPosture with
  | .error e => change (applyError · e)
  | .ok () => loadRouteData u.route
  render

/-- The timer of the posture and the counts. -/
def slowTick (visible : Bool) : Handler Unit := do
  let u ← look
  if visible && u.shell.conn = .trusted && u.shell.status.any (!·.locked) then
    let _ ← refreshAll
  else pure ()

def approvalsPollEligible (s : ShellState) (visible : Bool) : Bool :=
  s.conn = .trusted && s.status.any (!·.locked) && sessionHeld s && visible

/-- The timer of the approvals, and what happens when the page becomes visible. -/
def approvalsTick (visible : Bool) : Handler Unit := do
  let u ← look
  if approvalsPollEligible u.shell visible then loadApprovalsList else pure ()

/-- Read again: the error of a screen is dropped first. -/
def reload (screen : Screen) (m : Handler Unit) : Handler Unit := do
  alter (·.setError screen none)
  render
  m
  render

def onProjectsReload : Handler Unit := reload .projects loadProjectsList
def onSecretsReload : Handler Unit := reload .secrets loadSecretsList
def onAgentsReload : Handler Unit := reload .agents loadAgentsList
def onApprovalsReload : Handler Unit := reload .approvals loadApprovalsList
def onLeasesReload : Handler Unit := reload .leases loadLeasesList
def onRunsReload : Handler Unit := reload .runs loadRunsList
def onAuditReload : Handler Unit := reload .audit (loadAuditPage none)
def onAuditVerify : Handler Unit := reload .audit loadAuditVerify
def onSettingsReload : Handler Unit := reload .settings loadSettingsData
def onSettingsProbe : Handler Unit := reload .settings loadSettingsProbe

def onGrantsReload : Handler Unit := reload .grants do
  unlessLoaded ShellState.projects loadProjectsList
  unlessLoaded ShellState.agents loadAgentsList
  loadGrantsList

def onAuditLoadOlder : Handler Unit := do
  let u ← look
  match u.shell.audit.bind (·.nextBeforeSeq) with
  | none => pure ()
  | some next => reload .audit (loadAuditPage (some next))

/-- An input that is refused on the page. -/
def refuse (screen : Screen) (message : String) : Handler Unit := do
  alter (·.setError screen (some ⟨"E_INVALID_INPUT", message⟩))
  render

/-- An action that is confirmed by a second click: the first one asks. -/
def confirmed (confirm : PendingConfirm) (m : Handler Unit) : Handler Unit := do
  let u ← look
  if u.shell.forms.pendingConfirm = some confirm then m
  else do
    change fun s => { s with forms := { s.forms with pendingConfirm := some confirm } }
    render

def onProjectCreate (name : String) (paths : List String) : Handler Unit :=
  if name = "" then refuse .projects "Enter a project name." else mutateProjects "project_add" (.projectAdd name paths)

def onProjectRemove (name : String) : Handler Unit :=
  confirmed ⟨.project, name, none⟩ (mutateProjects "project_remove" (.projectRemove name))

def onPathAdd (name path : String) : Handler Unit :=
  if path = "" then refuse .projects "Enter a path to authorize."
  else mutateProjects "project_path_add" (.projectPathAdd name path)

def onPathRemove (name path : String) : Handler Unit :=
  confirmed ⟨.path, name, some path⟩ (mutateProjects "project_path_remove" (.projectPathRemove name path))

def onProjectSelect (name : Option String) : Handler Unit := do
  change (applySelectedProject · name)
  render

def onProjectTab (tab : ProjectTab) : Handler Unit := do
  change (applyProjectTab · tab)
  render

def onAgentSelect (name : Option String) : Handler Unit := do
  change (applySelectedAgent · name)
  render

def onOpenProject (name : String) : Handler Unit := do
  change (applySelectedProject · (some name))
  alter (·.choose name)
  let u ← look
  if u.route ≠ .secrets then
    alter fun u => { u with route := .secrets }
    render
  else
    render
    loadSecretsList
    render

def onCancelConfirm : Handler Unit := do
  change fun s => { s with forms := { s.forms with pendingConfirm := none } }
  render

def onGrantCancelConfirm : Handler Unit := do
  change fun s => { s with forms := { s.forms with pendingConfirm := none, grantDraft := none } }
  render

/-- The token of a new agent is shown once. -/
def onAgentEnroll (name : String) (tokenPath : Option String) : Handler Unit :=
  if name = "" then refuse .agents "Enter an agent name."
  else mutate ⟨.agents, "agent_add", .agentAdd name tokenPath, fun u res =>
      if res.token = "" then .error (.object none (some "agent_add result carries no token"))
      else .ok { u with oneTimeTokenNode := some (res.token, res.tokenSavedPath) },
    .agentsList, storing applyAgents, "Enrolled, but the fresh agents could not be read",
    some "Enrolled and the agents are fresh, but counts could not be refreshed"⟩

def onTokenDismiss : Handler Unit := do
  alter fun u => { u with oneTimeTokenNode := none }
  render

def onAgentRevoke (name : String) : Handler Unit :=
  confirmed ⟨.agent, name, none⟩ (mutateAgents "agent_revoke" (.agentRevoke name))

def onGrantPairChange (agent project : String) : Handler Unit := do
  change fun s => { s with forms := { s.forms with grantPair := some ⟨agent, project⟩, grantDraft := none } }
  render

/-- A grant that widens is parked until it is confirmed. -/
def onGrantSave (agent project : String) (ops : List String) : Handler Unit := do
  if agent = "" ∨ project = "" then refuse .grants "Pick an agent and a project first."
  else
    let u ← look
    if grantWidens ((activeGrantOps u.shell agent project).getD []) ops then
      change fun s =>
        { s with forms := { s.forms with grantDraft := some ⟨agent, project, ops⟩, pendingConfirm := none } }
      render
    else mutateGrants "grant_set" (.grantSet agent project ops)

def onGrantConfirmSave : Handler Unit := do
  let u ← look
  match u.shell.forms.grantDraft with
  | none => pure ()
  | some draft => do
    change fun s => { s with forms := { s.forms with grantDraft := none } }
    mutateGrants "grant_set" (.grantSet draft.agent draft.project draft.ops)

def onGrantRevoke (agent project : String) : Handler Unit :=
  confirmed ⟨.grant, agent, some project⟩ (mutateGrants "grant_revoke" (.grantRevoke agent project))

def onApprovalDecide (id : String) (approve : Bool) : Handler Unit :=
  if id = "" then pure ()
  else if approve then mutateApprovals "approval_approve" (.approvalApprove id) fun r => r
  else mutateApprovals "approval_deny" (.approvalDeny id) fun r => r

def onReturnToReveal (project key : String) : Handler Unit := do
  if project = "" ∨ key = "" then pure ()
  else
    alter (·.choose project)
    alter fun u => { u with pendingRevealOpen := some (project, key), route := .secrets }
    render

def onPickProject (name : String) : Handler Unit := do
  let u ← look
  alter (·.choose name)
  if some name = u.shell.activeProject ∧ u.shell.secrets.isSome then pure () else reload .secrets loadSecretsList

def onSecretFormOpen (form : SecretForm) : Handler Unit := do
  alter fun u => u.assign { u.obj with
    shell := { u.shell with forms := { u.shell.forms with secretForm := some form, pendingConfirm := none } }
    formIn := u.shell.activeProject }
  alter (·.setError .secrets none)
  render

def onSecretFormClose : Handler Unit := do
  change fun s => { s with forms := { s.forms with secretForm := none } }
  render

def onSecretSubmit (key value : String) : Handler Unit := do
  let u ← look
  match u.shell.activeProject with
  | none => pure ()
  | some project =>
    if key = "" ∨ value = "" then pure () else mutateSecrets "secret_set" project (.secretSet project key value)

def onSecretDelete (key : String) : Handler Unit := do
  let u ← look
  match u.shell.activeProject with
  | none => pure ()
  | some project =>
    if u.shell.forms.pendingConfirm = some ⟨.secret, project, some key⟩ then
      mutateSecrets "secret_delete" project (.secretDelete project key)
    else do
      alter fun u => u.assign { u.obj with
        shell := { u.shell with forms := { u.shell.forms with pendingConfirm := some ⟨.secret, project, some key⟩ } }
        confirmIn := some project }
      render

def onRevealOpen (key : String) : Handler Unit := do
  let u ← look
  match u.shell.activeProject with
  | none => pure ()
  | some project =>
    if key = "" then pure () else alter fun u => { u with live := some ⟨project, key, none, none, false, none⟩ }

def revealNotShown (project key : String) (e : ApiError) : Handler Unit := do
  change applyMutationDone
  let expired ← noteCallError e
  if expired then pure () else alter fun u => u.revealFailed project key (callError u).message
  render

/-- Read a value, and hand it to the modal. -/
def onRevealShow (project key : String) : Handler Unit := do
  change (applyMutationStart · "reveal")
  alter (·.setError .secrets none)
  render
  match ← api (.reveal project key) with
  | .error e => revealNotShown project key e
  | .ok (value : String) =>
    if value = "" then revealNotShown project key (.object none (some "reveal result carries no value"))
    else do
      alter (·.deliverRevealedValue project key value)
      change applyMutationDone
      render

/-- The button of the modal. -/
def pressReveal : Handler Unit := do
  let u ← look
  match u.live with
  | none => pure ()
  | some live =>
    if live.busy then pure ()
    else
      alter fun u => { u with live := u.live.map ({ · with busy := true, error := none }) }
      onRevealShow live.project live.key

def hideRevealValue : Handler Unit :=
  alter fun u => { u with live := u.live.map ({ · with value := none, shownAtMs := none, busy := false }) }

def onLeaseRevoke (leaseId : String) : Handler Unit :=
  confirmed ⟨.lease, leaseId, none⟩ (mutateLeases "lease_revoke" (.leaseRevoke leaseId))

def onAuditFilter (f : AuditFilterChange) : Handler Unit := do
  change (applyAuditFilters · f)
  render

/-! ## What the user and the page do -/

inductive Act where
  | boot
  | lock
  | unlock (passphrase : String)
  | probe
  | untrustedRefresh
  | manualRefresh
  /-- Another route is chosen; the page learns of it by `hashChange`. -/
  | navigate (route : RouteId)
  | hashChange
  | slowTick (visible : Bool)
  | approvalsTick (visible : Bool)
  | repaint
  | clock (nowMs : Nat)
  | reloadProjects
  | reloadSecrets
  | reloadAgents
  | reloadGrants
  | reloadApprovals
  | reloadLeases
  | reloadRuns
  | reloadAudit
  | loadOlder
  | verifyAudit
  | reloadSettings
  | probeSettings
  | projectCreate (name : String) (paths : List String)
  | projectRemove (name : String)
  | pathAdd (name path : String)
  | pathRemove (name path : String)
  | projectSelect (name : Option String)
  | tab (t : ProjectTab)
  | agentSelect (name : Option String)
  | openProject (name : String)
  | cancelConfirm
  | grantCancelConfirm
  | agentEnroll (name : String) (tokenPath : Option String)
  | tokenDismiss
  | agentRevoke (name : String)
  | grantPairChange (agent project : String)
  | grantSave (agent project : String) (ops : List String)
  | grantConfirmSave
  | grantRevoke (agent project : String)
  | approvalDecide (id : String) (approve : Bool)
  | returnToReveal (project key : String)
  | pickProject (name : String)
  | formOpen (form : SecretForm)
  | formClose
  | submit (key value : String)
  | deleteSecret (key : String)
  | revealOpen (key : String)
  | revealShow
  | revealHide
  | revealClose
  | leaseRevoke (id : String)
  | filterAudit (f : AuditFilterChange)

def handle : Act → Handler Unit
  | .boot => boot
  | .lock => doLock
  | .unlock passphrase => onUnlock passphrase
  | .probe => onProbe
  | .untrustedRefresh => onUntrustedRefresh
  | .manualRefresh => onManualRefresh
  | .navigate route => alter fun u => { u with route }
  | .hashChange => onHashChange
  | .slowTick visible => slowTick visible
  | .approvalsTick visible => approvalsTick visible
  | .repaint => render
  | .clock nowMs => alter fun u => { u with nowMs }
  | .reloadProjects => onProjectsReload
  | .reloadSecrets => onSecretsReload
  | .reloadAgents => onAgentsReload
  | .reloadGrants => onGrantsReload
  | .reloadApprovals => onApprovalsReload
  | .reloadLeases => onLeasesReload
  | .reloadRuns => onRunsReload
  | .reloadAudit => onAuditReload
  | .loadOlder => onAuditLoadOlder
  | .verifyAudit => onAuditVerify
  | .reloadSettings => onSettingsReload
  | .probeSettings => onSettingsProbe
  | .projectCreate name paths => onProjectCreate name paths
  | .projectRemove name => onProjectRemove name
  | .pathAdd name path => onPathAdd name path
  | .pathRemove name path => onPathRemove name path
  | .projectSelect name => onProjectSelect name
  | .tab t => onProjectTab t
  | .agentSelect name => onAgentSelect name
  | .openProject name => onOpenProject name
  | .cancelConfirm => onCancelConfirm
  | .grantCancelConfirm => onGrantCancelConfirm
  | .agentEnroll name tokenPath => onAgentEnroll name tokenPath
  | .tokenDismiss => onTokenDismiss
  | .agentRevoke name => onAgentRevoke name
  | .grantPairChange agent project => onGrantPairChange agent project
  | .grantSave agent project ops => onGrantSave agent project ops
  | .grantConfirmSave => onGrantConfirmSave
  | .grantRevoke agent project => onGrantRevoke agent project
  | .approvalDecide id approve => onApprovalDecide id approve
  | .returnToReveal project key => onReturnToReveal project key
  | .pickProject name => onPickProject name
  | .formOpen form => onSecretFormOpen form
  | .formClose => onSecretFormClose
  | .submit key value => onSecretSubmit key value
  | .deleteSecret key => onSecretDelete key
  | .revealOpen key => onRevealOpen key
  | .revealShow => pressReveal
  | .revealHide => hideRevealValue
  | .revealClose => alter Ui.clearReveal
  | .leaseRevoke id => onLeaseRevoke id
  | .filterAudit f => onAuditFilter f

abbrev Event : Type := Loop.Event Act ApiCall Reply

/-- The page, with its calls in flight. -/
abbrev Page : Type := Loop Ui ApiCall Reply

def step (p : Page) (e : Event) : Option Page := p.step handle e

/-- The page when it is opened. -/
def Ui.initial : Ui :=
  { objects := fun _ => ⟨initialState, none, none, none⟩, cur := 0, fresh := 1, chosen := none, route := .overview,
    nowMs := 0, busy := false, overviewBusy := false, unlockFailure := none, probed := none, probeError := none,
    errors := fun _ => none, oneTimeTokenNode := none, decidedApprovals := [], pendingRevealOpen := none, live := none }

def initial : Page := ⟨.initial, fun _ => none, 0⟩

namespace Example

/-- A vault that is unlocked, and a pin that agrees. -/
def unlocked : BrokerStatus × PinStatus := (⟨1, "2026-01-01T00:00:00Z", false, true, true, true, none⟩, ⟨true, none⟩)

/-- The page is opened and the vault is found unlocked; the health and the counts cannot be read, and the projects are
asked for. -/
def booted : List Event :=
  [.start .boot, .answer 0 .posture (.ok unlocked), .answer 1 .health (.error .other),
    .answer 2 .overviewRefresh (.error .other), .answer 3 .overviewRefresh (.error .other)]

end Example

end SecretsVault.Dashboard
