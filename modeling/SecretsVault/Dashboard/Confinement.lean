import SecretsVault.Dashboard.Backend
import SecretsVault.Lib.Chronicle

/-!
# The credential stays in the backend

- `page_cannot_tell`: a page sees the same whichever credential the backend holds, as long as the broker does the same
  to it.
- `calls_are_authorized`: with what each call of the backend is authenticated, in every run.
-/

namespace SecretsVault.Backend

open Lib Lib.Prog Mcp
open Value (json)

/-! ## A page -/

/-- What the page was told. -/
abbrev Shown : Type 1 := Σ α : Type, Outcome CmdError α

/-- What the page asks for next may depend on all it was told, the last answer first. -/
abbrev Page : Type 1 := List Shown → Option (Σ α : Type, Command α)

/-- The page asks, and is told, at most `n` times. -/
def converse (page : Page) : Nat → List Shown → AppState → List Shown × AppState
  | 0, shown, s => (shown, s)
  | n + 1, shown, s =>
    match page shown with
    | some ⟨α, c⟩ => converse page n (⟨α, ((perform c).run s).1⟩ :: shown) ((perform c).run s).2
    | none => (shown, s)

theorem call_run_ok {op : String} {auth : Auth} {params v : Value} {s : AppState}
    (h : s.broker (⟨op, auth, params⟩ :: s.calls) = .ok v) :
    (call op auth params).run s = (.ok v, { s with calls := ⟨op, auth, params⟩ :: s.calls }) := by
  rw [call, run_step]
  dsimp only
  rw [h]
  rfl

theorem call_run_error {op : String} {auth : Auth} {params : Value} {s : AppState} {e : BrokerError}
    (h : s.broker (⟨op, auth, params⟩ :: s.calls) = .error e) :
    (call op auth params).run s = (.error (CmdError.ofBroker e),
      { s with calls := ⟨op, auth, params⟩ :: s.calls }) := by
  rw [call, run_step]
  dsimp only
  rw [h]
  rfl

/-! ## Another credential in its place -/

section Alike
variable {ρ : String → String → Prop}

/-- One credential in the place of another, and the rest the same. -/
inductive AuthAlike (ρ : String → String → Prop) : Auth → Auth → Prop
  | none : AuthAlike ρ .none .none
  | agentToken (t : String) : AuthAlike ρ (.agentToken t) (.agentToken t)
  | passphrase (p : String) : AuthAlike ρ (.passphrase p) (.passphrase p)
  | session {c c' : String} (h : ρ c c') : AuthAlike ρ (.session c) (.session c')

structure Ask.Alike (ρ : String → String → Prop) (a a' : Ask) : Prop where
  op : a.op = a'.op
  auth : AuthAlike ρ a.auth a'.auth
  params : a.params = a'.params

/-- The answers to an unlock differ in the credential alone. -/
structure SeedAlike (ρ : String → String → Prop) (v v' : Value) : Prop where
  rest : ∀ key, key ≠ "session_credential" → v.get? key = v'.get? key
  credential : Option.Rel ρ (strField v "session_credential") (strField v' "session_credential")

inductive UnlockAlike (ρ : String → String → Prop) : Answer → Answer → Prop
  | ok {v v' : Value} (h : SeedAlike ρ v v') : UnlockAlike ρ (.ok v) (.ok v')
  | error (e : BrokerError) : UnlockAlike ρ (.error e) (.error e)

/-- To the broker a credential is one of those it has issued, and it answers an unlock with another one. -/
structure BrokerAlike (ρ : String → String → Prop) (broker broker' : List Ask → Answer) : Prop where
  unlock : ∀ a a' earlier earlier', a.op = "vault.unlock" → a.Alike ρ a' → earlier.Forall₂ (Ask.Alike ρ) earlier' →
    UnlockAlike ρ (broker (a :: earlier)) (broker' (a' :: earlier'))
  others : ∀ a a' earlier earlier', a.op ≠ "vault.unlock" → a.Alike ρ a' → earlier.Forall₂ (Ask.Alike ρ) earlier' →
    broker (a :: earlier) = broker' (a' :: earlier')

structure AppState.Alike (ρ : String → String → Prop) (s s' : AppState) : Prop where
  session : Option.Rel ρ s.session s'.session
  calls : s.calls.Forall₂ (Ask.Alike ρ) s'.calls
  broker : BrokerAlike ρ s.broker s'.broker
  pins : s.pins = s'.pins
  probes : s.probes = s'.probes
  tokenFiles : s.tokenFiles = s'.tokenFiles
  written : s.written = s'.written

/-- Two commands that a page cannot tell. -/
abbrev Same (ρ : String → String → Prop) {α : Type} (m m' : Cmd α) : Prop := Twins (AppState.Alike ρ) m m' Eq

/-! ### What a command is made of -/

/-- A credential or none, on both sides. -/
theorem session_alike {s s' : AppState} (h : s.Alike ρ s') :
    (s.session = none ∧ s'.session = none) ∨ ∃ c c', s.session = some c ∧ s'.session = some c' ∧ ρ c c' := by
  have hsession := h.session
  generalize s.session = o at hsession ⊢
  generalize s'.session = o' at hsession ⊢
  cases hsession with
  | none => exact Or.inl ⟨rfl, rfl⟩
  | some h => exact Or.inr ⟨_, _, rfl, rfl, h⟩

theorem sessionAuth_alike {s s' : AppState} (h : s.Alike ρ s') : Option.Rel (AuthAlike ρ) (sessionAuth s)
    (sessionAuth s') := by
  unfold sessionAuth
  rcases session_alike h with ⟨hs, hs'⟩ | ⟨c, c', hs, hs', hcc⟩
  · rw [hs, hs']
    exact .none
  · rw [hs, hs']
    exact .some (.session hcc)

theorem getD_alike {o o' : Option Auth} (h : Option.Rel (AuthAlike ρ) o o') :
    AuthAlike ρ (o.getD .none) (o'.getD .none) := by
  cases h with
  | none => exact .none
  | some h => exact h

theorem call_same {op : String} {auth auth' : Auth} (hop : op ≠ "vault.unlock") (h : AuthAlike ρ auth auth')
    (params : Value) : Same ρ (call op auth params) (call op auth' params) := by
  refine twins_step fun s s' hs => ?_
  have hask : Ask.Alike ρ ⟨op, auth, params⟩ ⟨op, auth', params⟩ := ⟨rfl, h, rfl⟩
  refine ⟨?_, { hs with calls := .cons hask hs.calls }⟩
  dsimp only
  rw [hs.broker.others _ _ _ _ hop hask hs.calls]
  exact Outcome.alike_refl _

theorem unlock_twins (passphrase : String) :
    Twins (AppState.Alike ρ) (call "vault.unlock" (.passphrase passphrase) (json []))
      (call "vault.unlock" (.passphrase passphrase) (json [])) (SeedAlike ρ) := by
  refine twins_step fun s s' hs => ?_
  have hask : Ask.Alike ρ ⟨"vault.unlock", .passphrase passphrase, json []⟩ ⟨"vault.unlock", .passphrase passphrase,
    json []⟩ :=
    ⟨rfl, .passphrase _, rfl⟩
  refine ⟨?_, { hs with calls := .cons hask hs.calls }⟩
  have hanswer := hs.broker.unlock _ _ _ _ rfl hask hs.calls
  dsimp only
  generalize s.broker (⟨"vault.unlock", .passphrase passphrase, json []⟩ :: s.calls) = answer at hanswer ⊢
  generalize s'.broker (⟨"vault.unlock", .passphrase passphrase, json []⟩ :: s'.calls) = answer' at hanswer ⊢
  cases hanswer with
  | ok h => exact .ok h
  | error e => exact .error _

theorem loadPin_same : Same ρ loadPin loadPin := twins_step fun s s' hs => by
  rw [hs.pins]
  exact ⟨Outcome.alike_refl _, { hs with pins := rfl }⟩

theorem brokerFingerprintLive_same : Same ρ brokerFingerprintLive brokerFingerprintLive := twins_step fun s s' hs => by
  rw [hs.probes]
  exact ⟨Outcome.alike_refl _, { hs with probes := rfl }⟩

theorem writeTokenFile_same (path token : String) : Same ρ (writeTokenFile path token) (writeTokenFile path token) :=
  twins_step fun s s' hs => by
    rw [hs.tokenFiles, hs.written]
    exact ⟨.ok rfl, { hs with tokenFiles := rfl, written := rfl }⟩

theorem holdSession_same {o o' : Option String} (h : Option.Rel ρ o o') : Same ρ (holdSession o) (holdSession o') :=
  twins_modify fun _ _ hs => { hs with session := h }

theorem dropSession_same : Same ρ dropSession dropSession := holdSession_same .none

theorem lift_same {α : Type} (o : Outcome CmdError α) : Same ρ (lift o) (lift o) := twins_lift (Outcome.alike_refl o)

/-- After the state was read, its credential may be used. -/
theorem get_same {α : Type} {f f' : AppState → Cmd α} (h : ∀ s s', s.Alike ρ s' → Same ρ (f s) (f' s')) :
    Same ρ (Prog.get >>= f) (Prog.get >>= f') := twins_get.bind h

theorem requireSessionAuth_twins : Twins (AppState.Alike ρ) requireSessionAuth requireSessionAuth (AuthAlike ρ) := by
  refine twins_get.bind fun s s' hs => ?_
  have hauth := sessionAuth_alike hs
  generalize sessionAuth s = auth at hauth ⊢
  generalize sessionAuth s' = auth' at hauth ⊢
  cases hauth with
  | none => exact (call_same (by decide) .none _).bind fun _ _ _ => twins_fail _
  | some h => exact twins_pure h

theorem asHuman_same {α : Type} {op : String} (hop : op ≠ "vault.unlock") (params : Value)
    (read : Value → Except CmdError α) : Same ρ (asHuman op params read) (asHuman op params read) :=
  requireSessionAuth_twins.bind fun _ _ hauth => (call_same hop hauth params).bind_eq fun _ => lift_same _

/-! ### The commands -/

theorem pinFingerprint_same : Same ρ pinFingerprint pinFingerprint := loadPin_same.bind_eq fun _ => twins_pure rfl

theorem shownFingerprint_same : Same ρ shownFingerprint shownFingerprint :=
  pinFingerprint_same.attempt_eq.bind_eq fun _ => twins_pure rfl

theorem answeredStatus_same (version : Nat) (created : String) (locked initialized : Bool) :
    Same ρ (answeredStatus version created locked initialized) (answeredStatus version created locked initialized) := by
  refine (loadPin_same.attempt_eq.bind_eq fun _ => twins_pure rfl).bind_eq fun p => ?_
  cases p with
  | true => exact shownFingerprint_same.bind_eq fun _ => twins_pure rfl
  | false => exact (twins_pure rfl : Same ρ (pure none : Cmd (Option String))
      (pure none)).bind_eq fun _ => twins_pure rfl

theorem getStatus_same : Same ρ getStatus getStatus := by
  refine (call_same (by decide) .none _).attempt_eq.bind_eq fun res => ?_
  cases res with
  | ok v => exact answeredStatus_same _ _ _ _
  | error e =>
    dsimp only
    split
    · exact shownFingerprint_same.bind_eq fun _ => twins_pure rfl
    · split
      · exact answeredStatus_same _ _ _ _
      · split
        · exact answeredStatus_same _ _ _ _
        · exact twins_pure rfl

theorem pinStatus_same : Same ρ pinStatus pinStatus :=
  pinFingerprint_same.bind_eq fun _ => loadPin_same.bind_eq fun _ => twins_pure rfl

theorem probeFingerprint_same : Same ρ probeFingerprint probeFingerprint :=
  brokerFingerprintLive_same.bind_eq fun _ => (lift_same _).bind_eq fun _ => twins_pure rfl

/-- Of the answer to an unlock all is shown but the credential. -/
theorem unlock_same (passphrase : String) : Same ρ (unlock passphrase) (unlock passphrase) := by
  refine (unlock_twins passphrase).bind fun v v' hv => ?_
  have hbool : ∀ key, key ≠ "session_credential" → boolField v key = boolField v' key := fun key hkey => by
    rw [boolField, boolField, hv.rest key hkey]
  have hstr : ∀ key, key ≠ "session_credential" → strField v key = strField v' key := fun key hkey => by
    rw [strField, strField, hv.rest key hkey]
  have hnat : ∀ key, key ≠ "session_credential" → u64Field v key = u64Field v' key := fun key hkey => by
    rw [u64Field, u64Field, hv.rest key hkey]
  rw [hbool "unlocked" (by decide), hstr "session_prefix" (by decide), hstr "expires_at" (by decide),
    hnat "expires_in" (by decide), hstr "max_expires_at" (by decide), hnat "max_expires_in" (by decide)]
  split
  · exact twins_fail _
  · exact (holdSession_same hv.credential).bind_eq fun _ => twins_pure rfl

theorem lock_same : Same ρ lock lock := by
  refine get_same fun s s' hs => ?_
  refine (call_same (by decide) (getD_alike (sessionAuth_alike hs)) _).attempt_eq.bind_eq fun wire => ?_
  refine dropSession_same.bind_eq fun _ => ?_
  cases wire with
  | ok v => exact twins_pure rfl
  | error e =>
    dsimp only
    split
    · exact twins_pure rfl
    · exact twins_fail _

theorem health_same : Same ρ health health :=
  get_same fun _ _ hs => call_same (by decide) (getD_alike (sessionAuth_alike hs)) _

theorem callOrNone_same {op : String} {auth auth' : Auth} (hop : op ≠ "vault.unlock") (h : AuthAlike ρ auth auth')
    (params : Value) : Same ρ (callOrNone op auth params) (callOrNone op auth' params) := by
  refine (call_same hop h params).attempt_eq.bind_eq fun r => ?_
  cases r with
  | ok v => exact twins_pure rfl
  | error e =>
    dsimp only
    split
    · exact twins_fail _
    · exact twins_pure rfl

theorem countSecrets_same {auth auth' : Auth} (h : AuthAlike ρ auth auth') (names : List String) :
    ∀ total, Same ρ (countSecrets auth total names) (countSecrets auth' total names) := by
  induction names with
  | nil => exact fun _ => twins_pure rfl
  | cons name names ih =>
    intro total
    refine (callOrNone_same (by decide) h _).bind_eq fun v => ?_
    cases v.bind (arrField · "secrets") with
    | none => exact twins_pure rfl
    | some secrets => exact ih _

theorem countersOf_same {auth auth' : Auth} (h : AuthAlike ρ auth auth') (status : StatusOut) (sessionHeld : Bool) :
    Same ρ (countersOf status sessionHeld auth) (countersOf status sessionHeld auth') := by
  refine (callOrNone_same (by decide) h _).bind_eq fun health => (callOrNone_same (by decide) h _).bind_eq
    fun projects =>
    (callOrNone_same (by decide) h _).bind_eq fun agents => ?_
  have htotal : Same ρ (secretsTotal auth (projects.map projectNames))
    (secretsTotal auth' (projects.map projectNames)) := by
    cases projects with
    | none => exact twins_pure rfl
    | some v => exact (countSecrets_same h _ 0).bind_eq fun _ => twins_pure rfl
  exact htotal.bind_eq fun _ => twins_pure rfl

theorem overviewRefresh_same : Same ρ overviewRefresh overviewRefresh := by
  refine getStatus_same.bind_eq fun status => get_same fun s s' hs => ?_
  split
  · rcases session_alike hs with ⟨hnone, hnone'⟩ | ⟨c, c', hc, hc', -⟩
    · rw [hnone, hnone']
      exact twins_pure rfl
    · rw [hc, hc']
      exact twins_pure rfl
  · unfold sessionAuth
    rcases session_alike hs with ⟨hnone, hnone'⟩ | ⟨c, c', hc, hc', hcc⟩
    · rw [hnone, hnone']
      exact twins_pure rfl
    · rw [hc, hc']
      exact countersOf_same (.session hcc) _ _

theorem agentAdd_same (name : String) (tokenPath : Option String) :
    Same ρ (agentAdd name tokenPath) (agentAdd name tokenPath) := by
  refine (asHuman_same (by decide) _ _).bind_eq fun v => ?_
  cases tokenPath.filter fun p => p ≠ "" with
  | none => exact twins_pure rfl
  | some path =>
    exact (writeTokenFile_same _ _).bind_eq fun _ => (lift_same _).bind_eq fun _ => twins_pure rfl

theorem auditShow_same (tail : UInt64) (beforeSeq : Option UInt64) :
    Same ρ (auditShow tail beforeSeq) (auditShow tail beforeSeq) := by
  unfold auditShow
  split
  · exact twins_fail _
  · exact asHuman_same (by decide) _ _

/-- One command. -/
theorem perform_same {α : Type} (c : Command α) : Same ρ (perform c) (perform c) := by
  cases c with
  | getStatus => exact getStatus_same
  | pinStatus => exact pinStatus_same
  | probeFingerprint => exact probeFingerprint_same
  | unlock passphrase => exact unlock_same passphrase
  | lock => exact lock_same
  | health => exact health_same
  | overviewRefresh => exact overviewRefresh_same
  | agentAdd name tokenPath => exact agentAdd_same name tokenPath
  | auditShow tail beforeSeq => exact auditShow_same tail beforeSeq
  | _ => exact asHuman_same (by decide) _ _

/-- **A page cannot tell one credential from another.** Whatever a page asks for, depending on whatever it was told: it
is told the same, and the same calls are made, whichever credential the backend holds or is given, as long as the broker
does the same to each. -/
theorem page_cannot_tell (page : Page) (n : Nat) {s s' : AppState} (h : s.Alike ρ s') :
    (converse page n [] s).1 = (converse page n [] s').1 ∧
    (converse page n [] s).2.Alike ρ (converse page n [] s').2 := by
  suffices hall : ∀ n shown s s', AppState.Alike ρ s s' → (converse page n shown s).1 = (converse page n shown s').1 ∧
      (converse page n shown s).2.Alike ρ (converse page n shown s').2 from hall n [] s s' h
  intro n
  induction n with
  | zero => exact fun shown s s' hs => ⟨rfl, hs⟩
  | succ n ih =>
    intro shown s s' hs
    rw [converse, converse]
    cases page shown with
    | none => exact ⟨rfl, hs⟩
    | some asked =>
      obtain ⟨α, c⟩ := asked
      obtain ⟨htold, hnext⟩ := perform_same c s s' hs
      dsimp only
      rw [htold.eq]
      exact ih _ _ _ hnext

end Alike

def carries (credential : String) : Auth → Bool
  | .session c => c = credential
  | _ => false

/-- A broker that issues one credential, and reveals a secret to who has it. -/
def clerk (credential : String) : List Ask → Answer
  | [] => .error ⟨"E_PROTOCOL", "", none⟩
  | a :: _ =>
    if a.op = "vault.unlock" then
      .ok (.object [("unlocked", .bool true), ("session_credential", .string credential),
        ("session_prefix", .string "svs_")])
    else if carries credential a.auth then .ok (.object [("value", .string "hunter2")])
    else .error ⟨"E_AUTH", "authentication failed", none⟩

/-- The backend at its start, before this broker. -/
def desk (credential : String) : AppState where
  session := none
  calls := []
  broker := clerk credential
  pins := fun _ => .ok none
  probes := fun _ => .error (.io none "")
  tokenFiles := fun _ => .ok ()
  written := []

theorem clerk_alike (c c' : String) : BrokerAlike (fun d d' => d = c ∧ d' = c') (clerk c) (clerk c') := by
  constructor
  · intro a a' earlier earlier' hop ha _
    have hop' : a'.op = "vault.unlock" := ha.op.symm.trans hop
    rw [clerk, clerk, if_pos hop, if_pos hop']
    refine .ok ⟨fun key hkey => ?_, ?_⟩
    · have hne : ("session_credential" == key) = false := by simpa using Ne.symm hkey
      simp only [Value.get?, List.find?, hne]
    · exact .some ⟨rfl, rfl⟩
  · intro a a' earlier earlier' hop ha _
    have hop' : a'.op ≠ "vault.unlock" := fun h => hop (ha.op.trans h)
    have hauth : carries c a.auth = carries c' a'.auth := by
      have h := ha.auth
      generalize a.auth = auth at h ⊢
      generalize a'.auth = auth' at h ⊢
      cases h with
      | none => rfl
      | agentToken t => rfl
      | passphrase p => rfl
      | session h => simp [carries, h.1, h.2]
    rw [clerk, clerk, if_neg hop, if_neg hop', hauth]

theorem desk_alike (c c' : String) : (desk c).Alike (fun d d' => d = c ∧ d' = c') (desk c') :=
  ⟨.none, .nil, clerk_alike c c', rfl, rfl, rfl, rfl⟩

/-- A page that unlocks, and has a secret revealed. -/
def curious : Page
  | [] => some ⟨_, .unlock "correct horse battery"⟩
  | [_] => some ⟨_, .reveal "web" "TOKEN"⟩
  | _ => none

theorem page_cannot_tell_once :
    (converse curious 5 [] (desk "svs_a")).1 = (converse curious 5 [] (desk "svs_b")).1 ∧
      (converse curious 5 [] (desk "svs_a")).2.session ≠ (converse curious 5 [] (desk "svs_b")).2.session :=
  ⟨(page_cannot_tell curious 5 (desk_alike "svs_a" "svs_b")).1, by decide +kernel⟩

/-! ## With what a call is authenticated -/

/-- The operations for which the session is used. -/
def SESSION_OPS : List String :=
  ["vault.lock", "vault.health", "project.list", "project.add", "project.remove", "project.path.add",
    "project.path.remove",
    "secrets.list", "secret.set", "secret.delete", "agents.list", "agents.add", "agents.revoke", "grants.list",
    "grants.grant",
    "grants.revoke", "approvals.pending", "approvals.approve", "approvals.deny", "reveal", "lease.list", "lease.revoke",
    "runs.list", "audit.show", "audit.verify"]

/-- What is held after the answer to an unlock. -/
def heldAnew (before : Option String) : Answer → Option String
  | .ok v => if (boolField v "unlocked").getD false = false then before else strField v "session_credential"
  | .error _ => before

/-- The credential of the last unlock, if there was no lock since. -/
def heldAfter (broker : List Ask → Answer) : List Ask → Option String
  | [] => none
  | a :: earlier =>
    if a.op = "vault.lock" then none
    else if a.op = "vault.unlock" then heldAnew (heldAfter broker earlier) (broker (a :: earlier))
    else heldAfter broker earlier

/-- The call is authenticated as it should be, when this credential is held. -/
def Allows (held : Option String) (a : Ask) : Prop :=
  match a.auth with
  | .none => a.op = "vault.status" ∨ (held = none ∧ (a.op = "vault.lock" ∨ a.op = "vault.health"))
  | .agentToken _ => False
  | .passphrase _ => a.op = "vault.unlock"
  | .session c => held = some c ∧ a.op ∈ SESSION_OPS

/-- What happens to the backend: the page asks, or the window is closed. -/
inductive Event : Type 1 where
  | asked {α : Type} (c : Command α)
  | closed

def AppState.next (s : AppState) : Event → AppState
  | .asked c => ((perform c).run s).2
  | .closed => (onCloseRequested.run s).2

def AppState.after (s : AppState) (es : List Event) : AppState := es.foldl AppState.next s

/-- What is held is what the calls tell, and each call was allowed by those before it. -/
structure Sound (broker : List Ask → Answer) (s : AppState) : Prop where
  answers : s.broker = broker
  session : s.session = heldAfter broker s.calls
  explained : Explained (fun earlier a => Allows (heldAfter broker earlier) a) s.calls

section Sound
variable {broker : List Ask → Answer} {o : Option String}

/-- A step that keeps what is held. -/
def Holds (broker : List Ask → Answer) (o : Option String) (s t : AppState) : Prop :=
  Sound broker s ∧ s.session = o → Sound broker t ∧ t.session = o

def Stays (broker : List Ask → Answer) (s t : AppState) : Prop := Sound broker s → Sound broker t

instance : IsPreorder AppState (Holds broker o) := { refl := fun _ h => h, trans := fun _ _ _ h h' hs => h' (h hs) }

instance : IsPreorder AppState (Stays broker) := { refl := fun _ h => h, trans := fun _ _ _ h h' hs => h' (h hs) }

theorem Sound.call {s : AppState} {a : Ask} (h : Sound broker s) (hallows : Allows s.session a)
    (hlock : a.op ≠ "vault.lock")
    (hunlock : a.op ≠ "vault.unlock") : Sound broker { s with calls := a :: s.calls } := by
  refine ⟨h.answers, ?_, ?_, h.explained⟩
  · rw [heldAfter, if_neg hlock, if_neg hunlock]
    exact h.session
  · change Allows (heldAfter broker s.calls) a
    rw [← h.session]
    exact hallows

theorem call_holds {op : String} {auth : Auth} {params : Value} (hallows : Allows o ⟨op, auth, params⟩)
    (hlock : op ≠ "vault.lock") (hunlock : op ≠ "vault.unlock") : Keeps (Holds broker o) (call op auth params) := by
  rintro s ⟨hs, rfl⟩
  exact ⟨hs.call hallows hlock hunlock, rfl⟩

theorem session_allows {c op : String} (params : Value) (hop : op ∈ SESSION_OPS) :
    Allows (some c) ⟨op, .session c, params⟩ := ⟨rfl, hop⟩

theorem status_holds : Keeps (Holds broker o) (call "vault.status" .none (json [])) :=
  call_holds (Or.inl rfl) (by decide) (by decide)

theorem loadPin_holds : Keeps (Holds broker o) loadPin := fun _ h => ⟨⟨h.1.answers, h.1.session, h.1.explained⟩, h.2⟩

theorem brokerFingerprintLive_holds : Keeps (Holds broker o) brokerFingerprintLive :=
  fun _ h => ⟨⟨h.1.answers, h.1.session, h.1.explained⟩, h.2⟩

theorem writeTokenFile_holds (path token : String) : Keeps (Holds broker o) (writeTokenFile path token) :=
  fun _ h => ⟨⟨h.1.answers, h.1.session, h.1.explained⟩, h.2⟩

/-- What holds whatever credential there is keeps the state sound. -/
theorem stays_of_holds {α : Type} {m : Cmd α} (h : ∀ o, Keeps (Holds broker o) m) : Keeps (Stays broker) m :=
  fun s hs => (h s.session s ⟨hs, rfl⟩).1

/-- With the credential that is held, or not at all. -/
theorem requireSessionAuth_stays {α : Type} {f : Auth → Cmd α} (h : ∀ c, Keeps (Holds broker (some c))
    (f (.session c))) : Keeps (Stays broker) (requireSessionAuth >>= f) := by
  intro s hs
  have hfails : Keeps (Holds broker none) ((call "vault.status" .none (json []) >>= fun _ =>
      (fail ⟨"E_SESSION_EXPIRED", "session expired or revoked"⟩ : Cmd Auth)) >>= f) := by
    rw [Prog.bind_assoc]
    refine status_holds.bind fun _ _ ht => ?_
    exact ht
  unfold requireSessionAuth
  rw [Prog.bind_assoc, run_get_bind]
  unfold sessionAuth
  cases hsession : s.session with
  | none => exact (hfails s ⟨hs, hsession⟩).1
  | some c => exact (h c s ⟨hs, hsession⟩).1

theorem asHuman_stays {α : Type} {op : String} (hop : op ∈ SESSION_OPS) (hlock : op ≠ "vault.lock") (params : Value)
    (read : Value → Except CmdError α) : Keeps (Stays broker) (asHuman op params read) := by
  have hunlock : op ≠ "vault.unlock" := by
    rintro rfl
    exact absurd hop (by decide)
  refine requireSessionAuth_stays fun c => ?_
  exact (call_holds (session_allows params hop) hlock hunlock).bind fun _ => keeps_lift _

/-! ### The commands -/

theorem pinFingerprint_holds : Keeps (Holds broker o) pinFingerprint := loadPin_holds.bind fun _ => keeps_pure _

theorem shownFingerprint_holds : Keeps (Holds broker o) shownFingerprint :=
  pinFingerprint_holds.attempt.bind fun _ => keeps_pure _

theorem answeredStatus_holds (version : Nat) (created : String) (locked initialized : Bool) :
    Keeps (Holds broker o) (answeredStatus version created locked initialized) := by
  refine (loadPin_holds.attempt.bind fun _ => keeps_pure _).bind fun p => ?_
  cases p with
  | true => exact shownFingerprint_holds.bind fun _ => keeps_pure _
  | false => exact keeps_pure _

theorem getStatus_holds : Keeps (Holds broker o) getStatus := by
  refine status_holds.attempt.bind fun res => ?_
  cases res with
  | ok v => exact answeredStatus_holds _ _ _ _
  | error e =>
    dsimp only
    split
    · exact shownFingerprint_holds.bind fun _ => keeps_pure _
    · split
      · exact answeredStatus_holds _ _ _ _
      · split
        · exact answeredStatus_holds _ _ _ _
        · exact keeps_pure _

theorem callOrNone_holds {c op : String} (hop : op ∈ SESSION_OPS) (hlock : op ≠ "vault.lock")
    (hunlock : op ≠ "vault.unlock")
    (params : Value) : Keeps (Holds broker (some c)) (callOrNone op (.session c) params) := by
  refine (call_holds (session_allows params hop) hlock hunlock).attempt.bind fun r => ?_
  cases r with
  | ok v => exact keeps_pure _
  | error e =>
    dsimp only
    split
    · exact keeps_fail _
    · exact keeps_pure _

theorem countSecrets_holds (c : String) (names : List String) :
    ∀ total, Keeps (Holds broker (some c)) (countSecrets (.session c) total names) := by
  induction names with
  | nil => exact fun _ => keeps_pure _
  | cons name names ih =>
    intro total
    refine (callOrNone_holds (by decide) (by decide) (by decide) _).bind fun v => ?_
    cases v.bind (arrField · "secrets") with
    | none => exact keeps_pure _
    | some secrets => exact ih _

theorem countersOf_holds (c : String) (status : StatusOut) (sessionHeld : Bool) :
    Keeps (Holds broker (some c)) (countersOf status sessionHeld (.session c)) := by
  have hcall : ∀ op params, op ∈ SESSION_OPS → op ≠ "vault.lock" → op ≠ "vault.unlock" →
      Keeps (Holds broker (some c)) (callOrNone op (.session c) params) :=
      fun op params h h' h'' => callOrNone_holds h h' h'' params
  refine (hcall "vault.health" _ (by decide) (by decide) (by decide)).bind fun health =>
    (hcall "project.list" _ (by decide) (by decide) (by decide)).bind fun projects =>
      (hcall "agents.list" _ (by decide) (by decide) (by decide)).bind fun agents => ?_
  have htotal : Keeps (Holds broker (some c)) (secretsTotal (.session c) (projects.map projectNames)) := by
    cases projects with
    | none => exact keeps_pure _
    | some v => exact (countSecrets_holds c _ 0).bind fun _ => keeps_pure _
  exact htotal.bind fun _ => keeps_pure _

theorem overviewRefresh_stays : Keeps (Stays broker) overviewRefresh := by
  refine (stays_of_holds fun o => getStatus_holds).bind fun status s hs => ?_
  rw [run_get_bind]
  split
  · exact hs
  · unfold sessionAuth
    cases hsession : s.session with
    | none => exact hs
    | some c => exact (countersOf_holds c status _ s ⟨hs, hsession⟩).1

theorem health_stays : Keeps (Stays broker) health := by
  intro s hs
  unfold health sessionAuth
  rw [run_get_bind]
  cases hsession : s.session with
  | none =>
    have hcall : Keeps (Holds broker none) (call "vault.health" .none (json [])) :=
      call_holds (Or.inr ⟨rfl, Or.inr rfl⟩) (by decide) (by decide)
    exact (hcall s ⟨hs, hsession⟩).1
  | some c =>
    have hcall : Keeps (Holds broker (some c)) (call "vault.health" (.session c) (json [])) :=
      call_holds (session_allows _ (by decide)) (by decide) (by decide)
    exact (hcall s ⟨hs, hsession⟩).1

theorem agentAdd_stays (name : String) (tokenPath : Option String) :
    Keeps (Stays broker) (agentAdd name tokenPath) := by
  refine (asHuman_stays (by decide) (by decide) _ _).bind fun v => ?_
  cases tokenPath.filter fun p => p ≠ "" with
  | none => exact keeps_pure _
  | some path =>
    refine (stays_of_holds fun o => writeTokenFile_holds path _).bind fun _ => ?_
    exact (keeps_lift _).bind fun _ => keeps_pure _

theorem auditShow_stays (tail : UInt64) (beforeSeq : Option UInt64) :
    Keeps (Stays broker) (auditShow tail beforeSeq) := by
  unfold auditShow
  split
  · exact keeps_fail _
  · exact asHuman_stays (by decide) (by decide) _ _

/-- After an unlock the backend holds what its answer says, and an answer that is none leaves it as it was. -/
theorem unlock_stays (passphrase : String) : Keeps (Stays broker) (unlock passphrase) := by
  intro s hs
  let a : Ask := ⟨"vault.unlock", .passphrase passphrase, json []⟩
  have hstate : ((unlock passphrase).run s).2 =
      { s with calls := a :: s.calls, session := heldAnew s.session (s.broker (a :: s.calls)) } := by
    unfold unlock
    rw [run_bind]
    cases hanswer : s.broker (a :: s.calls) with
    | error e =>
      rw [call_run_error hanswer]
      rfl
    | ok v =>
      rw [call_run_ok hanswer, heldAnew]
      dsimp only
      split
      · rfl
      · rfl
  rw [hstate]
  refine ⟨hs.answers, ?_, ?_, hs.explained⟩
  · have hnot : a.op ≠ "vault.lock" := (by decide : "vault.unlock" ≠ "vault.lock")
    rw [heldAfter, if_neg hnot, if_pos rfl, hs.answers, hs.session]
  · exact rfl

/-- The credential is dropped. -/
theorem Sound.locked {s : AppState} {auth : Auth} (hs : Sound broker s)
    (hauth : Allows s.session ⟨"vault.lock", auth, json []⟩) :
    Sound broker { s with calls := ⟨"vault.lock", auth, json []⟩ :: s.calls, session := none } := by
  refine ⟨hs.answers, rfl, ?_, hs.explained⟩
  change Allows (heldAfter broker s.calls) _
  rw [← hs.session]
  exact hauth

theorem lock_stays : Keeps (Stays broker) lock := by
  intro s hs
  let auth : Auth := (sessionAuth s).getD .none
  have hstate : (lock.run s).2 = { s with calls := ⟨"vault.lock", auth, json []⟩ :: s.calls, session := none } := by
    unfold lock
    rw [run_get_bind, run_bind, run_attempt]
    cases hanswer : s.broker (⟨"vault.lock", auth, json []⟩ :: s.calls) with
    | ok v =>
      rw [call_run_ok hanswer]
      rfl
    | error e =>
      rw [call_run_error hanswer]
      dsimp only
      rw [run_bind]
      dsimp only [dropSession, run_modify]
      split
      · rfl
      · rfl
  rw [hstate]
  refine hs.locked ?_
  change Allows s.session ⟨"vault.lock", (s.session.map Auth.session).getD .none, json []⟩
  cases s.session with
  | none => exact Or.inr ⟨rfl, Or.inl rfl⟩
  | some c => exact session_allows _ (by decide)

theorem onCloseRequested_stays : Keeps (Stays broker) onCloseRequested := by
  intro s hs
  unfold onCloseRequested takeSession
  rw [run_bind, run_step]
  dsimp only
  cases hsession : s.session with
  | none =>
    have hsame : { s with session := none } = s := by rw [← hsession]
    change Sound broker { s with session := none }
    rwa [hsame]
  | some c =>
    dsimp only
    rw [run_ignore_snd]
    refine hs.locked ?_
    rw [hsession]
    exact session_allows _ (by decide)

/-- One command. -/
theorem perform_stays {α : Type} (c : Command α) : Keeps (Stays broker) (perform c) := by
  cases c with
  | getStatus => exact stays_of_holds fun _ => getStatus_holds
  | pinStatus =>
    exact stays_of_holds fun _ => pinFingerprint_holds.bind fun _ => loadPin_holds.bind fun _ => keeps_pure _
  | probeFingerprint =>
    exact stays_of_holds fun _ => brokerFingerprintLive_holds.bind fun _ => (keeps_lift _).bind fun _ => keeps_pure _
  | unlock passphrase => exact unlock_stays passphrase
  | lock => exact lock_stays
  | health => exact health_stays
  | overviewRefresh => exact overviewRefresh_stays
  | agentAdd name tokenPath => exact agentAdd_stays name tokenPath
  | auditShow tail beforeSeq => exact auditShow_stays tail beforeSeq
  | _ => exact asHuman_stays (by decide) (by decide) _ _

end Sound

/-- **Calls are authorized.** In every run of commands and closings: a call that carries a credential of a session
carries that of the last unlock, since which there was no lock, for one of the operations of the page; a passphrase goes
with an unlock alone, and a token of an agent with nothing; without authentication there is the status, and, where no
session is held, a lock or a look at the health. What the backend holds in the end is told by the calls in the same way.
-/
theorem calls_are_authorized {s : AppState} (es : List Event) (hsession : s.session = none) (hcalls : s.calls = []) :
    (s.after es).session = heldAfter s.broker (s.after es).calls ∧
      ∀ later a earlier, (s.after es).calls = later ++ a :: earlier → Allows (heldAfter s.broker earlier) a := by
  have hfirst : Sound s.broker s := by
    refine ⟨rfl, ?_, ?_⟩
    · rw [hsession, hcalls]
      rfl
    · rw [hcalls]
      trivial
  have hsound : ∀ t, Sound s.broker t → Sound s.broker (t.after es) := by
    induction es with
    | nil => exact fun t ht => ht
    | cons e es ih =>
      intro t ht
      refine ih _ ?_
      cases e with
      | asked c => exact perform_stays c t ht
      | closed => exact onCloseRequested_stays t ht
  exact ⟨(hsound s hfirst).session, fun later a earlier heq => (hsound s hfirst).explained.at heq⟩

theorem calls_are_authorized_once : Allows (heldAfter (clerk "svs_a") [⟨"vault.unlock", .passphrase "p", json []⟩])
    ⟨"reveal", .session "svs_a", json [("project", .string "web"), ("key", .string "TOKEN")]⟩ := by
  let es : List Event := [.asked (.unlock "p"), .asked (.reveal "web" "TOKEN"), .closed]
  have hcalls : ((desk "svs_a").after es).calls =
      [⟨"vault.lock", .session "svs_a", json []⟩] ++
        ⟨"reveal", .session "svs_a", json [("project", .string "web"), ("key", .string "TOKEN")]⟩ ::
          [⟨"vault.unlock", .passphrase "p", json []⟩] := rfl
  exact (calls_are_authorized es rfl rfl).2 _ _ _ hcalls

end SecretsVault.Backend
