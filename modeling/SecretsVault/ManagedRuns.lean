import SecretsVault.Calls
import SecretsVault.Wire

/-!
# Managed runs

What a request to run a command with secrets names, the environment its child gets, and the registry of live runs. A
slot is reserved before the child exists, and activated once it does; a withdrawal takes every matching entry at once.
-/

namespace SecretsVault

open Lib

def MAX_EXECUTABLE_BYTES : Nat := 4096
def MAX_ARGV_ENTRIES : Nat := 256
def MAX_ARGV_BYTES : Nat := 128 * 1024
def MAX_KEYS : Nat := 256
def MAX_ENV_ENTRIES : Nat := 256
def MAX_ENV_BYTES : Nat := 128 * 1024
def MAX_CHILD_ENV_BYTES : Nat := 1024 * 1024
def MAX_RUNS_PER_AGENT : Nat := 4
def MAX_RUNS_TOTAL : Nat := 16
def MAX_DURATION_SECS : Nat := 24 * 3600

/-- What a caller may pass through to the child. -/
def ALLOWED_ENV : List String :=
  ["PATH", "HOME", "TERM", "LANG", "LC_ALL", "LC_CTYPE", "TMPDIR", "SHELL", "USER", "XDG_RUNTIME_DIR",
    "XDG_CONFIG_HOME", "XDG_DATA_HOME", "XDG_CACHE_HOME"]

/-! ## Parameters -/

/-- The parameters of a run. No keys is not the same as an empty list of keys. -/
structure RunParams where
  project : String
  executable : String
  argv : List String
  cwd : Option String
  keys : Option (List String)
  env : List (String × String)
  timeoutSecs : Option Nat
  deriving DecidableEq, Repr

/-- The argument vector, of which `bytes` have been read. -/
def parseArgv (bytes : Nat) : List Value → Except VaultError (List String)
  | [] => .ok []
  | item :: rest =>
    match item.asStr with
    | none => .error (.invalidInput "argv must be strings")
    | some s =>
      if hasNul s then .error (.invalidInput "invalid argv value")
      else if MAX_ARGV_BYTES < bytes + s.utf8ByteSize then .error .tooLarge
      else do
        let argv ← parseArgv (bytes + s.utf8ByteSize) rest
        .ok (s :: argv)

/-- The selected keys. -/
def parseKeys : List Value → Except VaultError (List String)
  | [] => .ok []
  | item :: rest =>
    match item.asStr with
    | none => .error (.invalidInput "keys must be strings")
    | some s =>
      if !validKey s then .error (.invalidInput "invalid key")
      else do
        let keys ← parseKeys rest
        .ok (s :: keys)

/-- The environment of the caller, of which `bytes` have been read. -/
def parseEnv (bytes : Nat) : List (String × Value) → Except VaultError (List (String × String))
  | [] => .ok []
  | (k, v) :: rest =>
    match v.asStr with
    | none => .error (.invalidInput "env values must be strings")
    | some s =>
      if k.isEmpty || hasNul k || hasNul s then .error (.invalidInput "invalid env entry")
      else if MAX_ENV_BYTES < bytes + (k.utf8ByteSize + s.utf8ByteSize) then .error .tooLarge
      else do
        let env ← parseEnv (bytes + (k.utf8ByteSize + s.utf8ByteSize)) rest
        .ok ((k, s) :: env)

/-- The parameter, unless it is missing or null. -/
def Value.given? (params : Value) (key : String) : Option Value :=
  (params.get? key).bind fun v => if v.isNull then none else some v

def parseCwd (params : Value) : Except VaultError (Option String) :=
  match params.given? "cwd" with
  | none => .ok none
  | some v =>
    match v.asStr with
    | none => .error (.invalidInput "cwd must be a string")
    | some s => if s.isEmpty || hasNul s then .error (.invalidInput "invalid cwd") else .ok (some s)

def parseTimeout (params : Value) : Except VaultError (Option Nat) :=
  match params.given? "timeout_secs" with
  | none => .ok none
  | some v =>
    match v.asU64 with
    | none => .error (.invalidInput "invalid timeout_secs")
    | some t =>
      if t = 0 ∨ MAX_DURATION_SECS < t then .error (.invalidInput "invalid timeout_secs") else .ok (some t)

def parseSelection (params : Value) : Except VaultError (Option (List String)) :=
  match params.given? "keys" with
  | none => .ok none
  | some v =>
    match v.asArray with
    | none => .error (.invalidInput "keys must be an array")
    | some items => if MAX_KEYS < items.length then .error (.invalidInput "too many keys") else some <$> parseKeys items

def parseCallerEnv (params : Value) : Except VaultError (List (String × String)) :=
  match params.given? "env" with
  | none => .ok []
  | some v =>
    match v.asObject with
    | none => .error (.invalidInput "env must be an object")
    | some entries =>
      if MAX_ENV_ENTRIES < entries.length then .error (.invalidInput "too many env entries") else parseEnv 0 entries

/-- Read the parameters of a run. -/
def parseRunParams (params : Value) : Except VaultError RunParams :=
  match params.asObject with
  | none => .error (.invalidInput "params must be an object")
  | some _ =>
  match (params.index "project").asStr with
  | none => .error (.invalidInput "missing project")
  | some project =>
  if !validProjectName project then .error (.invalidInput "invalid project") else
  match (params.index "executable").asStr with
  | none => .error (.invalidInput "missing executable")
  | some executable =>
  if executable.isEmpty || decide (MAX_EXECUTABLE_BYTES < executable.utf8ByteSize) || hasNul executable then
    .error (.invalidInput "invalid executable") else
  match params.get? "argv" with
  | none => .error (.invalidInput "missing argv")
  | some argvVal =>
  match argvVal.asArray with
  | none => .error (.invalidInput "argv must be an array")
  | some argvArr =>
  if argvArr.isEmpty || decide (MAX_ARGV_ENTRIES < argvArr.length) then .error
    (.invalidInput "invalid argv count") else do
    let argv ← parseArgv 0 argvArr
    let cwd ← parseCwd params
    let keys ← parseSelection params
    let env ← parseCallerEnv params
    let timeoutSecs ← parseTimeout params
    .ok { project, executable, argv, cwd, keys, env, timeoutSecs }

/-! ## The environment of the child -/

/-- Letters of a text anywhere in another. -/
def occursIn (sub : List Char) : List Char → Bool
  | [] => sub.isEmpty
  | c :: rest => sub.isPrefixOf (c :: rest) || occursIn sub rest

/-- Names that are never passed through. -/
def isForbiddenEnvName (name : String) : Bool :=
  let upper := name.toList.map Char.toUpper
  name == "SVAULT_TOKEN" || "SVAULT_".toList.isPrefixOf upper || occursIn "TOKEN".toList upper ||
    occursIn "PASSPHRASE".toList upper || occursIn "INTERNAL".toList upper || "LD_".toList.isPrefixOf upper ||
    "DYLD_".toList.isPrefixOf upper

/-- Add one variable to an environment of `total` bytes. -/
def pushEnv (total : Nat) (k v : Bytes) : Except VaultError Nat :=
  if k.contains 0 || v.contains 0 then .error (.invalidInput "env value cannot carry NUL")
  else if MAX_CHILD_ENV_BYTES < total + (k.length + v.length) then .error .tooLarge
  else .ok (total + (k.length + v.length))

/-- What of the caller's environment is passed through, and its bytes. -/
def passEnv (selected : List String) (total : Nat) : List (String × String) →
    Except VaultError (List (Bytes × Bytes) × Nat)
  | [] => .ok ([], total)
  | (k, v) :: rest =>
    if selected.contains k then .error (.invalidInput "env collides with a selected secret")
    else if isForbiddenEnvName k || !ALLOWED_ENV.contains k then passEnv selected total rest
    else do
      let total ← pushEnv total k.toUTF8.toList v.toUTF8.toList
      let (out, total) ← passEnv selected total rest
      .ok ((k.toUTF8.toList, v.toUTF8.toList) :: out, total)

/-- The selected secrets as variables. -/
def secretEnv (total : Nat) : List (String × Bytes) → Except VaultError (List (Bytes × Bytes))
  | [] => .ok []
  | (k, v) :: rest => do
    let total ← pushEnv total k.toUTF8.toList v
    let out ← secretEnv total rest
    .ok ((k.toUTF8.toList, v) :: out)

/-- The environment of the child: what is passed through, then the selected secrets. -/
def buildChildEnv (requestEnv : List (String × String)) (secrets : List (String × Bytes)) :
    Except VaultError (List (Bytes × Bytes)) := do
  let (passed, total) ← passEnv (secrets.map (·.1)) 0 requestEnv
  let added ← secretEnv total secrets
  .ok (passed ++ added)

/-- Open the working directory of the child under one folder; a folder that does not hold it is passed over. -/
def openCwdIn (cwd root : Path) (next : Prog VaultError Host (List String)) : Prog VaultError Host (List String) := do
  let parts := pathComponents cwd
  let under := pathComponents root
  if !under.isPrefixOf parts then next
  else
    match ← (openContainmentRoot root).attempt with
    | .error e => if isOperationalError e then .fail e else next
    | .ok dir =>
      let names := (parts.drop under.length).filterMap PathComponent.name?
      if names = [] then pure dir
      else
        match ← (openat2Dir dir ("/".intercalate names)).attempt with
        | .error e => if isOperationalError e then .fail e else next
        | .ok dir => pure dir

/-- Open the working directory of the child under the first folder that holds it. -/
def openCwdUnder (cwd : Path) : List Path → Prog VaultError Host (List String)
  | [] => .fail .pathNotAuthorized
  | root :: rest => openCwdIn cwd root (openCwdUnder cwd rest)

/-- The working directory of a child must be in a folder of its project. -/
def openAuthorizedCwd (cwd : Path) (roots : List Path) : Prog VaultError Host (List String) :=
  if !isAbsolute cwd then .fail .pathNotAuthorized
  else if MAX_PATH_LEN < cwd.utf8ByteSize then .fail (.invalidInput "cwd path too long")
  else if hasNul cwd then .fail (.invalidInput "path contains NUL")
  else if (pathComponents cwd).contains .parentDir then .fail .pathNotAuthorized
  else openCwdUnder cwd roots

/-- The number of a signal that may be sent. -/
def parseSignal (name : String) : Except VaultError Nat :=
  let upper := String.ofList (name.toList.map Char.toUpper)
  if upper = "TERM" ∨ upper = "SIGTERM" ∨ upper = "15" then .ok 15
  else if upper = "KILL" ∨ upper = "SIGKILL" ∨ upper = "9" then .ok 9
  else if upper = "HUP" ∨ upper = "SIGHUP" ∨ upper = "1" then .ok 1
  else if upper = "INT" ∨ upper = "SIGINT" ∨ upper = "2" then .ok 2
  else if upper = "QUIT" ∨ upper = "SIGQUIT" ∨ upper = "3" then .ok 3
  else .error (.invalidInput "unknown signal")

/-! ## The registry -/

/-- A live run; one that is only reserved has no process yet. -/
structure RunMeta where
  agent : String
  project : String
  pid : Int
  pgid : Int
  startedAt : OffsetDateTime
  deriving DecidableEq, Repr

/-- The live runs by their name. -/
abbrev RunRegistry := List (String × RunMeta)

namespace RunRegistry

/-- Reserve a slot. -/
def tryReserve (r : RunRegistry) (agent project runId : String) (now : OffsetDateTime) :
    Except (String × String) RunRegistry :=
  if r.any fun e => e.1 == runId then .error ("E_PROTOCOL", "duplicate run_id")
  else if MAX_RUNS_TOTAL ≤ r.length then .error ("E_BUSY", "too many concurrent runs")
  else if MAX_RUNS_PER_AGENT ≤ (r.filter fun e => e.2.agent == agent).length then
    .error ("E_BUSY", "too many concurrent runs for agent")
  else .ok (r ++ [(runId, { agent, project, pid := 0, pgid := 0, startedAt := now })])

def lookup (r : RunRegistry) (runId : String) : Option RunMeta := (r.find? fun e => e.1 == runId).map (·.2)

/-- The run, if it is the agent's. -/
def lookupOwned (r : RunRegistry) (agent runId : String) : Option RunMeta :=
  (r.lookup runId).filter fun m => m.agent == agent

def remove (r : RunRegistry) (runId : String) : RunRegistry := r.filter fun e => e.1 != runId

/-- A run of the agent on the project; nothing named is anything. -/
def matching (agent project : Option String) (m : RunMeta) : Bool :=
  (match agent with
    | some a => m.agent == a
    | none => true) &&
  (match project with
    | some p => m.project == p
    | none => true)

/-- Take every matching run out: what was taken, and what is left. -/
def takeMatching (r : RunRegistry) (agent project : Option String) : RunRegistry × RunRegistry :=
  r.partition fun e => matching agent project e.2

/-- The process of a reserved run, unless the run was taken out. -/
def activate (r : RunRegistry) (runId : String) (pid pgid : Int) : Option RunRegistry :=
  if r.any fun e => e.1 == runId then
    some (r.map fun e => if e.1 == runId then (e.1, { e.2 with pid, pgid }) else e)
  else none

/-! ### What they do to one run -/

variable {r r' : RunRegistry} {id other : String}

/-- No two entries have one name. -/
def Distinct (r : RunRegistry) : Prop := (r.map (·.1)).Nodup

theorem lookup_cons (e : String × RunMeta) (r : RunRegistry) (id : String) :
    lookup (e :: r) id = if e.1 = id then some e.2 else r.lookup id := by
  by_cases h : e.1 = id
  · simp [lookup, h]
  · simp [lookup, h, beq_false_of_ne h]

theorem lookup_eq_none : r.lookup id = none ↔ id ∉ r.map (·.1) := by
  induction r with
  | nil => simp [lookup]
  | cons e r ih =>
    rw [lookup_cons, List.map_cons, List.mem_cons, not_or, ← ih]
    by_cases h : e.1 = id
    · simp [h]
    · simp [h, Ne.symm h]

theorem any_eq_isSome (r : RunRegistry) (id : String) : (r.any fun e => e.1 == id) = (r.lookup id).isSome := by
  induction r with
  | nil => rfl
  | cons e r ih =>
    rw [List.any_cons, ih, lookup_cons]
    by_cases h : e.1 = id <;> simp [h]

theorem lookup_append (r r' : RunRegistry) (id : String) : lookup (r ++ r') id = (r.lookup id).or (r'.lookup id) := by
  induction r with
  | nil => rfl
  | cons e r ih =>
    rw [List.cons_append, lookup_cons, lookup_cons, ih]
    by_cases h : e.1 = id <;> simp [h]

/-- Keeping some entries keeps the runs they are of. -/
theorem lookup_filter (hr : r.Distinct) (p : String × RunMeta → Bool) (id : String) :
    lookup (r.filter p) id = (r.lookup id).filter fun m => p (id, m) := by
  induction r with
  | nil => rfl
  | cons e r ih =>
    rw [Distinct, List.map_cons, List.nodup_cons] at hr
    rw [lookup_cons, List.filter_cons]
    by_cases h : e.1 = id
    · obtain ⟨k, m⟩ := e
      change k = id at h
      subst h
      have hnone : lookup r k = none := lookup_eq_none.mpr hr.1
      by_cases hp : p (k, m) = true
      · simp [hp, lookup_cons, Option.filter]
      · simp [hp, ih hr.2, hnone, Option.filter]
    · by_cases hp : p e = true
      · rw [if_pos hp, lookup_cons, if_neg h, if_neg h, ih hr.2]
      · rw [if_neg hp, if_neg h, ih hr.2]

theorem lookup_of_filter (hr : r.Distinct) {p : String × RunMeta → Bool} {m : RunMeta}
    (h : lookup (r.filter p) id = some m) : r.lookup id = some m := by
  rw [lookup_filter hr, Option.filter_eq_some_iff] at h
  exact h.1

theorem Distinct.filter (hr : r.Distinct) (p : String × RunMeta → Bool) : Distinct (r.filter p) :=
  hr.sublist (List.filter_sublist.map _)

/-- A withdrawal takes the matching runs. -/
theorem lookup_takeMatching_fst (hr : r.Distinct) (agent project : Option String) (id : String) :
    lookup (r.takeMatching agent project).1 id = (r.lookup id).filter (matching agent project) := by
  rw [takeMatching, List.partition_eq_filter_filter]
  exact lookup_filter hr _ id

/-- A withdrawal leaves the others. -/
theorem lookup_takeMatching_snd (hr : r.Distinct) (agent project : Option String) (id : String) :
    lookup (r.takeMatching agent project).2 id = (r.lookup id).filter fun m => !matching agent project m := by
  rw [takeMatching, List.partition_eq_filter_filter]
  exact lookup_filter hr _ id

/-- What a reservation adds, and where there is room for it. -/
theorem tryReserve_eq_ok {agent project : String} {now : OffsetDateTime}
    (h : r.tryReserve agent project id now = .ok r') : r.lookup id = none ∧ r.length < MAX_RUNS_TOTAL ∧
      (r.filter fun e => e.2.agent == agent).length < MAX_RUNS_PER_AGENT ∧
      r' = r ++ [(id, { agent, project, pid := 0, pgid := 0, startedAt := now })] := by
  unfold tryReserve at h
  split at h
  · cases h
  · rename_i hfree
    split at h
    · cases h
    · split at h
      · cases h
      · cases h
        rw [any_eq_isSome] at hfree
        exact ⟨by simpa using hfree, by omega, by omega, rfl⟩

/-- A process is recorded for a run that is there. -/
theorem activate_eq_none {pid pgid : Int} : r.activate id pid pgid = none ↔ r.lookup id = none := by
  rw [activate, any_eq_isSome]
  cases r.lookup id <;> simp

theorem activate_eq_some {pid pgid : Int} (h : r.activate id pid pgid = some r') :
    r' = r.map fun e => if e.1 == id then (e.1, { e.2 with pid, pgid }) else e := by
  rw [activate] at h
  split at h
  · exact (Option.some.inj h).symm
  · cases h

theorem lookup_record (r : RunRegistry) (id other : String) (pid pgid : Int) :
    lookup (r.map fun e => if e.1 == id then (e.1, { e.2 with pid, pgid }) else e) other =
      if other = id then (r.lookup other).map fun m => { m with pid, pgid } else r.lookup other := by
  induction r with
  | nil => simp [lookup]
  | cons e r ih =>
    rw [List.map_cons, lookup_cons, lookup_cons, ih]
    by_cases h : e.1 = id <;> by_cases h' : e.1 = other <;> by_cases h'' : other = id <;> simp_all

/-! ### The quotas -/

/-- The quotas hold, and no two entries have one name. -/
structure WithinQuota (r : RunRegistry) : Prop where
  total : r.length ≤ MAX_RUNS_TOTAL
  perAgent : ∀ agent, (r.filter fun e => e.2.agent == agent).length ≤ MAX_RUNS_PER_AGENT
  distinct : r.Distinct

theorem withinQuota_nil : WithinQuota [] := ⟨by simp, fun _ => by simp, List.nodup_nil⟩

theorem WithinQuota.filter (hr : r.WithinQuota) (p : String × RunMeta → Bool) : WithinQuota (r.filter p) where
  total := Nat.le_trans (List.length_filter_le _ _) hr.total
  perAgent agent := Nat.le_trans (List.filter_sublist.filter _).length_le (hr.perAgent agent)
  distinct := hr.distinct.filter p

theorem Distinct.takeMatching_fst (hr : r.Distinct) (agent project : Option String) :
    Distinct (r.takeMatching agent project).1 := by
  rw [takeMatching, List.partition_eq_filter_filter]
  exact hr.filter _

theorem WithinQuota.takeMatching_snd (hr : r.WithinQuota) (agent project : Option String) :
    WithinQuota (r.takeMatching agent project).2 := by
  rw [takeMatching, List.partition_eq_filter_filter]
  exact hr.filter _

theorem WithinQuota.reserve {agent project : String} {now : OffsetDateTime} (hr : r.WithinQuota)
    (h : r.tryReserve agent project id now = .ok r') : r'.WithinQuota := by
  obtain ⟨hfree, htotal, hquota, rfl⟩ := tryReserve_eq_ok h
  refine ⟨?_, fun other => ?_, ?_⟩
  · rw [List.length_append]
    exact Nat.succ_le_of_lt htotal
  · rw [List.filter_append, List.length_append]
    by_cases heq : agent = other
    · subst heq
      simpa using Nat.succ_le_of_lt hquota
    · simpa [heq] using hr.perAgent other
  · rw [Distinct, List.map_append, List.nodup_append]
    refine ⟨hr.distinct, by simp, fun a ha b hb => ?_⟩
    rintro rfl
    rw [List.map_singleton, List.mem_singleton] at hb
    subst hb
    exact lookup_eq_none.mp hfree ha

theorem WithinQuota.activate {pid pgid : Int} (hr : r.WithinQuota) (h : r.activate id pid pgid = some r') :
    r'.WithinQuota := by
  have hkeys : r'.map (·.1) = r.map (·.1) := by
    rw [activate_eq_some h, List.map_map]
    refine List.map_congr_left fun e _ => ?_
    by_cases he : e.1 = id <;> simp [he]
  have hagents : r'.map (·.2.agent) = r.map (·.2.agent) := by
    rw [activate_eq_some h, List.map_map]
    refine List.map_congr_left fun e _ => ?_
    by_cases he : e.1 = id <;> simp [he]
  have hcount : ∀ (q : RunRegistry) agent, (q.filter fun e => e.2.agent == agent).length =
      (q.map (·.2.agent)).count agent := fun q agent => by
    rw [List.count_eq_length_filter, List.filter_map, List.length_map]
    rfl
  refine ⟨?_, fun agent => ?_, ?_⟩
  · have := congrArg List.length hkeys
    rw [List.length_map, List.length_map] at this
    rw [this]
    exact hr.total
  · rw [hcount, hagents, ← hcount]
    exact hr.perAgent agent
  · rw [Distinct, hkeys]
    exact hr.distinct

end RunRegistry

/-! ## Records -/

namespace Call

/-- Record a denial; what becomes of it is up to the caller. -/
def denied (actor op : String) (project : Option String) (err : VaultError) : Call Unit :=
  .auditRecord { actor, op, project, decision := .denied, reason := some err.code } .ordinary

def runSignal (actor project runId : String) (decision : Decision) (reason : Option String) : Call Unit :=
  .auditRun { actor, project := some project, keys := [], runId := some runId, decision, reason,
              result := some "signaled" }
    .ordinary

def runRevoked (actor project runId : String) : Call Unit :=
  .auditRun
    { actor, project := some project, keys := [], runId := some runId, decision := .allowed, result := some "revoked" }
    .lifecycle

end Call

end SecretsVault
