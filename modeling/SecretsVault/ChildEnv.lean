import SecretsVault.ManagedRuns

/-!
# The environment of a child

What `buildChildEnv` gives the child: the selected secrets, and of the caller's environment what is on the allowlist.

- `buildChildEnv_eq_ok`: when there is an environment, and which.
- `child_env_denies_by_default`: what follows for the child and for the caller.
- `parseRunParams_wf`: the parameters that are accepted are within their limits. `buildChildEnv_accepted`: so the
  variables of an accepted request are never too large, and never hold a NUL.
-/

namespace SecretsVault

open Lib

/-- A variable of the caller that is passed through. -/
def passes (e : String × String) : Bool := !isForbiddenEnvName e.1 && ALLOWED_ENV.contains e.1

/-- A variable of the caller, as bytes. -/
def callerVar (e : String × String) : Bytes × Bytes := (e.1.toUTF8.toList, e.2.toUTF8.toList)

/-- A selected secret as a variable. -/
def secretVar (s : String × Bytes) : Bytes × Bytes := (s.1.toUTF8.toList, s.2)

/-- The bytes of some variables. -/
def envSize (vars : List (Bytes × Bytes)) : Nat := vars.foldr (fun v n => v.1.length + v.2.length + n) 0

/-- No name and no value holds a NUL. -/
def NulFree (vars : List (Bytes × Bytes)) : Prop := ∀ v ∈ vars, 0 ∉ v.1 ∧ 0 ∉ v.2

@[simp] theorem envSize_nil : envSize [] = 0 := rfl

@[simp] theorem envSize_cons (v : Bytes × Bytes) (vars : List (Bytes × Bytes)) :
    envSize (v :: vars) = v.1.length + v.2.length + envSize vars := rfl

@[simp] theorem envSize_append (a b : List (Bytes × Bytes)) : envSize (a ++ b) = envSize a + envSize b := by
  induction a with
  | nil => simp
  | cons v a ih =>
    rw [List.cons_append, envSize_cons, envSize_cons, ih]
    omega

theorem nulFree_cons {v : Bytes × Bytes} {vars : List (Bytes × Bytes)} :
    NulFree (v :: vars) ↔ (0 ∉ v.1 ∧ 0 ∉ v.2) ∧ NulFree vars := List.forall_mem_cons

theorem nulFree_append {a b : List (Bytes × Bytes)} : NulFree (a ++ b) ↔ NulFree a ∧ NulFree b := List.forall_mem_append

theorem except_bind_eq_ok {ε α β : Type} {x : Except ε α} {f : α → Except ε β} {b : β} :
    x >>= f = .ok b ↔ ∃ a, x = .ok a ∧ f a = .ok b := by
  cases x with
  | error e => exact ⟨fun h => (by cases h), fun ⟨_, h, _⟩ => (by cases h)⟩
  | ok a => exact ⟨fun h => ⟨a, rfl, h⟩, fun ⟨_, h, hf⟩ => by cases h; exact hf⟩

theorem pushEnv_eq_ok {total total' : Nat} {k v : Bytes} : pushEnv total k v = .ok total' ↔
    (0 ∉ k ∧ 0 ∉ v) ∧ total + (k.length + v.length) ≤ MAX_CHILD_ENV_BYTES ∧ total' = total + (k.length + v.length) := by
  rw [pushEnv]
  by_cases hnul : (k.contains 0 || v.contains 0) = true
  · rw [if_pos hnul]
    refine ⟨fun h => (by cases h), fun h => ?_⟩
    simp [h.1.1, h.1.2] at hnul
  · rw [if_neg hnul]
    simp only [Bool.or_eq_true, List.contains_iff_mem, not_or] at hnul
    by_cases hlarge : MAX_CHILD_ENV_BYTES < total + (k.length + v.length)
    · rw [if_pos hlarge]
      exact ⟨fun h => (by cases h), fun h => absurd hlarge (by omega)⟩
    · rw [if_neg hlarge, Except.ok.injEq]
      exact ⟨fun h => ⟨hnul, by omega, h.symm⟩, fun h => h.2.2.symm⟩

/-- What of the caller's environment is passed through. -/
theorem passEnv_eq_ok {selected : List String} {requestEnv : List (String × String)} {total total' : Nat}
    {out : List (Bytes × Bytes)} (htotal : total ≤ MAX_CHILD_ENV_BYTES) :
    passEnv selected total requestEnv = .ok (out, total') ↔ (∀ e ∈ requestEnv, e.1 ∉ selected) ∧ NulFree out ∧
      total + envSize out ≤ MAX_CHILD_ENV_BYTES ∧ total' = total + envSize out ∧
      out = (requestEnv.filter passes).map callerVar := by
  induction requestEnv generalizing total total' out with
  | nil =>
    rw [passEnv, Except.ok.injEq, Prod.mk.injEq]
    constructor
    · rintro ⟨rfl, rfl⟩
      exact ⟨fun _ h => (by cases h), fun _ h => (by cases h), by simpa using htotal, by simp, rfl⟩
    · rintro ⟨-, -, -, htotal', rfl⟩
      exact ⟨rfl, by simpa using htotal'.symm⟩
  | cons e rest ih =>
    obtain ⟨k, v⟩ := e
    rw [passEnv, List.forall_mem_cons]
    by_cases hselected : selected.contains k = true
    · rw [if_pos hselected]
      exact ⟨fun h => (by cases h), fun h => absurd (by simpa using hselected) h.1.1⟩
    · rw [if_neg hselected]
      have hk : k ∉ selected := by simpa using hselected
      by_cases hpass : (isForbiddenEnvName k || !ALLOWED_ENV.contains k) = true
      · have hdropped : passes (k, v) = false := by
          rw [passes, ← Bool.not_eq_true', Bool.not_and, Bool.not_not]
          exact hpass
        rw [if_pos hpass, ih htotal, List.filter_cons_of_neg (by simp [hdropped])]
        simp [hk]
      · have hkept : passes (k, v) = true := by
          rw [passes, ← Bool.not_eq_false', Bool.not_and, Bool.not_not]
          simpa using hpass
        rw [if_neg hpass, List.filter_cons_of_pos hkept, List.map_cons]
        have hsize : ∀ rest, envSize (callerVar (k, v) :: rest) = k.toUTF8.toList.length + v.toUTF8.toList.length +
          envSize rest :=
          fun _ => rfl
        rw [except_bind_eq_ok]
        constructor
        · rintro ⟨pushed, hpush, h⟩
          obtain ⟨hnul, hlarge, rfl⟩ := pushEnv_eq_ok.mp hpush
          obtain ⟨⟨out', total''⟩, hrest, h⟩ := except_bind_eq_ok.mp h
          cases h
          obtain ⟨hselected, hnuls, hlarge, rfl, rfl⟩ := (ih hlarge).mp hrest
          refine ⟨⟨hk, hselected⟩, nulFree_cons.mpr ⟨hnul, hnuls⟩, ?_, ?_, rfl⟩
          · exact (hsize _).symm ▸ by omega
          · exact (hsize _).symm ▸ by omega
        · rintro ⟨⟨-, hselected⟩, hnuls, hlarge, rfl, rfl⟩
          rw [nulFree_cons] at hnuls
          rw [hsize] at hlarge
          have hpush : pushEnv total k.toUTF8.toList v.toUTF8.toList =
              .ok (total + (k.toUTF8.toList.length + v.toUTF8.toList.length)) :=
            pushEnv_eq_ok.mpr ⟨hnuls.1, by omega, rfl⟩
          have hle : total + (k.toUTF8.toList.length + v.toUTF8.toList.length) ≤ MAX_CHILD_ENV_BYTES := by omega
          have hrest := (ih hle).mpr ⟨hselected, hnuls.2, by omega, rfl, rfl⟩
          refine ⟨_, hpush, except_bind_eq_ok.mpr ⟨_, hrest, ?_⟩⟩
          rw [hsize, Nat.add_assoc total]
          rfl

/-- The selected secrets are added as they are. -/
theorem secretEnv_eq_ok {secrets : List (String × Bytes)} {total : Nat} {out : List (Bytes × Bytes)}
    (htotal : total ≤ MAX_CHILD_ENV_BYTES) : secretEnv total secrets = .ok out ↔
      NulFree out ∧ total + envSize out ≤ MAX_CHILD_ENV_BYTES ∧ out = secrets.map secretVar := by
  induction secrets generalizing total out with
  | nil =>
    rw [secretEnv, Except.ok.injEq]
    constructor
    · rintro rfl
      exact ⟨fun _ h => (by cases h), by simpa using htotal, rfl⟩
    · rintro ⟨-, -, rfl⟩
      rfl
  | cons s rest ih =>
    obtain ⟨k, v⟩ := s
    have hsize : ∀ rest, envSize (secretVar (k, v) :: rest) = k.toUTF8.toList.length + v.length + envSize rest :=
      fun _ => rfl
    rw [secretEnv, except_bind_eq_ok, List.map_cons]
    constructor
    · rintro ⟨pushed, hpush, h⟩
      obtain ⟨hnul, hlarge, rfl⟩ := pushEnv_eq_ok.mp hpush
      obtain ⟨out', hrest, h⟩ := except_bind_eq_ok.mp h
      cases h
      obtain ⟨hnuls, hlarge, rfl⟩ := (ih hlarge).mp hrest
      refine ⟨nulFree_cons.mpr ⟨hnul, hnuls⟩, ?_, rfl⟩
      exact (hsize _).symm ▸ by omega
    · rintro ⟨hnuls, hlarge, rfl⟩
      rw [nulFree_cons] at hnuls
      rw [hsize] at hlarge
      have hpush : pushEnv total k.toUTF8.toList v = .ok (total + (k.toUTF8.toList.length + v.length)) :=
        pushEnv_eq_ok.mpr ⟨hnuls.1, by omega, rfl⟩
      exact ⟨_, hpush, except_bind_eq_ok.mpr ⟨_, (ih (by omega)).mpr ⟨hnuls.2, by omega, rfl⟩, rfl⟩⟩

/-- The environment that the child would get. -/
def childVars (requestEnv : List (String × String)) (secrets : List (String × Bytes)) : List (Bytes × Bytes) :=
  (requestEnv.filter passes).map callerVar ++ secrets.map secretVar

/-- There is an environment unless a variable of the caller collides with a secret, or what the child would get holds a
NUL or is too large. -/
theorem buildChildEnv_eq_ok {requestEnv : List (String × String)} {secrets : List (String × Bytes)}
    {out : List (Bytes × Bytes)} : buildChildEnv requestEnv secrets = .ok out ↔
      (∀ e ∈ requestEnv, ∀ s ∈ secrets, e.1 ≠ s.1) ∧ NulFree (childVars requestEnv secrets) ∧
      envSize (childVars requestEnv secrets) ≤ MAX_CHILD_ENV_BYTES ∧ out = childVars requestEnv secrets := by
  have hselected : (∀ e ∈ requestEnv, e.1 ∉ secrets.map (·.1)) ↔ ∀ e ∈ requestEnv, ∀ s ∈ secrets, e.1 ≠ s.1 := by
    simp only [List.mem_map, not_exists, not_and]
    exact forall_congr' fun e => forall_congr' fun _ => forall_congr' fun s => forall_congr' fun _ => ne_comm
  rw [buildChildEnv, except_bind_eq_ok, ← hselected, childVars, nulFree_append, envSize_append]
  constructor
  · rintro ⟨⟨passed, total⟩, hpass, h⟩
    obtain ⟨hselected, hnul, hsize, rfl, rfl⟩ := (passEnv_eq_ok (Nat.zero_le _)).mp hpass
    obtain ⟨added, hadd, h⟩ := except_bind_eq_ok.mp h
    cases h
    obtain ⟨hnul', hsize', rfl⟩ := (secretEnv_eq_ok hsize).mp hadd
    exact ⟨hselected, ⟨hnul, hnul'⟩, by omega, rfl⟩
  · rintro ⟨hselected, ⟨hnul, hnul'⟩, hsize, rfl⟩
    refine ⟨_, (passEnv_eq_ok (Nat.zero_le _)).mpr ⟨hselected, hnul, by omega, rfl, rfl⟩,
      except_bind_eq_ok.mpr ⟨_, ?_, rfl⟩⟩
    exact (secretEnv_eq_ok (by omega)).mpr ⟨hnul', by omega, rfl⟩

/-- Whether a name is forbidden does not depend on the case of its letters. -/
theorem isForbiddenEnvName_case {name name' : String}
    (h : name.toList.map Char.toUpper = name'.toList.map Char.toUpper) :
    isForbiddenEnvName name = isForbiddenEnvName name' := by
  have htoken : ∀ n : String, isForbiddenEnvName n =
      let upper := n.toList.map Char.toUpper
      "SVAULT_".toList.isPrefixOf upper || occursIn "TOKEN".toList upper || occursIn "PASSPHRASE".toList upper ||
        occursIn "INTERNAL".toList upper || "LD_".toList.isPrefixOf upper || "DYLD_".toList.isPrefixOf upper := by
    intro n
    rw [isForbiddenEnvName]
    by_cases hn : n = "SVAULT_TOKEN"
    · subst hn
      decide
    · rw [beq_eq_false_iff_ne.mpr hn, Bool.false_or]
  rw [htoken, htoken, h]

/-- The child gets every selected secret as it is, and of the caller's variables those on the allowlist whose names are
not forbidden in any case of their letters; a variable that is not passed through has no part in the result. There is no
environment exactly when a variable of the caller has the name of a selected secret, or what the child would get holds a
NUL or exceeds the cap. -/
theorem child_env_denies_by_default (requestEnv : List (String × String)) (secrets : List (String × Bytes)) :
    (∀ out, buildChildEnv requestEnv secrets = .ok out →
      (∀ s ∈ secrets, (s.1.toUTF8.toList, s.2) ∈ out) ∧
      (∀ v ∈ out, (∃ s ∈ secrets, v = (s.1.toUTF8.toList, s.2)) ∨
        ∃ e ∈ requestEnv, v = (e.1.toUTF8.toList, e.2.toUTF8.toList) ∧ e.1 ∈ ALLOWED_ENV ∧
          ∀ name, name.toList.map Char.toUpper = e.1.toList.map Char.toUpper → isForbiddenEnvName name = false) ∧
      (∀ e ∈ requestEnv, ∀ s ∈ secrets, e.1 ≠ s.1) ∧
      (∀ v ∈ out, 0 ∉ v.1 ∧ 0 ∉ v.2) ∧
      envSize out ≤ MAX_CHILD_ENV_BYTES ∧
      ∀ requestEnv', requestEnv'.filter (fun e => ALLOWED_ENV.contains e.1) =
          requestEnv.filter (fun e => ALLOWED_ENV.contains e.1) →
        (∀ e ∈ requestEnv', ∀ s ∈ secrets, e.1 ≠ s.1) → buildChildEnv requestEnv' secrets = .ok out) ∧
    ((∃ err, buildChildEnv requestEnv secrets = .error err) ↔
      (∃ e ∈ requestEnv, ∃ s ∈ secrets, e.1 = s.1) ∨ ¬NulFree (childVars requestEnv secrets) ∨
      MAX_CHILD_ENV_BYTES < envSize (childVars requestEnv secrets)) := by
  refine ⟨fun out h => ?_, ?_⟩
  · obtain ⟨hcollide, hnul, hsize, rfl⟩ := buildChildEnv_eq_ok.mp h
    refine ⟨fun s hs => ?_, fun v hv => ?_, hcollide, hnul, hsize, fun requestEnv' hallowed hcollide' => ?_⟩
    · exact List.mem_append_right _ (List.mem_map_of_mem hs)
    · rcases List.mem_append.mp hv with hv | hv
      · obtain ⟨e, he, rfl⟩ := List.mem_map.mp hv
        obtain ⟨he, hpass⟩ := List.mem_filter.mp he
        rw [passes, Bool.and_eq_true, Bool.not_eq_true'] at hpass
        exact Or.inr ⟨e, he, rfl, by simpa using hpass.2,
          fun name hname => (isForbiddenEnvName_case hname).trans hpass.1⟩
      · obtain ⟨s, hs, rfl⟩ := List.mem_map.mp hv
        exact Or.inl ⟨s, hs, rfl⟩
    · have hpasses : ∀ env : List (String × String), env.filter passes =
          (env.filter fun e => ALLOWED_ENV.contains e.1).filter fun e => !isForbiddenEnvName e.1 := by
        intro env
        rw [List.filter_filter]
        rfl
      have hvars : childVars requestEnv' secrets = childVars requestEnv secrets := by
        rw [childVars, childVars, hpasses, hpasses, hallowed]
      exact buildChildEnv_eq_ok.mpr ⟨hcollide', hvars ▸ hnul, hvars ▸ hsize, hvars.symm⟩
  · have hok : (∃ err, buildChildEnv requestEnv secrets = .error err) ↔ ¬∃ out, buildChildEnv requestEnv secrets =
      .ok out := by
      cases buildChildEnv requestEnv secrets with
      | error err => exact ⟨fun _ ⟨_, h⟩ => (by cases h), fun _ => ⟨err, rfl⟩⟩
      | ok out => exact ⟨fun ⟨_, h⟩ => (by cases h), fun h => absurd ⟨out, rfl⟩ h⟩
    rw [hok]
    simp only [buildChildEnv_eq_ok, exists_and_left, exists_eq, and_true, not_and_or, not_forall, Nat.not_le,
      exists_prop, ne_eq, not_not]

/-! ## Parameters that are accepted -/

/-- The bytes of some strings. -/
def textSize (l : List String) : Nat := l.foldr (fun s n => s.utf8ByteSize + n) 0

/-- What a run asks for is within the limits, and holds no NUL. -/
structure RunParams.Wf (p : RunParams) : Prop where
  project : validProjectName p.project = true
  executable : p.executable ≠ "" ∧ p.executable.utf8ByteSize ≤ MAX_EXECUTABLE_BYTES ∧ hasNul p.executable = false
  argv : p.argv ≠ [] ∧ p.argv.length ≤ MAX_ARGV_ENTRIES ∧ textSize p.argv ≤ MAX_ARGV_BYTES ∧ ∀ s ∈ p.argv,
    hasNul s = false
  cwd : ∀ c, p.cwd = some c → c ≠ "" ∧ hasNul c = false
  keys : ∀ ks, p.keys = some ks → ks.length ≤ MAX_KEYS ∧ ∀ k ∈ ks, validKey k = true
  env : p.env.length ≤ MAX_ENV_ENTRIES ∧ textSize (p.env.flatMap fun e => [e.1, e.2]) ≤ MAX_ENV_BYTES ∧
    ∀ e ∈ p.env, e.1 ≠ "" ∧ hasNul e.1 = false ∧ hasNul e.2 = false
  timeoutSecs : ∀ t, p.timeoutSecs = some t → 0 < t ∧ t ≤ MAX_DURATION_SECS

theorem parseArgv_eq_ok {items : List Value} {bytes : Nat} {argv : List String} (h : parseArgv bytes items = .ok argv) :
    argv.length = items.length ∧ (bytes ≤ MAX_ARGV_BYTES → bytes + textSize argv ≤ MAX_ARGV_BYTES) ∧
      ∀ s ∈ argv, hasNul s = false := by
  induction items generalizing bytes argv with
  | nil =>
    cases h
    exact ⟨rfl, id, fun _ hs => by cases hs⟩
  | cons item rest ih =>
    rw [parseArgv] at h
    split at h; · cases h
    rename_i s _
    split at h; · cases h
    rename_i hnul
    split at h; · cases h
    rename_i hlarge
    obtain ⟨argv', hrest, h⟩ := except_bind_eq_ok.mp h
    cases h
    obtain ⟨hlen, hsize, hnuls⟩ := ih hrest
    refine ⟨by rw [List.length_cons, List.length_cons, hlen], fun _ => ?_,
      List.forall_mem_cons.mpr ⟨by simpa using hnul, hnuls⟩⟩
    have hsize := hsize (Nat.not_lt.mp hlarge)
    rwa [Nat.add_assoc] at hsize

theorem parseKeys_eq_ok {items : List Value} {keys : List String} (h : parseKeys items = .ok keys) :
    keys.length = items.length ∧ ∀ k ∈ keys, validKey k = true := by
  induction items generalizing keys with
  | nil =>
    cases h
    exact ⟨rfl, fun _ hs => by cases hs⟩
  | cons item rest ih =>
    rw [parseKeys] at h
    split at h; · cases h
    split at h; · cases h
    rename_i hvalid
    obtain ⟨keys', hrest, h⟩ := except_bind_eq_ok.mp h
    cases h
    obtain ⟨hlen, hkeys⟩ := ih hrest
    exact ⟨by rw [List.length_cons, List.length_cons, hlen], List.forall_mem_cons.mpr ⟨by simpa using hvalid, hkeys⟩⟩

theorem parseEnv_eq_ok {entries : List (String × Value)} {bytes : Nat} {env : List (String × String)}
    (h : parseEnv bytes entries = .ok env) : env.length = entries.length ∧
      (bytes ≤ MAX_ENV_BYTES → bytes + textSize (env.flatMap fun e => [e.1, e.2]) ≤ MAX_ENV_BYTES) ∧
      ∀ e ∈ env, e.1 ≠ "" ∧ hasNul e.1 = false ∧ hasNul e.2 = false := by
  induction entries generalizing bytes env with
  | nil =>
    cases h
    exact ⟨rfl, id, fun _ hs => by cases hs⟩
  | cons entry rest ih =>
    obtain ⟨k, v⟩ := entry
    rw [parseEnv] at h
    split at h; · cases h
    rename_i s _
    split at h; · cases h
    rename_i hnul
    split at h; · cases h
    rename_i hlarge
    obtain ⟨env', hrest, h⟩ := except_bind_eq_ok.mp h
    cases h
    obtain ⟨hlen, hsize, hnuls⟩ := ih hrest
    simp only [Bool.or_eq_true, not_or, Bool.not_eq_true, String.isEmpty_eq_false_iff] at hnul
    refine ⟨by rw [List.length_cons, List.length_cons, hlen], fun _ => ?_,
      List.forall_mem_cons.mpr ⟨⟨hnul.1.1, hnul.1.2, hnul.2⟩, hnuls⟩⟩
    have hsize := hsize (Nat.not_lt.mp hlarge)
    rwa [Nat.add_assoc, Nat.add_assoc] at hsize

theorem parseCwd_eq_ok {params : Value} {cwd : Option String} (h : parseCwd params = .ok cwd) :
    ∀ c, cwd = some c → c ≠ "" ∧ hasNul c = false := by
  rintro c rfl
  unfold parseCwd at h
  split at h; · cases h
  split at h; · cases h
  split at h; · cases h
  rename_i hnul
  cases h
  simpa using hnul

theorem parseTimeout_eq_ok {params : Value} {timeout : Option Nat} (h : parseTimeout params = .ok timeout) :
    ∀ t, timeout = some t → 0 < t ∧ t ≤ MAX_DURATION_SECS := by
  rintro t rfl
  unfold parseTimeout at h
  split at h; · cases h
  split at h; · cases h
  split at h; · cases h
  rename_i hrange
  cases h
  omega

theorem parseSelection_eq_ok {params : Value} {keys : Option (List String)} (h : parseSelection params = .ok keys) :
    ∀ ks, keys = some ks → ks.length ≤ MAX_KEYS ∧ ∀ k ∈ ks, validKey k = true := by
  rintro ks rfl
  unfold parseSelection at h
  split at h; · cases h
  split at h; · cases h
  split at h; · cases h
  rename_i items _ hmany
  cases hkeys : parseKeys items with
  | error e =>
    rw [hkeys] at h
    cases h
  | ok ks' =>
    rw [hkeys] at h
    cases h
    obtain ⟨hlen, hvalid⟩ := parseKeys_eq_ok hkeys
    exact ⟨by omega, hvalid⟩

theorem parseCallerEnv_eq_ok {params : Value} {env : List (String × String)} (h : parseCallerEnv params = .ok env) :
    env.length ≤ MAX_ENV_ENTRIES ∧ textSize (env.flatMap fun e => [e.1, e.2]) ≤ MAX_ENV_BYTES ∧
      ∀ e ∈ env, e.1 ≠ "" ∧ hasNul e.1 = false ∧ hasNul e.2 = false := by
  unfold parseCallerEnv at h
  split at h
  · cases h
    exact ⟨Nat.zero_le _, Nat.zero_le _, fun _ he => by cases he⟩
  · split at h; · cases h
    split at h; · cases h
    rename_i entries _ hmany
    obtain ⟨hlen, hsize, hnul⟩ := parseEnv_eq_ok h
    exact ⟨by omega, by simpa using hsize (Nat.zero_le _), hnul⟩

/-- What is accepted is well formed. -/
theorem parseRunParams_wf {params : Value} {p : RunParams} (h : parseRunParams params = .ok p) : p.Wf := by
  unfold parseRunParams at h
  split at h; · cases h
  split at h; · cases h
  split at h; · cases h
  rename_i hproject
  split at h; · cases h
  split at h; · cases h
  rename_i hexecutable
  split at h; · cases h
  split at h; · cases h
  split at h; · cases h
  rename_i hargv
  obtain ⟨argv, hparsed, h⟩ := except_bind_eq_ok.mp h
  obtain ⟨cwd, hcwd, h⟩ := except_bind_eq_ok.mp h
  obtain ⟨keys, hkeys, h⟩ := except_bind_eq_ok.mp h
  obtain ⟨env, henv, h⟩ := except_bind_eq_ok.mp h
  obtain ⟨timeoutSecs, htimeout, h⟩ := except_bind_eq_ok.mp h
  cases h
  simp only [Bool.or_eq_true, decide_eq_true_eq, not_or, Bool.not_eq_true, String.isEmpty_eq_false_iff, Nat.not_lt]
    at hexecutable
  simp only [Bool.or_eq_true, decide_eq_true_eq, not_or, Bool.not_eq_true, List.isEmpty_eq_false_iff,
    Nat.not_lt] at hargv
  obtain ⟨hlen, hsize, hnul⟩ := parseArgv_eq_ok hparsed
  refine ⟨by simpa using hproject, ⟨hexecutable.1.1, hexecutable.1.2, hexecutable.2⟩,
    ⟨?_, hlen ▸ hargv.2, by simpa using hsize (Nat.zero_le _), hnul⟩, parseCwd_eq_ok hcwd, parseSelection_eq_ok hkeys,
    parseCallerEnv_eq_ok henv, parseTimeout_eq_ok htimeout⟩
  exact List.ne_nil_of_length_pos (hlen ▸ List.length_pos_of_ne_nil hargv.1)

/-! ### Its environment -/

theorem nulFree_text {s : String} (h : hasNul s = false) : 0 ∉ s.toUTF8.toList := by
  rw [hasNul, List.contains_eq_mem, decide_eq_false_iff_not] at h
  rw [byteArray_toList]
  exact ascii_not_mem_toUTF8 (by decide) h

theorem length_text (s : String) : s.toUTF8.toList.length = s.utf8ByteSize := by
  rw [byteArray_toList]
  rfl

/-- What is passed through is no more than what was sent. -/
theorem envSize_passed (env : List (String × String)) :
    envSize ((env.filter passes).map callerVar) ≤ textSize (env.flatMap fun e => [e.1, e.2]) := by
  induction env with
  | nil => exact Nat.le_refl _
  | cons e env ih =>
    have hsize : textSize ((e :: env).flatMap fun e => [e.1, e.2]) =
        e.1.utf8ByteSize + e.2.utf8ByteSize + textSize (env.flatMap fun e => [e.1, e.2]) := by
      simp [textSize, Nat.add_assoc]
    rw [hsize, List.filter_cons]
    split
    · rw [List.map_cons, envSize_cons, callerVar, length_text, length_text]
      omega
    · omega

/-- Where a request was accepted, its own variables are never what there is no environment for, unless one has the name
of a selected secret. -/
theorem buildChildEnv_accepted {params : Value} {p : RunParams} {secrets : List (String × Bytes)}
    (h : parseRunParams params = .ok p) (hcollide : ∀ e ∈ p.env, ∀ s ∈ secrets, e.1 ≠ s.1)
    (hnul : NulFree (secrets.map secretVar))
    (hsize : MAX_ENV_BYTES + envSize (secrets.map secretVar) ≤ MAX_CHILD_ENV_BYTES) :
    buildChildEnv p.env secrets = .ok (childVars p.env secrets) := by
  obtain ⟨-, hbytes, hvars⟩ := (parseRunParams_wf h).env
  have hpassed : NulFree ((p.env.filter passes).map callerVar) := by
    intro v hv
    obtain ⟨e, he, rfl⟩ := List.mem_map.mp hv
    obtain ⟨-, hname, hvalue⟩ := hvars e (List.mem_filter.mp he).1
    exact ⟨nulFree_text hname, nulFree_text hvalue⟩
  refine buildChildEnv_eq_ok.mpr ⟨hcollide, nulFree_append.mpr ⟨hpassed, hnul⟩, ?_, rfl⟩
  rw [childVars, envSize_append]
  have := envSize_passed p.env
  omega

end SecretsVault
