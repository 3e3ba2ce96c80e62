import SecretsVault.Folders
import SecretsVault.History
import SecretsVault.Progress

/-!
# Publication of a file

What an injection does to the files, whatever call to the kernel fails: one file is published as a whole, or nothing is
changed. Which folder it is published in depends on what fails.

- `Lands h folder relative`: the folder admits the destination, and what it takes to publish there does not fail.
- `Refuses h folder relative`: it does not resolve there, for another reason than a failure of the system.
- `injectUnder_run`: in one folder, a file is published exactly where it lands; otherwise nothing changes.
- `Reported`: how an injection should end. `inject_reported_iff`: it does so unless a failure in the first folder that
  admits the destination is followed by a folder where it lands.
-/

namespace SecretsVault

open Lib Lib.Prog Host

def ENOSPC : Nat := 28
def EFBIG : Nat := 27
def EDQUOT : Nat := 122

/-! ## What the writing takes -/

namespace Host

/-- The host behind some draws and calls. -/
def passed (h : Host) (k : Nat) : Host :=
  { h with rng := fun i => h.rng (i + k), syscalls := fun i => h.syscalls (i + k) }

variable {h : Host}

@[simp] theorem passed_zero (h : Host) : h.passed 0 = h := rfl

theorem passed_passed (h : Host) (n k : Nat) : (h.passed n).passed k = h.passed (n + k) := by
  simp only [passed, Nat.add_assoc, Nat.add_comm k n]

/-- How many tries it takes to create a temporary file, if one of `n` tries succeeds. -/
def tries (target : ContainedTarget) : Nat → Host → Option Nat
  | 0, _ => none
  | n + 1, h =>
    match h.rng 0, h.syscalls 0 with
    | none, _ => none
    | some _, some e => if e.errno = some EEXIST then (tries target n (h.passed 1)).map (· + 1) else none
    | some f, none =>
      if (h.fs.node (target.temp ⟨List.ofFn fun i : Fin 8 => f i, by simp⟩)).isNone then some 1
      else (tries target n (h.passed 1)).map (· + 1)

/-- Creating, writing, syncing and renaming do not fail. -/
def Writes (h : Host) (target : ContainedTarget) : Prop :=
  ∃ k, h.tries target 5 = some k ∧ ∀ i < 3, h.syscalls (k + i) = none

end Host

variable {h : Host} {target : ContainedTarget} {folder : Path} {relative : String} {bytes : Bytes}

theorem temp_ne_dest (target : ContainedTarget) (suffix : FixedBytes 8) : target.temp suffix ≠ target.dest := by
  intro heq
  have hname := List.append_cancel_left heq
  have hlen := congrArg String.length (List.singleton_inj.mp hname)
  simp only [String.length_append] at hlen
  have hdot : ".".length = 1 := rfl
  omega

/-- A failure that is no taken name ends the tries. -/
theorem lastOsError_taken {e : IoError} {errno : Nat} {text : String} (h : e.lastOsError = .io (some errno) text) :
    e.errno = some errno := by
  unfold IoError.lastOsError IoError.toVaultError at h
  split at h
  · cases h
  · injection h

/-- How one try to create a temporary file ends: it is created, its name was taken, or the tries are over. -/
theorem createTemp_try (target : ContainedTarget) (n : Nat) (h : Host) :
    (∃ tmp, (createTemp target (n + 1)).run h = (.ok tmp, { h.passed 1 with fs := h.fs.set tmp (some (.file [])) }) ∧
      h.fs.node tmp = none ∧ tmp ≠ target.dest ∧ h.tries target (n + 1) = some 1) ∨
    ((createTemp target (n + 1)).run h = (createTemp target n).run (h.passed 1) ∧
      h.tries target (n + 1) = ((h.passed 1).tries target n).map (· + 1)) ∨
    ∃ e h', (createTemp target (n + 1)).run h = (.error e, h') ∧ h'.fs = h.fs ∧ h.tries target (n + 1) = none := by
  rw [tries]
  cases hrng : h.rng 0 with
  | none =>
    refine Or.inr (Or.inr ⟨.io none "csprng failure", { h with rng := fun i => h.rng (i + 1) }, ?_, rfl, rfl⟩)
    rw [createTemp, run_bind, randomBytes, run_step, hrng]
  | some f =>
    let b : FixedBytes 8 := ⟨List.ofFn fun i : Fin 8 => f i, by simp⟩
    have hdraw : (randomBytes 8).run h = (.ok b, { h with rng := fun i => h.rng (i + 1) }) := by
      rw [randomBytes, run_step, hrng]
    cases hcall : h.syscalls 0 with
    | some e =>
      have hcalled : syscall.attempt.run { h with rng := fun i => h.rng (i + 1) } =
        (.ok (.error e.lastOsError), h.passed 1) := by
        rw [run_attempt, syscall, run_step]
        dsimp only
        rw [hcall]
        rfl
      dsimp only
      by_cases hexist : e.errno = some EEXIST
      · have hio : e.lastOsError = .io (some EEXIST) e.text := by
          rw [IoError.lastOsError, if_neg (by rw [hexist]; decide), IoError.toVaultError, hexist]
        rw [if_pos hexist, createTemp, run_bind_ok hdraw, run_bind_ok hcalled, hio]
        refine Or.inr (Or.inl ⟨?_, rfl⟩)
        dsimp only
        rw [if_pos rfl]
      · refine Or.inr (Or.inr ⟨e.lastOsError, h.passed 1, ?_, rfl, if_neg hexist⟩)
        rw [createTemp, run_bind_ok hdraw, run_bind_ok hcalled]
        dsimp only
        cases he : e.lastOsError with
        | io errno text =>
          cases errno with
          | none => rfl
          | some errno =>
            have hne : errno ≠ EEXIST := fun heq => hexist (heq ▸ lastOsError_taken he)
            dsimp only
            rw [if_neg hne]
            rfl
        | _ => rfl
    | none =>
      have hcalled : syscall.attempt.run { h with rng := fun i => h.rng (i + 1) } = (.ok (.ok ()), h.passed 1) := by
        rw [run_attempt, syscall, run_step]
        dsimp only
        rw [hcall]
        rfl
      dsimp only
      rw [createTemp, run_bind_ok hdraw]
      dsimp only
      rw [run_bind_ok hcalled]
      dsimp only
      rw [run_get_bind]
      cases hnode : h.fs.node (target.temp b) with
      | none =>
        rw [show (h.passed 1).fs.node (target.temp b) = none from hnode]
        exact Or.inl ⟨_, rfl, hnode, temp_ne_dest target b, rfl⟩
      | some node =>
        rw [show (h.passed 1).fs.node (target.temp b) = some node from hnode]
        exact Or.inr (Or.inl ⟨rfl, rfl⟩)

/-- A temporary file is created under a free name, or nothing is changed. -/
theorem createTemp_run (target : ContainedTarget) (n : Nat) (h : Host) :
    (∀ k, h.tries target n = some k → ∃ tmp, (createTemp target n).run h =
      (.ok tmp, { h.passed k with fs := h.fs.set tmp (some (.file [])) }) ∧ h.fs.node tmp = none ∧ tmp ≠ target.dest) ∧
    (h.tries target n = none → ∃ e h', (createTemp target n).run h = (.error e, h') ∧ h'.fs = h.fs) := by
  induction n generalizing h with
  | zero => exact ⟨fun k hk => (nomatch hk), fun _ => ⟨_, _, rfl, rfl⟩⟩
  | succ n ih =>
    rcases createTemp_try target n h with
      ⟨tmp, hrun, hfree, hne, htries⟩ | ⟨hrun, htries⟩ | ⟨e, h', hrun, hfs, htries⟩ <;>
      rw [htries, hrun]
    · refine ⟨fun k hk => ?_, fun hnone => nomatch hnone⟩
      cases hk
      exact ⟨tmp, rfl, hfree, hne⟩
    · obtain ⟨hcreated, hfailed⟩ := ih (h.passed 1)
      refine ⟨fun k hk => ?_, fun hnone => hfailed (Option.map_eq_none_iff.mp hnone)⟩
      obtain ⟨j, hj, rfl⟩ := Option.map_eq_some_iff.mp hk
      obtain ⟨tmp, hrun, hfree, hne⟩ := hcreated j hj
      refine ⟨tmp, ?_, hfree, hne⟩
      rw [hrun, passed_passed, Nat.add_comm 1 j]
      rfl
    · exact ⟨fun k hk => (nomatch hk), fun _ => ⟨e, h', rfl, hfs⟩⟩

/-! ## Publication at a destination -/

namespace FileSystem

variable {fs : FileSystem} {p q : List String} {a b : Option Node}

@[simp] theorem set_set (fs : FileSystem) (p : List String) (a b : Option Node) :
    (fs.set p a).set p b = fs.set p b := by
  simp only [set, mk.injEq, and_true]
  funext x
  by_cases hx : x = p <;> simp [hx]

theorem set_comm (hne : p ≠ q) : (fs.set p a).set q b = (fs.set q b).set p a := by
  simp only [set, mk.injEq, and_true]
  funext x
  by_cases hx : x = p
  · subst hx
    simp [hne]
  · simp [hx]

/-- What was not there is not missed. -/
theorem set_none (h : fs.node p = none) : fs.set p none = fs := by
  cases fs
  simp only [set, mk.injEq, and_true]
  funext x
  by_cases hx : x = p
  · rw [if_pos hx, hx]
    exact h.symm
  · exact if_neg hx

end FileSystem

/-- A temporary file whose step fails is removed. -/
theorem removingTemp_run {tmp : List String} {m : Prog VaultError Host Unit} {h' : Host} :
    (m.run h = (.ok (), h') → (removingTemp tmp m).run h = (.ok (), h')) ∧
    ∀ e, m.run h = (.error e, h') → (removingTemp tmp m).run h = (.error e, { h' with fs := h'.fs.set tmp none }) := by
  refine ⟨fun hm => ?_, fun e hm => ?_⟩ <;> rw [removingTemp, run_bind, run_attempt, hm] <;> rfl

theorem ioCall_run (h : Host) : (h.syscalls 0 = none → ioCall.run h = (.ok (), h.spent 1)) ∧
    ∀ e, h.syscalls 0 = some e → ioCall.run h = (.error e.toVaultError, h.spent 1) := by
  refine ⟨fun hcall => ?_, fun e hcall => ?_⟩ <;> rw [ioCall, run_step, hcall] <;> rfl

/-- The file is written, or all that is changed is the temporary file. -/
theorem fillTemp_run (tmp : List String) (bytes : Bytes) (h : Host) :
    (h.Answers 2 → (fillTemp tmp bytes).run h = (.ok (), { h.spent 2 with fs := h.fs.set tmp (some (.file bytes)) })) ∧
    (¬h.Answers 2 → ∃ e h', (fillTemp tmp bytes).run h = (.error e, h') ∧ h'.fs.set tmp none = h.fs.set tmp none) := by
  rw [fillTemp, run_bind]
  cases hwrite : h.syscalls 0 with
  | some e =>
    rw [(ioCall_run h).2 e hwrite]
    refine ⟨fun ha => ?_, fun _ => ⟨_, _, rfl, rfl⟩⟩
    rw [ha 0 (by omega)] at hwrite
    cases hwrite
  | none =>
    rw [(ioCall_run h).1 hwrite]
    dsimp only
    rw [setNode, run_modify_bind]
    cases hsync : h.syscalls 1 with
    | some e =>
      rw [(ioCall_run _).2 e hsync]
      refine ⟨fun ha => ?_, fun _ => ⟨_, _, rfl, FileSystem.set_set _ _ _ _⟩⟩
      rw [ha 1 (by omega)] at hsync
      cases hsync
    | none =>
      rw [(ioCall_run _).1 hsync]
      refine ⟨fun _ => rfl, fun hnot => (hnot fun i hi => ?_).elim⟩
      rcases Nat.lt_succ_iff_lt_or_eq.mp hi with hi | rfl
      · rw [Nat.lt_one_iff.mp hi]
        exact hwrite
      · exact hsync

/-- The file is renamed, or nothing is changed. -/
theorem renameTemp_run (tmp dest : List String) (bytes : Bytes) (h : Host) :
    (h.syscalls 0 = none → (renameTemp tmp dest bytes).run h =
      (.ok (), { h.spent 1 with fs := (h.fs.set dest (some (.file bytes))).set tmp none })) ∧
    (h.syscalls 0 ≠ none → ∃ e h', (renameTemp tmp dest bytes).run h = (.error e, h') ∧ h'.fs = h.fs) := by
  have hasks := asks_syscall h
  cases hcall : h.syscalls 0 with
  | none =>
    have hrun := hasks.through fun i hi => by rw [Nat.lt_one_iff.mp hi]; exact hcall
    rw [renameTemp, run_bind_ok hrun]
    exact ⟨fun _ => rfl, fun hne => (hne rfl).elim⟩
  | some e =>
    have hrun := hasks.stopped (Nat.lt_one_iff.mpr rfl) (fun i hi => absurd hi (Nat.not_lt_zero i)) hcall
    rw [renameTemp, run_bind_error hrun]
    exact ⟨fun hnone => (nomatch hnone), fun _ => ⟨_, _, rfl, rfl⟩⟩

/-- A file is published where creating, writing, syncing and renaming do not fail; otherwise nothing is changed. -/
theorem writeFileAtomic_run (hnul : hasNul target.fileName = false) :
    (h.fs.replaceable target.dest = true → h.Writes target → ∃ h', (writeFileAtomic target bytes).run h = (.ok (), h') ∧
      h'.fs = h.fs.set target.dest (some (.file bytes))) ∧
    (¬(h.fs.replaceable target.dest = true ∧ h.Writes target) → ∃ e h', (writeFileAtomic target bytes).run h =
      (.error e, h') ∧ h'.fs = h.fs) := by
  rw [writeFileAtomic, show target.fileName.toList.contains '\x00' = false from hnul, if_neg Bool.false_ne_true,
    run_get_bind]
  cases hreplace : h.fs.replaceable target.dest with
  | false => exact ⟨fun hfalse => (nomatch hfalse), fun _ => ⟨_, _, rfl, rfl⟩⟩
  | true =>
    rw [Bool.not_true, if_neg Bool.false_ne_true]
    obtain ⟨hcreated, hfailed⟩ := createTemp_run target 5 h
    cases htries : h.tries target 5 with
    | none =>
      obtain ⟨e, h', hrun, hfs⟩ := hfailed htries
      rw [run_bind_error hrun]
      refine ⟨fun _ hwrites => ?_, fun _ => ⟨e, h', rfl, hfs⟩⟩
      obtain ⟨k, hk, -⟩ := hwrites
      rw [htries] at hk
      cases hk
    | some k =>
      obtain ⟨tmp, hrun, hfree, hne⟩ := hcreated k htries
      rw [run_bind_ok hrun]
      set h1 : Host := { h.passed k with fs := h.fs.set tmp (some (.file [])) }
      have hgone : h1.fs.set tmp none = h.fs := by rw [FileSystem.set_set, FileSystem.set_none hfree]
      have hcall : ∀ i, h1.syscalls i = h.syscalls (k + i) := fun i => by rw [Nat.add_comm k i]; rfl
      have hwrites : h.Writes target ↔ h1.Answers 2 ∧ h1.syscalls 2 = none := by
        constructor
        · rintro ⟨j, hj, hanswers⟩
          rw [htries] at hj
          cases hj
          exact ⟨fun i hi => by rw [hcall]; exact hanswers i (by omega), by rw [hcall]; exact hanswers 2 (by omega)⟩
        · rintro ⟨hanswers, hlast⟩
          refine ⟨k, htries, fun i hi => ?_⟩
          rw [← hcall]
          rcases Nat.lt_succ_iff_lt_or_eq.mp hi with hi | rfl
          · exact hanswers i hi
          · exact hlast
      obtain ⟨hfilled, hunfilled⟩ := fillTemp_run tmp bytes h1
      by_cases hanswers : h1.Answers 2
      · rw [run_bind_ok (removingTemp_run.1 (hfilled hanswers))]
        set h2 : Host := { h1.spent 2 with fs := h1.fs.set tmp (some (.file bytes)) }
        obtain ⟨hrenamed, hkept⟩ := renameTemp_run tmp target.dest bytes h2
        by_cases hlast : h1.syscalls 2 = none
        · rw [removingTemp_run.1 (hrenamed hlast)]
          refine ⟨fun _ _ => ⟨_, rfl, ?_⟩, fun hnot => (hnot ⟨rfl, hwrites.mpr ⟨hanswers, hlast⟩⟩).elim⟩
          change (((h.fs.set tmp (some (.file []))).set tmp (some (.file bytes))).set target.dest
            (some (.file bytes))).set tmp none = _
          rw [FileSystem.set_set, FileSystem.set_comm hne, FileSystem.set_set, ← FileSystem.set_comm hne,
            FileSystem.set_none hfree]
        · obtain ⟨e, h3, hrun3, hfs⟩ := hkept hlast
          rw [removingTemp_run.2 e hrun3]
          refine ⟨fun _ hw => (hlast (hwrites.mp hw).2).elim, fun _ => ⟨e, _, rfl, ?_⟩⟩
          change h3.fs.set tmp none = _
          rw [hfs]
          change (h1.fs.set tmp (some (.file bytes))).set tmp none = _
          rw [FileSystem.set_set, hgone]
      · obtain ⟨e, h2, hrun2, hfs⟩ := hunfilled hanswers
        rw [run_bind_error (removingTemp_run.2 e hrun2)]
        exact ⟨fun _ hw => (hanswers (hwrites.mp hw).1).elim, fun _ => ⟨e, _, rfl, hfs.trans hgone⟩⟩

/-! ## Resolution of a destination -/

/-- A directory that opens is opened at the names of its path. -/
theorem openat2Dir_eq_ok {root dir : List String} {path : String} {h' : Host} (hparent : ".." ∉ splitPath path)
    (hr : (openat2Dir root path).run h = (.ok dir, h')) : dir = root ++ pathNames path := by
  rw [openat2Dir] at hr
  split at hr
  · cases hr
  obtain ⟨_, h1, -, hr⟩ := bind_eq_ok hr
  rw [run_get_bind] at hr
  split at hr
  · cases hr
  cases hwalk : h1.fs.walkBeneath root [] (splitPath path) with
  | error errno =>
    rw [hwalk] at hr
    cases hr
  | ok found =>
    rw [hwalk] at hr
    cases hr
    have hdir := ((FileSystem.walkBeneath_eq_ok_iff hparent).mp hwalk).2
    rwa [List.append_nil] at hdir

/-- What stands for no component does not count at the ends either. -/
theorem filter_dropWhile_void (parts : List String) :
    (parts.dropWhile isVoidPart).filter (fun part => !isVoidPart part) = parts.filter fun part => !isVoidPart part := by
  induction parts with
  | nil => rfl
  | cons part parts ih =>
    by_cases hvoid : isVoidPart part = true
    · rw [List.dropWhile_cons_of_pos hvoid, List.filter_cons_of_neg (by simp [hvoid]), ih]
    · rw [List.dropWhile_cons_of_neg hvoid]

/-- The names of a folder are those behind its root. -/
theorem pathNames_stripRoot (folder : Path) : pathNames (stripRoot folder) = pathNames folder := by
  set front := (splitPath folder).dropWhile isVoidPart with hfront
  set trimmed := (front.reverse.dropWhile isVoidPart).reverse with htrimmed
  have hnames : trimmed.filter (fun part => !isVoidPart part) = pathNames folder := by
    rw [htrimmed, List.filter_reverse, filter_dropWhile_void, List.filter_reverse, List.reverse_reverse, hfront,
      filter_dropWhile_void]
    rfl
  by_cases hne : trimmed = []
  · rw [← hnames, hne, stripRoot, ← hfront, ← htrimmed, hne]
    decide
  · have hslash : ∀ n ∈ trimmed, '/' ∉ n.toList := by
      intro n hn
      have hmem : n ∈ front := by simpa using List.dropWhile_subset _ (List.mem_reverse.mp hn)
      exact slash_not_mem_splitPath (List.dropWhile_subset _ hmem)
    rw [pathNames, stripRoot, ← hfront, ← htrimmed, splitPath_intercalate hne hslash, hnames]

/-- A folder that opens is opened at its own names. -/
theorem openContainmentRoot_eq_ok {dir : List String} {h' : Host}
    (hr : (openContainmentRoot folder).run h = (.ok dir, h')) :
    dir = pathNames folder := by
  rw [openContainmentRoot] at hr
  split at hr
  · cases hr
  obtain ⟨_, h1, -, hr⟩ := bind_eq_ok hr
  dsimp only at hr
  split at hr
  · cases hr
  rename_i hplain
  have hparent : ".." ∉ splitPath (stripRoot folder) :=
    fun hmem => hplain (List.any_eq_true.mpr ⟨"..", hmem, by decide⟩)
  rw [openat2Dir_eq_ok hparent hr, List.nil_append, pathNames_stripRoot]

/-- What a relative destination may be. -/
theorem validateRelative_eq_ok (hr : validateRelative relative = .ok ()) : hasNul relative = false ∧
    isAbsolute relative = false ∧ ".." ∉ pathNames relative := by
  unfold validateRelative at hr
  split at hr
  · cases hr
  split at hr
  · cases hr
  rename_i hnul
  split at hr
  · cases hr
  rename_i habs
  split at hr
  · cases hr
  rename_i hnormal
  refine ⟨by simpa [hasNul] using hnul, by simpa using habs, fun hmem => hnormal ?_⟩
  exact List.any_eq_true.mpr ⟨.parentDir, parentDir_mem_pathComponents.mpr hmem, rfl⟩

/-- Where a destination resolves to. -/
theorem resolveUnder_eq_ok {h' : Host} (hr : (resolveUnder folder relative).run h = (.ok target, h')) :
    target.displayPath = joinPath folder relative ∧ target.dest = pathNames (joinPath folder relative) ∧
      hasNul target.fileName = false ∧ h'.fs = h.fs := by
  have hquiet := resolveUnder_quiet folder relative h
  rw [hr] at hquiet
  have hfs : h'.fs = h.fs := hquiet.fs
  obtain ⟨root, h1, hroot, hr⟩ := bind_eq_ok hr
  obtain rfl := openContainmentRoot_eq_ok hroot
  obtain ⟨_, h2, hvalid, hr⟩ := bind_eq_ok hr
  rw [run_lift] at hvalid
  obtain ⟨hnul, habs, hparent⟩ := validateRelative_eq_ok (Outcome.ofExcept_eq_ok (congrArg Prod.fst hvalid))
  obtain ⟨front, last, hparts⟩ : ∃ front last, splitPath relative = front ++ [last] :=
    ⟨_, _, (List.dropLast_append_getLast (splitPath_ne_nil relative)).symm⟩
  have hlast : (splitPath relative).getLastD "" = last := by rw [hparts, List.getLastD_concat]
  have hslash : ∀ n ∈ front, '/' ∉ n.toList := fun n hn => slash_not_mem_splitPath (by
    rw [hparts]
    exact List.mem_append_left _ hn)
  have hup : ".." ∉ front := fun hmem => hparent (List.mem_filter.mpr ⟨by
    rw [hparts]
    exact List.mem_append_left _ hmem, by decide⟩)
  dsimp only at hr
  rw [hlast] at hr
  have hdone : ∀ {parent : List String} {h3 : Host}, ((if last = "." ∨ last = ".." ∨ last = "" then
      .fail (.invalidInput "invalid destination file name")
      else pure { parent, fileName := last, displayPath := joinPath folder relative } :
        Prog VaultError Host ContainedTarget).run
        h3 = (.ok target, h')) → target = ⟨parent, last, joinPath folder relative⟩ ∧ isVoidPart last = false := by
    intro parent h3 hr
    split at hr
    · cases hr
    · rename_i hname
      cases hr
      simp only [not_or] at hname
      exact ⟨rfl, by simp [isVoidPart, hname.1, hname.2.2]⟩
  obtain ⟨parent, ⟨rfl, hfilled⟩, rfl⟩ : ∃ parent, (target = ⟨parent, last, joinPath folder relative⟩ ∧
    isVoidPart last = false) ∧ parent = pathNames folder ++ front.filter fun part => !isVoidPart part := by
    rw [hparts, List.length_append, List.length_singleton] at hr
    split at hr
    · rename_i hlen
      obtain ⟨_, h3, hcall, hr⟩ := bind_eq_ok hr
      obtain ⟨_, h4, -, hroot⟩ := bind_eq_ok hcall
      cases hroot
      refine ⟨_, hdone hr, ?_⟩
      rw [List.length_eq_zero_iff.mp (show front.length = 0 by omega), List.filter_nil, List.append_nil]
    · rename_i hlen
      have hne : front ≠ [] := by
        rintro rfl
        simp at hlen
      obtain ⟨parent, h3, hopen, hr⟩ := bind_eq_ok hr
      rw [List.dropLast_concat] at hopen
      have hsplit := splitPath_intercalate hne hslash
      have hbelow : pathNames ("/".intercalate front) = front.filter fun part => !isVoidPart part := by
        rw [pathNames, hsplit]
      refine ⟨parent, hdone hr, ?_⟩
      rw [openat2Dir_eq_ok (by rw [hsplit]; exact hup) hopen, hbelow]
  have hnames : pathNames relative = front.filter (fun part => !isVoidPart part) ++ [last] := by
    rw [pathNames, hparts, List.filter_append, List.filter_cons_of_pos (by simp [hfilled]), List.filter_nil]
  refine ⟨rfl, ?_, hasNul_of_mem_splitPath hnul
    (by rw [hparts]; exact List.mem_append_right _ (List.mem_singleton.mpr rfl)), hfs⟩
  rw [ContainedTarget.dest, pathNames_joinPath habs, hnames, List.append_assoc]

/-! ## Publication in one folder -/

/-- The folder admits the destination, and creating, writing, syncing and renaming do not fail there. -/
def Lands (h : Host) (folder : Path) (relative : String) : Prop :=
  ∃ target h1, (resolveUnder folder relative).run h = (.ok target, h1) ∧ h1.fs.replaceable target.dest = true ∧
    h1.Writes target

/-- Failures for want of resources or of the system. -/
def isSystemFailure : VaultError → Bool
  | .protocol _ => true
  | .io (some errno) _ => [ENOSPC, EFBIG, EDQUOT, EIO, EMFILE, ENFILE, ENOMEM].contains errno
  | _ => false

/-- The destination does not resolve in the folder. -/
def Refuses (h : Host) (folder : Path) (relative : String) : Prop :=
  ∃ e h1, (resolveUnder folder relative).run h = (.error e, h1) ∧ isSystemFailure e = false

/-- The host behind a try in a folder. -/
def Host.tried (h : Host) (folder : Path) (relative : String) (bytes : Bytes) : Host :=
  ((injectUnder folder relative bytes).run h).2

theorem syscall_panicless : Panicless syscall := fun h => by
  rw [syscall, run_step]
  cases h.syscalls 0 <;> simp

theorem ioCall_panicless : Panicless ioCall := fun h => by
  rw [ioCall, run_step]
  cases h.syscalls 0 <;> simp

theorem openat2Dir_panicless (root : List String) (path : String) : Panicless (openat2Dir root path) := by
  unfold openat2Dir
  split
  · exact panicless_fail _
  · refine syscall_panicless.bind fun _ => panicless_get.bind fun h => ?_
    split
    · exact panicless_fail _
    · split
      · exact panicless_pure _
      · exact panicless_fail _

/-- A resolution ends with a destination or an error. -/
theorem resolveUnder_panicless (folder : Path) (relative : String) : Panicless (resolveUnder folder relative) := by
  refine Panicless.bind ?_ fun root => (panicless_lift_ofExcept _).bind fun _ => ?_
  · unfold openContainmentRoot
    split
    · exact panicless_fail _
    · refine syscall_panicless.bind fun _ => ?_
      dsimp only
      split
      · exact panicless_fail _
      · exact openat2Dir_panicless _ _
  · have hname : ∀ parent : List String, Panicless
        (let fileName := (splitPath relative).getLastD ""
         if fileName = "." ∨ fileName = ".." ∨ fileName = "" then .fail (.invalidInput "invalid destination file name")
         else pure { parent, fileName, displayPath := joinPath folder relative } :
           Prog VaultError Host ContainedTarget) := by
      intro parent
      dsimp only
      split
      · exact panicless_fail _
      · exact panicless_pure _
    dsimp only
    split
    · exact (ioCall_panicless.bind fun _ => panicless_pure _).bind hname
    · exact (openat2Dir_panicless _ _).bind hname

/-- In one folder the file is published where it lands, and otherwise nothing is changed. -/
theorem injectUnder_run (h : Host) (folder : Path) (relative : String) (bytes : Bytes) :
    (Lands h folder relative → ∃ h', (injectUnder folder relative bytes).run h = (.ok (joinPath folder relative), h') ∧
      h'.fs = h.fs.set (pathNames (joinPath folder relative)) (some (.file bytes))) ∧
    (¬Lands h folder relative → ∃ e h', (injectUnder folder relative bytes).run h = (.error e, h') ∧ h'.fs = h.fs) := by
  rw [injectUnder]
  rcases hres : (resolveUnder folder relative).run h with ⟨target | e | _, h1⟩
  · obtain ⟨hpath, hdest, hnul, hfs⟩ := resolveUnder_eq_ok hres
    obtain ⟨hlands, hkept⟩ := writeFileAtomic_run (h := h1) hnul
    have hiff : Lands h folder relative ↔ h1.fs.replaceable target.dest = true ∧ h1.Writes target := by
      constructor
      · rintro ⟨target', h2, hrun, hl⟩
        rw [hres] at hrun
        cases hrun
        exact hl
      · exact fun hl => ⟨target, h1, hres, hl⟩
    rw [run_bind_ok hres, hiff]
    refine ⟨fun hl => ?_, fun hl => ?_⟩
    · obtain ⟨h', hrun, hset⟩ := hlands hl.1 hl.2
      rw [run_bind_ok hrun]
      refine ⟨h', ?_, ?_⟩
      · rw [hpath]
        rfl
      · rw [hset, hfs, hdest]
    · obtain ⟨e, h', hrun, hsame⟩ := hkept hl
      rw [run_bind_error hrun]
      exact ⟨e, h', rfl, hsame.trans hfs⟩
  · have hquiet := resolveUnder_quiet folder relative h
    rw [hres] at hquiet
    rw [run_bind_error hres]
    refine ⟨?_, fun _ => ⟨e, h1, rfl, hquiet.fs⟩⟩
    rintro ⟨target', h2, hrun, -⟩
    rw [hres] at hrun
    cases hrun
  · exact (resolveUnder_panicless folder relative h (by rw [hres])).elim

/-! ## The first folder -/

/-- Published in the first folder that does not refuse. -/
inductive PublishedFirst (relative : String) (bytes : Bytes) : List Path → Host → Path → Host → Prop where
  | here {folder : Path} {rest : List Path} {h h' : Host} {path : Path}
    (hr : (injectUnder folder relative bytes).run h = (.ok path, h')) :
    PublishedFirst relative bytes (folder :: rest) h path h'
  | next {folder : Path} {rest : List Path} {h h' : Host} {path : Path} (hr : Refuses h folder relative)
    (hp : PublishedFirst relative bytes rest (h.tried folder relative bytes) path h') :
    PublishedFirst relative bytes (folder :: rest) h path h'

/-- The file lands in none of the folders. -/
def LandsNowhere (relative : String) (bytes : Bytes) : List Path → Host → Prop
  | [], _ => True
  | folder :: rest, h => ¬Lands h folder relative ∧ LandsNowhere relative bytes rest (h.tried folder relative bytes)

/-- The first folder that does not refuse is the one where the file lands, or it lands nowhere. -/
def NotRedirected (relative : String) (bytes : Bytes) : List Path → Host → Prop
  | [], _ => True
  | folder :: rest, h => Lands h folder relative ∨
    Refuses h folder relative ∧ NotRedirected relative bytes rest (h.tried folder relative bytes) ∨
    LandsNowhere relative bytes rest (h.tried folder relative bytes)

theorem LandsNowhere.notRedirected {folders : List Path} (hn : LandsNowhere relative bytes folders h) :
    NotRedirected relative bytes folders h := by
  cases folders with
  | nil => trivial
  | cons folder rest => exact Or.inr (Or.inr hn.2)

/-- A file is published as a whole in one of the folders, or it lands nowhere and nothing is changed. -/
theorem injectFirst_run (relative : String) (bytes : Bytes) (folders : List Path) (last : VaultError) (h : Host) :
    (∃ path h', (injectFirst relative bytes last folders).run h = (.ok path, h') ∧
      h'.fs = h.fs.set (pathNames path) (some (.file bytes)) ∧ ¬LandsNowhere relative bytes folders h ∧
      (PublishedFirst relative bytes folders h path h' ↔ NotRedirected relative bytes folders h)) ∨
    ∃ e h', (injectFirst relative bytes last folders).run h = (.error e, h') ∧ h'.fs = h.fs ∧
      LandsNowhere relative bytes folders h := by
  induction folders generalizing h last with
  | nil => exact Or.inr ⟨last, h, rfl, rfl, trivial⟩
  | cons folder rest ih =>
    obtain ⟨hlands, hkept⟩ := injectUnder_run h folder relative bytes
    rw [injectFirst, run_bind, run_attempt]
    by_cases hl : Lands h folder relative
    · obtain ⟨h', hrun, hset⟩ := hlands hl
      rw [hrun]
      exact Or.inl ⟨_, h', rfl, hset, fun hn => hn.1 hl, iff_of_true (.here hrun) (Or.inl hl)⟩
    · obtain ⟨e, h', hrun, hfs⟩ := hkept hl
      have htried : h.tried folder relative bytes = h' := by rw [Host.tried, hrun]
      rw [hrun]
      dsimp only
      rcases ih e h' with ⟨path, h2, hrest, hset, hsome, hiff⟩ | ⟨e', h2, hrest, hsame, hnone⟩ <;> rw [hrest]
      · refine Or.inl ⟨path, h2, rfl, by rw [hset, hfs], fun hn => hsome (by rw [← htried]; exact hn.2), ?_⟩
        constructor
        · intro hp
          cases hp with
          | here hr =>
            rw [hrun] at hr
            cases hr
          | next hr hp =>
            rw [htried] at hp
            exact Or.inr (Or.inl ⟨hr, by rw [htried]; exact hiff.mp hp⟩)
        · rintro (hfirst | ⟨hr, hn⟩ | hn)
          · exact (hl hfirst).elim
          · rw [htried] at hn
            exact .next hr (by rw [htried]; exact hiff.mpr hn)
          · rw [htried] at hn
            exact (hsome hn).elim
      · exact Or.inr ⟨e', h2, rfl, hsame.trans hfs, hl, by rw [htried]; exact hnone⟩

/-! ## Injections -/

/-- How an injection should end: the selection is published as a whole in the first folder that does not refuse, at the
path that is reported, and nothing else is changed; or an error is reported and nothing is changed. -/
inductive Reported (doc : VaultDocument) (project relative : String) (keys : Option (List String)) (h : Host) :
    Outcome VaultError InjectReport × Host → Prop where
  | published {folders : List Path} {bytes : Bytes} {report : InjectReport} {h' : Host}
    (hcheck : checkInjectFile doc project keys = .ok (folders, report.keys, bytes))
    (hfirst : PublishedFirst relative bytes folders h report.path h')
    (hfs : h'.fs = h.fs.set (pathNames report.path) (some (.file bytes))) :
    Reported doc project relative keys h (.ok report, h')
  | failed {e : VaultError} {h' : Host} (hfs : h'.fs = h.fs) : Reported doc project relative keys h (.error e, h')

theorem reported_iff (doc : VaultDocument) (project relative : String) (keys : Option (List String)) (h : Host) :
    Reported doc project relative keys h ((doInjectFile doc project relative keys).run h) ↔
      ∀ folders selected bytes, checkInjectFile doc project keys = .ok (folders, selected, bytes) →
        NotRedirected relative bytes folders h := by
  rw [doInjectFile, run_bind, run_lift]
  cases hcheck : checkInjectFile doc project keys with
  | error e => exact iff_of_true (.failed rfl) fun _ _ _ hok => nomatch hok
  | ok found =>
    obtain ⟨folders, selected, bytes⟩ := found
    dsimp only [Outcome.ofExcept]
    rw [run_bind]
    rcases injectFirst_run relative bytes folders (.invalidInput "no authorized folders") h with
      ⟨path, h', hrun, hset, -, hiff⟩ | ⟨e, h', hrun, hsame, hnone⟩ <;> rw [hrun]
    · constructor
      · intro hr folders' selected' bytes' heq
        cases heq
        generalize hpair : ((pure (⟨path, selected⟩ : InjectReport) : Prog VaultError Host InjectReport).run h') =
          r at hr
        cases hr with
        | @published _ _ report _ hcheck' hfirst =>
          cases hpair
          rw [hcheck] at hcheck'
          cases hcheck'
          exact hiff.mp hfirst
      · exact fun hn => .published hcheck (hiff.mpr (hn _ _ _ rfl)) hset
    · refine iff_of_true (.failed hsame) fun _ _ _ heq => ?_
      cases heq
      exact hnone.notRedirected

/-- A record is made before a value is returned. -/
theorem auditRecord_then_pure [Crypto] [AuditJson] {α : Type} (record : Record) (a : α) (s : Sys) :
    Sys.Recorded s (((auditRecord record : SessionProg Unit) >>= fun _ => pure a).run s).2 ∧
      ∀ b, (((auditRecord record : SessionProg Unit) >>= fun _ => pure a).run s).1 = .ok b → b = a := by
  have hrec := auditRecordWith_recorded record .ordinary s
  rw [run_bind, auditRecord]
  rcases hr : (auditRecordWith record .ordinary).run s with ⟨_ | e | _, t⟩ <;> rw [hr] at hrec
  · refine ⟨hrec, fun b hok => ?_⟩
    cases hok
    rfl
  · exact ⟨hrec, fun b hok => nomatch hok⟩
  · exact ⟨hrec, fun b hok => nomatch hok⟩

section

variable [Crypto] [VaultJson] [AuditJson] {s : Sys} {u : Unlocked}

/-- What the operation does to the folders, and that it reports what was published. -/
theorem injectFile_folders (hu : s.session.unlocked = some u) (hidle : s.session.locksItself s.host.mono = false)
    (actor project relative : String) (keys : Option (List String)) :
    ((injectFile actor project relative keys).run s).2.host.fs =
      ((doInjectFile u.doc project relative keys).run s.host).2.fs ∧
      ∀ report, ((injectFile actor project relative keys).run s).1 = .ok report →
        ((doInjectFile u.doc project relative keys).run s.host).1 = .ok report := by
  have hunlocked : requireUnlocked.run s = (.ok u, s) := by
    rw [requireUnlocked, run_get_bind, hu]
    rfl
  have hfs : ∀ {t t' : Sys}, Sys.Recorded t t' → t'.host.fs = t.host.fs := by
    rintro t t' ⟨audit, auditFile, appends, rfl⟩
    rfl
  rw [injectFile, run_bind_ok (gate_ok hidle hu _ _ _ _), run_bind_ok hunlocked, run_bind, run_attempt, onHost,
    run_zoom]
  rcases (doInjectFile u.doc project relative keys).run s.host with ⟨report | e | _, h'⟩ <;> dsimp only
  · obtain ⟨hrec, hsame⟩ := auditRecord_then_pure
      ⟨actor, "inject_file", some project, report.keys, some report.path, .allowed, none⟩ report { s with host := h' }
    exact ⟨hfs hrec, fun report' hok => congrArg Outcome.ok (hsame report' hok).symm⟩
  · refine ⟨hfs (deny_recorded _ _ _ _ _ _), fun report hok => ?_⟩
    exact (deny_ne_ok (Prod.ext hok rfl)).elim
  · refine ⟨rfl, fun report hok => ?_⟩
    cases hok

/-- An injection ends as it should if and only if the first folder that does not refuse is the one where the file lands,
or it lands nowhere; and the operation does to the folders and reports what the injection does. -/
theorem inject_reported_iff (doc : VaultDocument) (project relative : String) (keys : Option (List String)) (h : Host) :
    (Reported doc project relative keys h ((doInjectFile doc project relative keys).run h) ↔
      ∀ folders selected bytes, checkInjectFile doc project keys = .ok (folders, selected, bytes) →
        NotRedirected relative bytes folders h) ∧
    ∀ (actor : String) (s : Sys) (u : Unlocked), s.session.unlocked = some u → u.doc = doc → s.host = h →
      s.session.locksItself s.host.mono = false →
      ((injectFile actor project relative keys).run s).2.host.fs =
        ((doInjectFile doc project relative keys).run h).2.fs ∧
      ∀ report, ((injectFile actor project relative keys).run s).1 = .ok report →
        ((doInjectFile doc project relative keys).run h).1 = .ok report := by
  refine ⟨reported_iff doc project relative keys h, fun actor s u hu hdoc hhost hidle => ?_⟩
  subst hdoc hhost
  exact injectFile_folders hu hidle actor project relative keys

end

/-! ## A full disk in the first folder -/

namespace Reference

/-- A project with one secret and two folders. -/
def twoFolders : VaultDocument :=
  { VaultDocument.new 0 with
    projects := [⟨"0", "p", ["/a", "/b"], 0⟩]
    secrets := [⟨"0", "K", [0x76], 0, 0⟩] }

/-- The write in the first folder finds no space. -/
def fullFolder : Host :=
  { vaultFile := none, auditFile := none, vaultOwned := false,
    fs := { node := fun p => if p = ["a"] ∨ p = ["b"] then some .dir else none, cwd := [] }, wall := 0, mono := 0,
    rng := fun _ => some fun _ => 0, appends := fun _ => .ok, saves := fun _ => none,
    syscalls := fun i => if i = 4 then some ⟨some ENOSPC, "No space left on device"⟩ else none, patience := 1 }

end Reference

/-- The secrets are written into the second folder after the disk of the first was full. -/
theorem inject_redirected :
    ((doInjectFile Reference.twoFolders "p" ".env" none).run Reference.fullFolder).1 = .ok ⟨"/b/.env", ["K"]⟩ ∧
    ¬Refuses Reference.fullFolder "/a" ".env" ∧
    ¬Reported Reference.twoFolders "p" ".env" none Reference.fullFolder
      ((doInjectFile Reference.twoFolders "p" ".env" none).run Reference.fullFolder) := by
  have hresult : ((doInjectFile Reference.twoFolders "p" ".env" none).run Reference.fullFolder).1 =
    .ok ⟨"/b/.env", ["K"]⟩ := by
    decide +kernel
  have hchecked : checkInjectFile Reference.twoFolders "p" none = .ok (["/a", "/b"], ["K"], utf8 "K=v\n") := by
    decide +kernel
  have hopens : ((resolveUnder "/a" ".env").run Reference.fullFolder).1 = .ok ⟨["a"], ".env", "/a/.env"⟩ := by
    decide +kernel
  have hfails : ((injectUnder "/a" ".env" (utf8 "K=v\n")).run Reference.fullFolder).1 =
      .error (.io (some ENOSPC) "No space left on device") := by
    decide +kernel
  have hadmits : ¬Refuses Reference.fullFolder "/a" ".env" := by
    rintro ⟨e, h1, hrun, -⟩
    rw [hrun] at hopens
    cases hopens
  refine ⟨hresult, hadmits, fun hr => ?_⟩
  generalize hpair : (doInjectFile Reference.twoFolders "p" ".env" none).run Reference.fullFolder = r at hr hresult
  cases hr with
  | failed => cases hresult
  | published hcheck hfirst =>
    cases hresult
    rw [hchecked] at hcheck
    cases hcheck
    cases hfirst with
    | here hrun =>
      rw [hrun] at hfails
      cases hfails
    | next hrefuses => exact hadmits hrefuses

end SecretsVault
