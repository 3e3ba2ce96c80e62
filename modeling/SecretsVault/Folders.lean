import SecretsVault.ManagedRuns
import SecretsVault.Paths

/-!
# Authorized folders

Which directories the authorized folders of a project give access to.

- `Host.Asks h m n o`: `m` asks the kernel for `n` calls and ends with `o`, or with the failure of the first call that
  fails.
- `Accepted fs folder`: the folder was accepted for a project and is still the directory it was.
- `CwdAnswer h roots cwd`: how the request for a working directory may end.
- `folder_authorization_iff`: a folder opens itself and the folders decide about a working directory, but for the root
  directory, which is accepted and never opened.
-/

namespace SecretsVault

open Lib Lib.Prog Host

/-! ## Calls to the kernel -/

namespace Host

/-- The host behind some calls to the kernel. -/
def spent (h : Host) (k : Nat) : Host := { h with syscalls := fun i => h.syscalls (i + k) }

variable {h : Host} {n k : Nat}

@[simp] theorem spent_fs (h : Host) (k : Nat) : (h.spent k).fs = h.fs := rfl
@[simp] theorem spent_syscalls (h : Host) (k i : Nat) : (h.spent k).syscalls i = h.syscalls (i + k) := rfl
@[simp] theorem spent_zero (h : Host) : h.spent 0 = h := rfl

@[simp] theorem spent_spent (h : Host) (n k : Nat) : (h.spent n).spent k = h.spent (n + k) := by
  simp only [spent, Nat.add_assoc, Nat.add_comm k n]

/-- No one of the next calls fails. -/
def Answers (h : Host) (n : Nat) : Prop := ∀ i < n, h.syscalls i = none

/-- What fails is short of resources, or of a kernel that has the call. -/
def ShortOfResources (h : Host) : Prop := ∀ i e, h.syscalls i = some e → isOperationalError e.lastOsError = true

theorem ShortOfResources.spent (hs : h.ShortOfResources) (k : Nat) : (h.spent k).ShortOfResources :=
  fun i e => hs (i + k) e

theorem answers_add : h.Answers (n + k) ↔ h.Answers n ∧ (h.spent n).Answers k := by
  constructor
  · exact fun ha => ⟨fun i hi => ha i (by omega), fun i hi => ha (i + n) (by omega)⟩
  · rintro ⟨hn, hk⟩ i hi
    by_cases hlt : i < n
    · exact hn i hlt
    · have hrest := hk (i - n) (by omega)
      rwa [spent_syscalls, Nat.sub_add_cancel (by omega)] at hrest

/-- The calls are answered, or one of them is the first that fails. -/
theorem answers_or (h : Host) (n : Nat) : h.Answers n ∨ ∃ k e, k < n ∧ h.Answers k ∧ h.syscalls k = some e := by
  induction n with
  | zero => exact Or.inl fun i hi => absurd hi (Nat.not_lt_zero i)
  | succ n ih =>
    rcases ih with ha | ⟨k, e, hk, ha, he⟩
    · cases hn : h.syscalls n with
      | none =>
        refine Or.inl fun i hi => ?_
        rcases Nat.lt_succ_iff_lt_or_eq.mp hi with hi | rfl
        · exact ha i hi
        · exact hn
      | some e => exact Or.inr ⟨n, e, by omega, ha, hn⟩
    · exact Or.inr ⟨k, e, by omega, ha, he⟩

variable {α β : Type}

/-- The program asks for `n` calls and ends with `o`; the first call that fails ends it with its failure. -/
structure Asks (h : Host) (m : Prog VaultError Host α) (n : Nat) (o : Outcome VaultError α) : Prop where
  through (ha : h.Answers n) : m.run h = (o, h.spent n)
  stopped {k : Nat} {e : IoError} (hk : k < n) (ha : h.Answers k) (he : h.syscalls k = some e) :
    m.run h = (.error e.lastOsError, h.spent (k + 1))

variable {m : Prog VaultError Host α} {o : Outcome VaultError α}

theorem asks_lift (h : Host) (o : Outcome VaultError α) : h.Asks (.lift o) 0 o :=
  ⟨fun _ => rfl, fun hk => absurd hk (Nat.not_lt_zero _)⟩

theorem asks_syscall (h : Host) : h.Asks syscall 1 (.ok ()) where
  through ha := by
    rw [syscall, run_step, ha 0 (by omega)]
    rfl
  stopped {k e} hk _ he := by
    obtain rfl : k = 0 := by omega
    rw [syscall, run_step, he]
    rfl

theorem Asks.bind {a : α} {f : α → Prog VaultError Host β} {o : Outcome VaultError β} (hm : h.Asks m n (.ok a))
    (hf : (h.spent n).Asks (f a) k o) : h.Asks (m >>= f) (n + k) o where
  through ha := by
    obtain ⟨hn, hk⟩ := answers_add.mp ha
    rw [run_bind_ok (hm.through hn), hf.through hk, spent_spent]
  stopped {j e} hj ha he := by
    by_cases hlt : j < n
    · rw [run_bind_error (hm.stopped hlt ha he)]
    · obtain ⟨i, rfl⟩ : ∃ i, j = n + i := ⟨j - n, by omega⟩
      obtain ⟨hn, hi⟩ := answers_add.mp ha
      have he' : (h.spent n).syscalls i = some e := by rw [spent_syscalls, Nat.add_comm]; exact he
      rw [run_bind_ok (hm.through hn), hf.stopped (by omega) hi he', spent_spent]
      rfl

/-- What is tried, and followed by more unless it was short of resources. -/
theorem Asks.attempt {r : Except VaultError α} {g : Except VaultError α → Prog VaultError Host β}
    {o : Outcome VaultError β}
    (hs : h.ShortOfResources) (hm : h.Asks m n (.ofExcept r)) (hg : ∀ e, isOperationalError e = true →
      g (.error e) = .fail e)
    (hf : (h.spent n).Asks (g r) k o) : h.Asks (m.attempt >>= g) (n + k) o := by
  have hran : h.Answers n → m.attempt.run h = (.ok r, h.spent n) := by
    intro hn
    rw [run_attempt, hm.through hn]
    cases r <;> rfl
  refine ⟨fun ha => ?_, fun {j e} hj ha he => ?_⟩
  · obtain ⟨hn, hk⟩ := answers_add.mp ha
    rw [run_bind_ok (hran hn), hf.through hk, spent_spent]
  · by_cases hlt : j < n
    · have hstop : m.attempt.run h = (.ok (.error e.lastOsError), h.spent (j + 1)) := by
        rw [run_attempt, hm.stopped hlt ha he]
      rw [run_bind_ok hstop, hg _ (hs j e he)]
      rfl
    · obtain ⟨i, rfl⟩ : ∃ i, j = n + i := ⟨j - n, by omega⟩
      obtain ⟨hn, hi⟩ := answers_add.mp ha
      have he' : (h.spent n).syscalls i = some e := by rw [spent_syscalls, Nat.add_comm]; exact he
      rw [run_bind_ok (hran hn), hf.stopped (by omega) hi he', spent_spent]
      rfl

end Host

/-! ## Opening directories -/

variable {h : Host}

/-- A path of directories without a link is opened, and no other. -/
theorem openat2Dir_asks (h : Host) (root : List String) {names : List String} (hne : names ≠ [])
    (hnames : ∀ n ∈ names, IsName n) :
    ∃ r : Except VaultError (List String), h.Asks (openat2Dir root ("/".intercalate names)) 1 (.ofExcept r) ∧
      (h.fs.DirsBelow root names → r = .ok (root ++ names)) ∧
      (¬h.fs.DirsBelow root names → ∃ e, r = .error e ∧ isOperationalError e = false) := by
  have hsplit : splitPath ("/".intercalate names) = names := splitPath_intercalate hne fun n hn => (hnames n hn).whole
  have hnul : ("/".intercalate names).toList.contains '\x00' = false :=
    hasNul_intercalate fun n hn => (hnames n hn).noNul
  have hempty : ("/".intercalate names).isEmpty = false := by
    rw [String.isEmpty_eq_false_iff]
    intro heq
    rw [heq] at hsplit
    have hfilled := (hnames "" (by rw [← hsplit]; decide)).filled
    cases hfilled
  have hparent : ".." ∉ names := fun hmem => (hnames _ hmem).notParent rfl
  have hwalk : ∀ dir, h.fs.walkBeneath root [] names = .ok dir ↔ h.fs.DirsBelow root names ∧ dir = root ++ names := by
    intro dir
    rw [FileSystem.walkBeneath_eq_ok_iff hparent, filter_names hnames, List.append_nil]
  simp only [openat2Dir, hnul, hempty, hsplit, Bool.false_eq_true, if_false]
  rcases hw : h.fs.walkBeneath root [] names with errno | dir
  · have hoper : isOperationalError (.io (some errno) "openat2") = false := by
      have hmem := FileSystem.walkBeneath_eq_error hw
      simp only [List.mem_cons, List.not_mem_nil, or_false] at hmem
      rcases hmem with rfl | rfl | rfl | rfl <;> decide
    refine ⟨.error _, (asks_syscall h).bind ⟨fun _ => ?_, fun hk => absurd hk (Nat.not_lt_zero _)⟩, fun hdirs => ?_,
      fun _ => ⟨_, rfl, hoper⟩⟩
    · rw [run_get_bind, spent_fs, hw]
      rfl
    · rw [(hwalk _).mpr ⟨hdirs, rfl⟩] at hw
      cases hw
  · obtain ⟨hdirs, rfl⟩ := (hwalk dir).mp hw
    refine ⟨.ok _, (asks_syscall h).bind ⟨fun _ => ?_, fun hk => absurd hk (Nat.not_lt_zero _)⟩, fun _ => rfl,
      fun hnot => absurd hdirs hnot⟩
    rw [run_get_bind, spent_fs, hw]
    rfl

/-- A folder in canonical form opens itself, unless it is the root directory. -/
theorem openContainmentRoot_asks (h : Host) {names : List String} (hplain : h.fs.Plain names) :
    (names ≠ [] → h.Asks (openContainmentRoot (absolutePath names)) 2 (.ok names)) ∧
      (names = [] → h.Asks (openContainmentRoot (absolutePath names)) 1
        (.error (.invalidInput "authorized folder is not a plain relative descendant path"))) := by
  have habs := isAbsolute_absolutePath names
  constructor
  · intro hne
    have hreverse : ∀ n ∈ names.reverse, IsName n := fun n hn => hplain.isName n (List.mem_reverse.mp hn)
    have hstrip : stripRoot (absolutePath names) = "/".intercalate names := by
      rw [stripRoot, splitPath_absolutePath hne hplain.isName, List.dropWhile_cons_of_pos (by decide),
        dropWhile_names hplain.isName, dropWhile_names hreverse, List.reverse_reverse]
    have hplainParts : names.any (fun c => c == ".." || c == "." || c == "") = false := by
      rw [List.any_eq_false]
      intro n hn
      have hname := hplain.isName n hn
      have hfilled := hname.filled
      simp only [isVoidPart, Bool.or_eq_false_iff, decide_eq_false_iff_not] at hfilled
      simp [hname.notParent, hfilled.1, hfilled.2]
    obtain ⟨r, hasks, hok, -⟩ := openat2Dir_asks (h.spent 1) [] hne hplain.isName
    rw [hok hplain.dirs] at hasks
    have hrun : openContainmentRoot (absolutePath names) = syscall >>= fun _ => openat2Dir []
      ("/".intercalate names) := by
      rw [openContainmentRoot, habs, hstrip]
      dsimp only
      rw [splitPath_intercalate hne fun n hn => (hplain.isName n hn).whole, hplainParts]
      rfl
    rw [hrun]
    exact (asks_syscall h).bind (f := fun _ => openat2Dir [] ("/".intercalate names)) hasks
  · rintro rfl
    have hrun : openContainmentRoot (absolutePath []) = syscall >>= fun _ =>
        .lift (.error (.invalidInput "authorized folder is not a plain relative descendant path")) := by
      rw [openContainmentRoot, habs]
      rfl
    rw [hrun]
    exact (asks_syscall h).bind (f := fun _ => .lift _) (asks_lift _ _)

/-! ## Authorized folders -/

/-- The folder was accepted for a project, and the directories on the way to it are as they were. -/
def Accepted (fs : FileSystem) (folder : Path) : Prop :=
  ∃ (was : FileSystem) (project : Project) (path : Path), VaultDocument.checkNewPath was project path = .ok folder ∧
    ∀ p, p <+: pathNames folder → fs.node p = was.node p

/-- An accepted folder is in canonical form. -/
theorem Accepted.plain {fs : FileSystem} {folder : Path} (ha : Accepted fs folder) :
    fs.Plain (pathNames folder) ∧ folder = absolutePath (pathNames folder) := by
  obtain ⟨was, project, path, hcheck, hsame⟩ := ha
  unfold VaultDocument.checkNewPath at hcheck
  cases hnames : was.canonicalize path with
  | none =>
    rw [hnames] at hcheck
    cases hcheck
  | some names =>
    rw [hnames] at hcheck
    dsimp only at hcheck
    by_cases hdir : was.isDir names = true
    · have hplain := FileSystem.canonicalize_plain hnames hdir
      have hfolder : folder = absolutePath names := by
        rw [hdir] at hcheck
        repeat' split at hcheck
        all_goals cases hcheck
        rfl
      have hback : pathNames folder = names := by rw [hfolder, pathNames_absolutePath hplain.isName]
      rw [hback] at hsame ⊢
      exact ⟨⟨hplain.isName, hplain.dirs.congr hsame⟩, hfolder⟩
    · rw [Bool.not_eq_true] at hdir
      rw [hdir] at hcheck
      cases hcheck

/-- An accepted folder is the root directory, or has a name. -/
theorem Accepted.eq_slash_iff {fs : FileSystem} {folder : Path} (ha : Accepted fs folder) : folder = "/" ↔
    pathNames folder = [] := by
  constructor
  · rintro rfl
    decide
  · intro hnil
    have heq := ha.plain.2
    rw [hnil] at heq
    exact heq

/-! ## Working directories -/

/-- The root equals the path or is a component-wise prefix of it, and below it the path has neither a link nor a `..`.
-/
def FileSystem.Covers (fs : FileSystem) (root cwd : Path) : Prop :=
  pathComponents root <+: pathComponents cwd ∧ .parentDir ∉ pathComponents cwd ∧
    fs.DirsBelow (pathNames root) ((pathNames cwd).drop (pathNames root).length)

/-- A path that is looked at: absolute, of a bounded length and without a NUL. -/
structure Askable (cwd : Path) : Prop where
  isAbsolute : isAbsolute cwd = true
  length : cwd.utf8ByteSize ≤ MAX_PATH_LEN
  noNul : hasNul cwd = false

/-- How a request for a working directory may end. -/
inductive CwdAnswer (h : Host) (roots : List Path) (cwd : Path) : Outcome VaultError (List String) × Host → Prop where
  | opened (n : Nat) (ha : h.Answers n) {root : Path} (hmem : root ∈ roots) (hcovers : h.fs.Covers root cwd) :
    CwdAnswer h roots cwd (.ok (pathNames cwd), h.spent n)
  | failed (n : Nat) (ha : h.Answers n) {e : IoError} (he : h.syscalls n = some e) :
    CwdAnswer h roots cwd (.error e.lastOsError, h.spent (n + 1))
  | refused (n : Nat) (ha : h.Answers n) (hnone : ∀ root ∈ roots, ¬h.fs.Covers root cwd) :
    CwdAnswer h roots cwd (.error .pathNotAuthorized, h.spent n)

variable {roots : List Path} {cwd root : Path}

/-- The components of an accepted folder. -/
theorem Accepted.components {fs : FileSystem} (ha : Accepted fs root) :
    pathComponents root = .rootDir :: (pathNames root).map .normal := by
  obtain ⟨hplain, heq⟩ := ha.plain
  refine pathComponents_absolute ?_ fun n hn => (hplain.isName n hn).notParent
  rw [heq]
  exact isAbsolute_absolutePath _

/-- What is left of a path below an accepted folder. -/
theorem rest_below {fs : FileSystem} (ha : Accepted fs root) (hcwd : Askable cwd) (hparent : ".." ∉ pathNames cwd) :
    ((pathComponents cwd).drop (pathComponents root).length).filterMap PathComponent.name? =
      (pathNames cwd).drop (pathNames root).length := by
  rw [ha.components, pathComponents_absolute hcwd.isAbsolute fun n hn heq => hparent (heq ▸ hn), List.length_cons,
    List.length_map, List.drop_succ_cons, ← List.map_drop, List.filterMap_map]
  exact List.filterMap_some

/-- An accepted folder above a path is made of its first names. -/
theorem names_of_isPrefix {fs : FileSystem} (ha : Accepted fs root) (hcwd : Askable cwd)
    (hparent : ".." ∉ pathNames cwd) (h : pathComponents root <+: pathComponents cwd) :
    pathNames cwd = pathNames root ++ (pathNames cwd).drop (pathNames root).length := by
  rw [ha.components, pathComponents_absolute hcwd.isAbsolute fun n hn heq => hparent (heq ▸ hn),
    List.cons_prefix_cons] at h
  obtain ⟨more, hmore⟩ := h.2
  obtain ⟨a, b, hab, hroot, -⟩ := List.append_eq_map_iff.mp hmore
  have hinj : Function.Injective PathComponent.normal := fun x y hxy => by cases hxy; rfl
  obtain rfl := List.map_injective_iff.mpr hinj hroot
  rw [hab, List.drop_left]

/-- Some folder other than the root directory covers the path. -/
def Reached (fs : FileSystem) (roots : List Path) (cwd : Path) : Prop := ∃ root ∈ roots, root ≠ "/" ∧ fs.Covers root cwd

/-- The folders are tried in turn: the first that is not the root directory and covers the path opens it. -/
theorem openCwdUnder_asks (hcwd : Askable cwd) (hparent : ".." ∉ pathNames cwd) (hs : h.ShortOfResources)
    (hroots : ∀ root ∈ roots, Accepted h.fs root) :
    ∃ n o, h.Asks (openCwdUnder cwd roots) n o ∧ (Reached h.fs roots cwd → o = .ok (pathNames cwd)) ∧
      (¬Reached h.fs roots cwd → o = .error .pathNotAuthorized) ∧
      ((∀ root ∈ roots, root ≠ "/" → ¬pathComponents root <+: pathComponents cwd) → n = roots.count "/") := by
  induction roots generalizing h with
  | nil =>
    refine ⟨0, _, asks_lift h _, ?_, fun _ => rfl, fun _ => rfl⟩
    rintro ⟨root, hmem, -⟩
    cases hmem
  | cons root rest ih =>
    have hroot := hroots root List.mem_cons_self
    have hrest : ∀ root ∈ rest, Accepted h.fs root := fun r hr => hroots r (List.mem_cons_of_mem _ hr)
    have hreached : h.fs.Covers root cwd ∧ root ≠ "/" ∨ Reached h.fs rest cwd ↔ Reached h.fs (root :: rest) cwd := by
      simp only [Reached, List.mem_cons, exists_eq_or_imp]
      tauto
    rw [openCwdUnder, openCwdIn]
    by_cases hunder : pathComponents root <+: pathComponents cwd
    swap
    · -- a folder that is not above the path is passed over
      have hslash : root ≠ "/" := by
        rintro rfl
        refine hunder ?_
        rw [pathComponents_absolute hcwd.isAbsolute fun n hn heq => hparent (heq ▸ hn)]
        exact ⟨_, rfl⟩
      obtain ⟨n, o, hasks, hok, herr, hcount⟩ := ih hs hrest
      have hskip : (pathComponents root).isPrefixOf (pathComponents cwd) = false := by
        rw [Bool.eq_false_iff, ne_eq, List.isPrefixOf_iff_prefix]
        exact hunder
      rw [hskip, Bool.not_false, if_pos rfl]
      refine ⟨n, o, hasks, fun hr => ?_, fun hr => ?_, fun honly => ?_⟩
      · rcases hreached.mpr hr with ⟨hcovers, -⟩ | hr
        · exact (hunder hcovers.1).elim
        · exact hok hr
      · exact herr fun hr' => hr (hreached.mp (Or.inr hr'))
      · rw [List.count_cons_of_ne hslash, hcount fun r hr => honly r (List.mem_cons_of_mem _ hr)]
    · have htry : (pathComponents root).isPrefixOf (pathComponents cwd) = true := List.isPrefixOf_iff_prefix.mpr hunder
      rw [htry, Bool.not_true, if_neg Bool.false_ne_true]
      obtain ⟨hplain, heq⟩ := hroot.plain
      obtain ⟨hopen, hrefuse⟩ := openContainmentRoot_asks h hplain
      rw [← heq] at hopen hrefuse
      by_cases hnil : pathNames root = []
      · -- the root directory is not opened, and the next folder is tried
        have hslash : root = "/" := hroot.eq_slash_iff.mpr hnil
        obtain ⟨n, o, hasks, hok, herr, hcount⟩ := ih (h := h.spent 1) (hs.spent 1) hrest
        refine ⟨1 + n, o, Asks.attempt hs (r := .error _) (hrefuse hnil) (fun e he => if_pos he) hasks, fun hr => ?_,
          fun hr => herr fun hr' => hr (hreached.mp (Or.inr hr')), fun honly => ?_⟩
        · rcases hreached.mpr hr with ⟨-, hne⟩ | hr
          · exact (hne hslash).elim
          · exact hok hr
        · rw [hslash, List.count_cons_self, hcount fun r hr => honly r (List.mem_cons_of_mem _ hr), Nat.add_comm]
      · have hslash : root ≠ "/" := fun hslash => hnil (hroot.eq_slash_iff.mp hslash)
        have honlyFalse : ¬∀ r ∈ root :: rest, r ≠ "/" → ¬pathComponents r <+: pathComponents cwd := fun honly =>
          honly root List.mem_cons_self hslash hunder
        have hcwdNames := names_of_isPrefix hroot hcwd hparent hunder
        have hcomponent : .parentDir ∉ pathComponents cwd := fun hmem => hparent (parentDir_mem_pathComponents.mp hmem)
        rw [rest_below hroot hcwd hparent]
        generalize hbelow : (pathNames cwd).drop (pathNames root).length = below at hcwdNames ⊢
        have hcovers : h.fs.Covers root cwd ↔ h.fs.DirsBelow (pathNames root) below := by
          simp only [FileSystem.Covers, hbelow, hunder, hcomponent, not_false_eq_true, true_and]
        by_cases hself : below = []
        · -- the folder itself
          have hr : Reached h.fs (root :: rest) cwd :=
            hreached.mp (Or.inl ⟨hcovers.mpr (by rw [hself]; trivial), hslash⟩)
          rw [hself, List.append_nil] at hcwdNames
          refine ⟨2 + 0, .ok (pathNames cwd), Asks.attempt hs (r := .ok _) (hopen hnil) (fun e he => if_pos he) ?_,
            fun _ => rfl, fun hnot => (hnot hr).elim, fun honly => (honlyFalse honly).elim⟩
          dsimp only
          rw [if_pos hself, hcwdNames]
          exact asks_lift _ _
        · have hnames : ∀ n ∈ below, IsName n := by
            intro n hn
            have hmem : n ∈ pathNames cwd := by rw [hcwdNames]; exact List.mem_append_right _ hn
            exact isName_of_mem hcwd.noNul hmem fun heq => hparent (heq ▸ hmem)
          obtain ⟨r, hasks, hdirs, hnot⟩ := openat2Dir_asks (h.spent 2) (pathNames root) hself hnames
          by_cases hd : h.fs.DirsBelow (pathNames root) below
          · have hr : Reached h.fs (root :: rest) cwd := hreached.mp (Or.inl ⟨hcovers.mpr hd, hslash⟩)
            rw [hdirs hd] at hasks
            refine ⟨2 + (1 + 0), .ok (pathNames cwd), Asks.attempt hs (r := .ok _) (hopen hnil)
              (fun e he => if_pos he) ?_,
              fun _ => rfl, fun hnot => (hnot hr).elim, fun honly => (honlyFalse honly).elim⟩
            dsimp only
            rw [if_neg hself, hcwdNames]
            exact Asks.attempt (hs.spent 2) hasks (fun e he => if_pos he) (asks_lift _ _)
          · obtain ⟨e, rfl, hoper⟩ := hnot hd
            obtain ⟨n, o, hnext, hok, herr, -⟩ := ih (h := (h.spent 2).spent 1) ((hs.spent 2).spent 1) hrest
            refine ⟨2 + (1 + n), o, Asks.attempt hs (r := .ok _) (hopen hnil) (fun e he => if_pos he) ?_, fun hr => ?_,
              fun hr => herr fun hr' => hr (hreached.mp (Or.inr hr')), fun honly => (honlyFalse honly).elim⟩
            · dsimp only
              rw [if_neg hself]
              refine Asks.attempt (hs.spent 2) hasks (fun e he => if_pos he) ?_
              dsimp only
              rw [hoper, if_neg Bool.false_ne_true]
              exact hnext
            · rcases hreached.mpr hr with ⟨hc, -⟩ | hr
              · exact (hd (hcovers.mp hc)).elim
              · exact hok hr

/-- Only the root directory is above the path, and it opens. -/
structure SlashOnly (h : Host) (roots : List Path) (cwd : Path) : Prop where
  mem : "/" ∈ roots
  covers : h.fs.Covers "/" cwd
  alone : ∀ root ∈ roots, root ≠ "/" → ¬pathComponents root <+: pathComponents cwd
  answers : h.Answers (roots.count "/")

theorem openAuthorizedCwd_askable (hcwd : Askable cwd) (roots : List Path) :
    (".." ∈ pathNames cwd → openAuthorizedCwd cwd roots = .fail .pathNotAuthorized) ∧
      (".." ∉ pathNames cwd → openAuthorizedCwd cwd roots = openCwdUnder cwd roots) := by
  have hlen := hcwd.length
  rw [openAuthorizedCwd, hcwd.isAbsolute, hcwd.noNul, Bool.not_true, if_neg Bool.false_ne_true, if_neg (by omega),
    if_neg Bool.false_ne_true]
  constructor
  · exact fun hmem => if_pos (List.contains_iff_mem.mpr (parentDir_mem_pathComponents.mpr hmem))
  · exact fun hmem => if_neg fun hc => hmem (parentDir_mem_pathComponents.mp (List.contains_iff_mem.mp hc))

/-- If the root directory covers a path, so does every accepted folder above the path. -/
theorem FileSystem.Covers.below {fs : FileSystem} (hcwd : Askable cwd) (hslash : fs.Covers "/" cwd)
    (ha : Accepted fs root) (hunder : pathComponents root <+: pathComponents cwd) : fs.Covers root cwd := by
  obtain ⟨-, hcomponent, hdirs⟩ := hslash
  have hparent : ".." ∉ pathNames cwd := fun hmem => hcomponent (parentDir_mem_pathComponents.mpr hmem)
  have hnone : pathNames "/" = [] := by decide
  rw [hnone, List.length_nil, List.drop_zero, names_of_isPrefix ha hcwd hparent hunder, FileSystem.dirsBelow_append,
    List.nil_append] at hdirs
  exact ⟨hunder, hcomponent, hdirs.2⟩

/-- A request is answered as it should be, unless only the root directory is above the path. -/
theorem cwdAnswer_iff (hs : h.ShortOfResources) (hroots : ∀ root ∈ roots, Accepted h.fs root) (hcwd : Askable cwd) :
    CwdAnswer h roots cwd ((openAuthorizedCwd cwd roots).run h) ↔ ¬SlashOnly h roots cwd := by
  obtain ⟨hrefused, htried⟩ := openAuthorizedCwd_askable hcwd roots
  by_cases hparent : ".." ∈ pathNames cwd
  · have hcomponent : .parentDir ∈ pathComponents cwd := parentDir_mem_pathComponents.mpr hparent
    rw [hrefused hparent]
    refine iff_of_true ?_ fun hslash => hslash.covers.2.1 hcomponent
    exact .refused 0 (fun i hi => absurd hi (Nat.not_lt_zero i)) fun root _ hcovers => hcovers.2.1 hcomponent
  · rw [htried hparent]
    obtain ⟨n, o, hasks, hok, herr, hcount⟩ := openCwdUnder_asks hcwd hparent hs hroots
    rcases h.answers_or n with ha | ⟨k, e, hk, ha, he⟩
    · rw [hasks.through ha]
      by_cases hreached : Reached h.fs roots cwd
      · rw [hok hreached]
        obtain ⟨root, hmem, hne, hcovers⟩ := hreached
        exact iff_of_true (.opened n ha hmem hcovers) fun hslash => hslash.alone root hmem hne hcovers.1
      · rw [herr hreached]
        constructor
        · intro hanswer hslash
          generalize hpair : ((.error .pathNotAuthorized, h.spent n) : Outcome VaultError (List String) × Host) =
            r at hanswer
          cases hanswer with
          | opened => cases hpair
          | failed j hj hfail =>
            have herror := congrArg Prod.fst hpair
            simp only [IoError.lastOsError, IoError.toVaultError] at herror
            split at herror <;> cases herror
          | refused j hj hnone => exact hnone "/" hslash.mem hslash.covers
        · intro hslash
          refine .refused n ha fun root hmem hcovers => ?_
          by_cases hne : root = "/"
          · subst hne
            have halone : ∀ r ∈ roots, r ≠ "/" → ¬pathComponents r <+: pathComponents cwd := fun r hr hne hunder =>
              hreached ⟨r, hr, hne, hcovers.below hcwd (hroots r hr) hunder⟩
            exact hslash ⟨hmem, hcovers, halone, by rw [← hcount halone]; exact ha⟩
          · exact hreached ⟨root, hmem, hne, hcovers⟩
    · rw [hasks.stopped hk ha he]
      refine iff_of_true (.failed k ha he) fun hslash => ?_
      have hanswers := hslash.answers
      rw [← hcount hslash.alone] at hanswers
      rw [hanswers k hk] at he
      cases he

/-- What was accepted is accepted with more roots, unless a call fails. -/
theorem cwd_accepted_with_more {h' : Host} {more : List Path} (hs : h.ShortOfResources) (hs' : h'.ShortOfResources)
    (hfs : h'.fs = h.fs) (hmore : ∀ root ∈ more, Accepted h.fs root) (hsub : roots ⊆ more) (hcwd : Askable cwd)
    {dir : List String} (hopened : ((openAuthorizedCwd cwd roots).run h).1 = .ok dir) :
    ((openAuthorizedCwd cwd more).run h').1 = .ok dir ∨
      ∃ n e, h'.Answers n ∧ h'.syscalls n = some e ∧ ((openAuthorizedCwd cwd more).run h').1 =
        .error e.lastOsError := by
  obtain ⟨hrefused, htried⟩ := openAuthorizedCwd_askable hcwd roots
  have hparent : ".." ∉ pathNames cwd := by
    intro hmem
    rw [hrefused hmem] at hopened
    cases hopened
  rw [htried hparent] at hopened
  rw [(openAuthorizedCwd_askable hcwd more).2 hparent]
  obtain ⟨n, o, hasks, hok, herr, -⟩ := openCwdUnder_asks hcwd hparent hs fun r hr => hmore r (hsub hr)
  obtain ⟨hreached, rfl⟩ : Reached h.fs roots cwd ∧ pathNames cwd = dir := by
    rcases h.answers_or n with ha | ⟨k, e, hk, ha, he⟩
    · rw [hasks.through ha] at hopened
      by_cases hreached : Reached h.fs roots cwd
      · rw [hok hreached] at hopened
        cases hopened
        exact ⟨hreached, rfl⟩
      · rw [herr hreached] at hopened
        cases hopened
    · rw [hasks.stopped hk ha he] at hopened
      cases hopened
  obtain ⟨root, hmem, hne, hcovers⟩ := hreached
  obtain ⟨n', o', hasks', hok', -, -⟩ := openCwdUnder_asks (h := h') hcwd hparent hs' (by rw [hfs]; exact hmore)
  have ho' := hok' ⟨root, hsub hmem, hne, by rw [hfs]; exact hcovers⟩
  rcases h'.answers_or n' with ha | ⟨k, e, hk, ha, he⟩
  · rw [hasks'.through ha]
    exact Or.inl ho'
  · rw [hasks'.stopped hk ha he]
    exact Or.inr ⟨k, e, ha, he, rfl⟩

/-- An accepted folder opens itself, and a request for a working directory is answered as it should be, if and only if
the root directory is not needed for it; and a root more never takes a working directory away. -/
theorem folder_authorization_iff {folder : Path} (hs : h.ShortOfResources) (hfolder : Accepted h.fs folder)
    (hroots : ∀ root ∈ roots, Accepted h.fs root) (hcwd : Askable cwd) :
    (folder = absolutePath (pathNames folder) ∧
      (h.Answers 2 → (((openContainmentRoot folder).run h).1 = .ok (pathNames folder) ↔ folder ≠ "/"))) ∧
    (CwdAnswer h roots cwd ((openAuthorizedCwd cwd roots).run h) ↔ ¬SlashOnly h roots cwd) ∧
    ∀ (h' : Host) (more : List Path) (dir : List String), h'.ShortOfResources → h'.fs = h.fs →
      (∀ root ∈ more, Accepted h.fs root) → roots ⊆ more → ((openAuthorizedCwd cwd roots).run h).1 = .ok dir →
      ((openAuthorizedCwd cwd more).run h').1 = .ok dir ∨
        ∃ n e, h'.Answers n ∧ h'.syscalls n = some e ∧ ((openAuthorizedCwd cwd more).run h').1 =
          .error e.lastOsError := by
  obtain ⟨hplain, heq⟩ := hfolder.plain
  refine ⟨⟨heq, fun ha => ?_⟩, cwdAnswer_iff hs hroots hcwd, fun h' more dir hs' hfs hmore hsub hopened =>
    cwd_accepted_with_more hs hs' hfs hmore hsub hcwd hopened⟩
  obtain ⟨hopen, hrefuse⟩ := openContainmentRoot_asks h hplain
  rw [← heq] at hopen hrefuse
  rw [ne_eq, hfolder.eq_slash_iff]
  by_cases hnil : pathNames folder = []
  · have hone : h.Answers 1 := fun i hi => ha i (by omega)
    rw [(hrefuse hnil).through hone]
    exact iff_of_false (fun h => nomatch h) fun h => h hnil
  · rw [(hopen hnil).through ha]
    exact iff_of_true rfl hnil

/-! ## The root directory -/

namespace Reference

/-- A host with one directory. -/
def rooted : Host :=
  { vaultFile := none, auditFile := none, vaultOwned := false,
    fs := { node := fun p => if p = ["srv"] then some .dir else none, cwd := [] }, wall := 0, mono := 0,
    rng := fun _ => none, appends := fun _ => .ok, saves := fun _ => none, syscalls := fun _ => none, patience := 1 }

theorem accepted_slash : Accepted rooted.fs "/" := by
  refine ⟨rooted.fs, ⟨"0", "p", [], 0⟩, "/", ?_, fun _ _ => rfl⟩
  have hnames : rooted.fs.canonicalize "/" = some [] := by
    rw [FileSystem.canonicalize, show splitPath (joinPath (absolutePath rooted.fs.cwd) "/") = ["", ""] by decide]
    simp [FileSystem.resolve]
  rw [VaultDocument.checkNewPath, hnames]
  decide

theorem accepted_srv : Accepted rooted.fs "/srv" := by
  refine ⟨rooted.fs, ⟨"0", "p", [], 0⟩, "/srv", ?_, fun _ _ => rfl⟩
  have hnames : rooted.fs.canonicalize "/srv" = some ["srv"] := by
    rw [FileSystem.canonicalize, show splitPath (joinPath (absolutePath rooted.fs.cwd) "/srv") = ["", "srv"] by decide]
    have hnode : rooted.fs.node ["srv"] = some .dir := rfl
    have hnul : hasNul "srv" = false := by decide
    simp [FileSystem.resolve, hnode, hnul]
  rw [VaultDocument.checkNewPath, hnames]
  decide

theorem askable_srv : Askable "/srv" := ⟨by decide +kernel, by decide +kernel, by decide +kernel⟩

theorem rooted_short : rooted.ShortOfResources := fun _ _ he => by cases he

theorem covers_srv : rooted.fs.Covers "/" "/srv" := by
  have hdirs : (pathNames "/srv").drop (pathNames "/").length = ["srv"] := by decide
  refine ⟨by decide, by decide, ?_⟩
  rw [hdirs]
  exact ⟨rfl, trivial⟩

end Reference

/-- The root directory is accepted for a project, is not opened, and a directory below it is refused. -/
theorem root_directory_unusable : Accepted Reference.rooted.fs "/" ∧
    (∃ e, ((openContainmentRoot "/").run Reference.rooted).1 = .error e) ∧ Askable "/srv" ∧
    Reference.rooted.fs.Covers "/" "/srv" ∧
    ((openAuthorizedCwd "/srv" ["/"]).run Reference.rooted).1 = .error .pathNotAuthorized ∧
    ¬CwdAnswer Reference.rooted ["/"] "/srv" ((openAuthorizedCwd "/srv" ["/"]).run Reference.rooted) := by
  have hslash : SlashOnly Reference.rooted ["/"] "/srv" :=
    ⟨List.mem_singleton.mpr rfl, Reference.covers_srv, fun root hmem hne => (hne (List.mem_singleton.mp hmem)).elim,
      fun _ _ => rfl⟩
  have hroots : ∀ root ∈ ["/"], Accepted Reference.rooted.fs root := fun root hmem => by
    rw [List.mem_singleton.mp hmem]
    exact Reference.accepted_slash
  exact ⟨Reference.accepted_slash, ⟨_, rfl⟩, Reference.askable_srv, Reference.covers_srv, by decide +kernel,
    fun hanswer => (cwdAnswer_iff Reference.rooted_short hroots Reference.askable_srv).mp hanswer hslash⟩

/-- A folder with a name opens itself and is a working directory. -/
theorem folder_authorization_srv :
    ((openContainmentRoot "/srv").run Reference.rooted).1 = .ok (pathNames "/srv") ∧
      CwdAnswer Reference.rooted ["/srv"] "/srv" ((openAuthorizedCwd "/srv" ["/srv"]).run Reference.rooted) := by
  have hroots : ∀ root ∈ ["/srv"], Accepted Reference.rooted.fs root := fun root hmem => by
    rw [List.mem_singleton.mp hmem]
    exact Reference.accepted_srv
  obtain ⟨⟨-, hopen⟩, hanswer, -⟩ :=
    folder_authorization_iff Reference.rooted_short Reference.accepted_srv hroots Reference.askable_srv
  refine ⟨(hopen fun _ _ => rfl).mpr (by decide), hanswer.mpr fun hslash => ?_⟩
  have hmem := hslash.mem
  revert hmem
  decide

end SecretsVault
