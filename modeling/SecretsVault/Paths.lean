import SecretsVault.Model

/-!
# Paths, walks and canonical forms

The names in a path, and the directories on the way to them.

- `pathNames_absolutePath`, `pathComponents_absolutePath`: an absolute path of names is taken apart into them.
- `pathNames_joinPath`: the names of a destination are those of its folder and of the relative path.
- `FileSystem.DirsBelow fs base names`: every name leads from `base` to a directory, and no link is on the way.
- `walkBeneath_eq_ok_iff`: what the kernel resolves beneath a directory without following a link.
- `canonicalize_plain`: a folder in canonical form is reached without a link.
-/

namespace SecretsVault

open Lib

/-! ## Names -/

/-- The names in a path. -/
def pathNames (p : Path) : List String := (splitPath p).filter fun part => !isVoidPart part

/-- A name a directory entry can have. -/
structure IsName (n : String) : Prop where
  filled : isVoidPart n = false
  notParent : n ≠ ".."
  noNul : hasNul n = false
  whole : '/' ∉ n.toList

theorem toList_slash : "/".toList = ['/'] := rfl

theorem splitPath_ne_nil (p : Path) : splitPath p ≠ [] := by
  simp [splitPath]

/-- The parts of a path that is put together from parts. -/
theorem splitPath_intercalate {names : List String} (hne : names ≠ []) (h : ∀ n ∈ names, '/' ∉ n.toList) :
    splitPath ("/".intercalate names) = names := by
  rw [splitPath, String.toList_intercalate, toList_slash, List.splitOn_intercalate]
  · simp [List.map_map, Function.comp_def, String.ofList_toList]
  · simpa using h
  · simpa using hne

/-- A path that is put together from names has no NUL in it. -/
theorem hasNul_intercalate {names : List String} (h : ∀ n ∈ names, hasNul n = false) :
    hasNul ("/".intercalate names) = false := by
  induction names with
  | nil => decide
  | cons n names ih =>
    have hn := h n List.mem_cons_self
    have hrest := ih fun m hm => h m (List.mem_cons_of_mem _ hm)
    cases names with
    | nil => simpa using hn
    | cons m names =>
      rw [String.intercalate_cons_cons]
      simp only [hasNul, List.contains_eq_mem, decide_eq_false_iff_not, String.toList_append,
        List.mem_append] at hn hrest ⊢
      rintro ((hmem | hmem) | hmem)
      · exact hn hmem
      · simp [toList_slash] at hmem
      · exact hrest hmem

theorem splitPath_slash (a b : Path) : splitPath (a ++ "/" ++ b) = splitPath a ++ splitPath b := by
  rw [splitPath, String.toList_append, String.toList_append, toList_slash, List.append_assoc, List.singleton_append,
    List.splitOn_append_cons_self, List.map_append]
  rfl

/-- The characters of a piece are of the text, and none of them is the separator. -/
theorem mem_splitOn {sep : Char} {l cs : List Char} (h : cs ∈ l.splitOn sep) : ∀ c ∈ cs, c ∈ l ∧ c ≠ sep := by
  induction l generalizing cs with
  | nil => simp_all
  | cons c l ih =>
    rw [List.splitOn_cons_eq_if_modifyHead] at h
    by_cases hc : c = sep
    · rw [if_pos (by simpa using hc)] at h
      rcases List.mem_cons.mp h with rfl | hcs
      · intro x hx
        exact nomatch hx
      · exact fun x hx => ⟨List.mem_cons_of_mem _ (ih hcs x hx).1, (ih hcs x hx).2⟩
    · rw [if_neg (by simpa using hc)] at h
      obtain ⟨first, rest, hfirst⟩ := List.exists_cons_of_ne_nil (List.splitOn_ne_nil sep l)
      rw [hfirst] at ih h
      rcases List.mem_cons.mp h with rfl | hcs
      · intro x hx
        rcases List.mem_cons.mp hx with rfl | hx
        · exact ⟨List.mem_cons_self, hc⟩
        · exact ⟨List.mem_cons_of_mem _ (ih List.mem_cons_self x hx).1, (ih List.mem_cons_self x hx).2⟩
      · exact fun x hx => ⟨List.mem_cons_of_mem _ (ih (List.mem_cons_of_mem _ hcs) x hx).1,
          (ih (List.mem_cons_of_mem _ hcs) x hx).2⟩

/-- A part has no separator in it. -/
theorem slash_not_mem_splitPath {p : Path} {part : String} (h : part ∈ splitPath p) : '/' ∉ part.toList := by
  obtain ⟨cs, hcs, rfl⟩ := List.mem_map.mp h
  rw [String.toList_ofList]
  exact fun hmem => (mem_splitOn hcs _ hmem).2 rfl

theorem hasNul_of_mem_splitPath {p : Path} {part : String} (hp : hasNul p = false) (h : part ∈ splitPath p) :
    hasNul part = false := by
  obtain ⟨cs, hcs, rfl⟩ := List.mem_map.mp h
  simp only [hasNul, List.contains_eq_mem, decide_eq_false_iff_not, String.toList_ofList] at hp ⊢
  exact fun hmem => hp (mem_splitOn hcs _ hmem).1

theorem pathNames_slash (a b : Path) : pathNames (a ++ "/" ++ b) = pathNames a ++ pathNames b := by
  rw [pathNames, splitPath_slash, List.filter_append]
  rfl

theorem isName_of_mem {p : Path} {n : String} (hp : hasNul p = false) (h : n ∈ pathNames p) (hn : n ≠ "..") :
    IsName n := by
  obtain ⟨hmem, hvoid⟩ := List.mem_filter.mp h
  exact ⟨by simpa using hvoid, hn, hasNul_of_mem_splitPath hp hmem, slash_not_mem_splitPath hmem⟩

/-- Names are their own. -/
theorem filter_names {names : List String} (h : ∀ n ∈ names, IsName n) :
    names.filter (fun part => !isVoidPart part) = names :=
  List.filter_eq_self.mpr fun n hn => by rw [(h n hn).filled]; rfl

theorem dropWhile_names {names : List String} (h : ∀ n ∈ names, IsName n) : names.dropWhile isVoidPart = names := by
  cases names with
  | nil => rfl
  | cons n names => rw [List.dropWhile_cons_of_neg (by simp [(h n List.mem_cons_self).filled])]

/-! ## Absolute paths -/

theorem absolutePath_eq {names : List String} (hne : names ≠ []) :
    absolutePath names = "" ++ "/" ++ "/".intercalate names := by
  rw [absolutePath, if_neg hne]
  induction names with
  | nil => exact (hne rfl).elim
  | cons n names ih =>
    cases names with
    | nil => simp
    | cons m names =>
      have hrest := ih (List.cons_ne_nil _ _)
      rw [List.map_cons, String.join_cons, hrest, String.intercalate_cons_cons]
      simp [String.append_assoc]

variable {names : List String}

theorem splitPath_absolutePath (hne : names ≠ []) (h : ∀ n ∈ names, IsName n) :
    splitPath (absolutePath names) = "" :: names := by
  rw [absolutePath_eq hne, splitPath_slash, splitPath_intercalate hne fun n hn => (h n hn).whole]
  rfl

/-- The names of an absolute path are those it is made of. -/
theorem pathNames_absolutePath (h : ∀ n ∈ names, IsName n) : pathNames (absolutePath names) = names := by
  by_cases hne : names = []
  · subst hne
    decide
  · rw [pathNames, splitPath_absolutePath hne h]
    exact filter_names h

theorem isAbsolute_absolutePath (names : List String) : isAbsolute (absolutePath names) = true := by
  by_cases hne : names = []
  · subst hne
    decide
  · rw [absolutePath_eq hne, isAbsolute, String.toList_append, String.toList_append]
    simp [toList_slash]

theorem ofPart_name {n : String} (hfilled : isVoidPart n = false) (hn : n ≠ "..") :
    PathComponent.ofPart n = some (.normal n) := by
  simp only [isVoidPart, Bool.or_eq_false_iff, decide_eq_false_iff_not] at hfilled
  rw [PathComponent.ofPart, if_neg (by tauto), if_neg hn]

/-- What stands for no component does not count. -/
theorem filterMap_ofPart (parts : List String) :
    parts.filterMap PathComponent.ofPart = (parts.filter fun part => !isVoidPart part).filterMap
    PathComponent.ofPart := by
  rw [List.filterMap_filter]
  refine List.filterMap_congr fun part _ => ?_
  by_cases hvoid : part = "" ∨ part = "."
  · rw [PathComponent.ofPart, if_pos hvoid]
    simp [isVoidPart]
  · have hfalse : isVoidPart part = false := by simpa [isVoidPart] using hvoid
    simp [hfalse]

/-- The components of an absolute path without `..`. -/
theorem pathComponents_absolute {p : Path} (habs : isAbsolute p = true) (h : ∀ n ∈ pathNames p, n ≠ "..") :
    pathComponents p = .rootDir :: (pathNames p).map .normal := by
  have hrest : (splitPath p).filterMap PathComponent.ofPart = (pathNames p).map .normal := by
    rw [filterMap_ofPart, ← List.filterMap_eq_map]
    exact List.filterMap_congr fun n hn => ofPart_name (by simpa using (List.mem_filter.mp hn).2) (h n hn)
  rw [pathComponents, habs, if_pos rfl, hrest]

/-- A component `..` is a part `..`. -/
theorem parentDir_mem_pathComponents {p : Path} : .parentDir ∈ pathComponents p ↔ ".." ∈ pathNames p := by
  have hpart : .parentDir ∈ (splitPath p).filterMap PathComponent.ofPart ↔ ".." ∈ pathNames p := by
    rw [filterMap_ofPart, List.mem_filterMap]
    constructor
    · rintro ⟨part, hmem, heq⟩
      unfold PathComponent.ofPart at heq
      split at heq
      · cases heq
      · split at heq
        · rename_i h
          rw [← h]
          exact hmem
        · cases heq
    · exact fun h => ⟨"..", h, by decide⟩
  rw [pathComponents]
  split
  · simpa using hpart
  · split
    · simpa using hpart
    · exact hpart

/-! ## Joining -/

/-- The names of a destination. -/
theorem pathNames_joinPath {folder relative : Path} (h : isAbsolute relative = false) :
    pathNames (joinPath folder relative) = pathNames folder ++ pathNames relative := by
  rw [joinPath, h, if_neg Bool.false_ne_true]
  split
  · rename_i hlast
    obtain ⟨front, hfront⟩ : ∃ front : String, folder = front ++ "/" := by
      obtain ⟨cs, hcs⟩ := List.getLast?_eq_some_iff.mp hlast
      refine ⟨String.ofList cs, String.toList_injective ?_⟩
      rw [hcs, String.toList_append, String.toList_ofList, toList_slash]
    have hempty : pathNames (front ++ "/") = pathNames front := by
      have hslash := pathNames_slash front ""
      rw [String.append_empty] at hslash
      rw [hslash]
      exact List.append_nil _
    rw [hfront, pathNames_slash, hempty]
  · exact pathNames_slash _ _

/-! ## Directories on the way -/

namespace FileSystem

variable {fs : FileSystem} {base : List String}

/-- Every name leads from the base on to a directory. -/
def DirsBelow (fs : FileSystem) (base : List String) : List String → Prop
  | [] => True
  | n :: rest => fs.node (base ++ [n]) = some .dir ∧ fs.DirsBelow (base ++ [n]) rest

theorem dirsBelow_append {a b : List String} : fs.DirsBelow base (a ++ b) ↔ fs.DirsBelow base a ∧
    fs.DirsBelow (base ++ a) b := by
  induction a generalizing base with
  | nil => simp [DirsBelow]
  | cons n a ih => simp [DirsBelow, ih, and_assoc]

theorem dirsBelow_concat {a : List String} {n : String} :
    fs.DirsBelow base (a ++ [n]) ↔ fs.DirsBelow base a ∧ fs.node (base ++ a ++ [n]) = some .dir := by
  rw [dirsBelow_append]
  simp [DirsBelow]

/-- The directories that are the same in both file systems. -/
theorem DirsBelow.congr {fs' : FileSystem} {names : List String} (h : fs.DirsBelow base names)
    (hsame : ∀ p, p <+: names → fs'.node (base ++ p) = fs.node (base ++ p)) : fs'.DirsBelow base names := by
  induction names generalizing base with
  | nil => trivial
  | cons n names ih =>
    obtain ⟨hdir, hrest⟩ := h
    refine ⟨by rw [hsame [n] (by simp)]; exact hdir, ih hrest fun p hp => ?_⟩
    have heq := hsame (n :: p) (List.cons_prefix_cons.mpr ⟨rfl, hp⟩)
    simpa using heq

/-- What the kernel resolves: every name is a directory, and the last one is found. -/
theorem walkBeneath_eq_ok_iff {root below parts dir : List String} (h : ".." ∉ parts) :
    fs.walkBeneath root below parts = .ok dir ↔
      fs.DirsBelow (root ++ below) (parts.filter fun part => !isVoidPart part) ∧
        dir = root ++ below ++ parts.filter fun part => !isVoidPart part := by
  induction parts generalizing below with
  | nil => simp [walkBeneath, DirsBelow, eq_comm]
  | cons part parts ih =>
    simp only [List.mem_cons, not_or] at h
    rw [walkBeneath]
    by_cases hvoid : part = "" ∨ part = "."
    · have htrue : isVoidPart part = true := by simpa [isVoidPart] using hvoid
      rw [if_pos hvoid, ih h.2, List.filter_cons_of_neg (by simp [htrue])]
    · have hfalse : isVoidPart part = false := by simpa [isVoidPart] using hvoid
      rw [if_neg hvoid, if_neg (Ne.symm h.1), List.filter_cons_of_pos (by simp [hfalse])]
      simp only [DirsBelow]
      cases hnode : fs.node (root ++ below ++ [part]) with
      | none => simp
      | some node =>
        cases node with
        | dir => simp [ih h.2]
        | _ => simp

/-- A walk that fails does so with an error of its path. -/
theorem walkBeneath_eq_error {root below parts : List String} {errno : Nat}
    (h : fs.walkBeneath root below parts = .error errno) : errno ∈ [ENOENT, EXDEV, ENOTDIR, ELOOP] := by
  induction parts generalizing below with
  | nil => cases h
  | cons part parts ih =>
    rw [walkBeneath] at h
    split at h
    · exact ih h
    · split at h
      · split at h
        · cases h
          decide
        · exact ih h
      · split at h
        · cases h
          decide
        · cases h
          decide
        · exact ih h
        · cases h
          decide

/-! ## Canonical forms -/

/-- Names that are reached from the root without a link. -/
structure Plain (fs : FileSystem) (names : List String) : Prop where
  isName : ∀ n ∈ names, IsName n
  dirs : fs.DirsBelow [] names

theorem Plain.nil : fs.Plain [] := ⟨fun _ h => (nomatch h), trivial⟩

theorem Plain.dropLast (h : fs.Plain names) : fs.Plain names.dropLast := by
  refine ⟨fun n hn => h.isName n (List.dropLast_subset _ hn), ?_⟩
  rcases List.eq_nil_or_concat names with rfl | ⟨front, n, rfl⟩
  · trivial
  · rw [List.concat_eq_append, List.dropLast_concat]
    have hdirs := h.dirs
    rw [List.concat_eq_append] at hdirs
    exact (dirsBelow_concat.mp hdirs).1

theorem Plain.concat {n : String} (h : fs.Plain names) (hn : IsName n) (hdir : fs.node (names ++ [n]) = some .dir) :
    fs.Plain (names ++ [n]) := by
  refine ⟨fun m hm => ?_, dirsBelow_concat.mpr ⟨h.dirs, hdir⟩⟩
  rcases List.mem_append.mp hm with hm | hm
  · exact h.isName m hm
  · rw [List.mem_singleton.mp hm]
    exact hn

/-- A resolution stays on plain names, and ends at one or at something that is no directory. -/
theorem resolve_plain {links : Nat} {base parts names : List String} (h : fs.resolve links base parts = some names)
    (hbase : fs.Plain base) (hparts : ∀ part ∈ parts, '/' ∉ part.toList) (hdir : fs.isDir names = true) :
    fs.Plain names := by
  fun_induction FileSystem.resolve fs links base parts with
  | case1 links base =>
    cases h
    exact hbase
  | case2 links base part rest hvoid ih => exact ih h hbase fun q hq => hparts q (List.mem_cons_of_mem _ hq)
  | case3 links base rest hvoid ih => exact ih h hbase.dropLast fun q hq => hparts q (List.mem_cons_of_mem _ hq)
  | case4 | case5 | case6 | case10 => cases h
  | case7 base part rest hvoid hparent hnul target hnode links ih =>
    refine ih h ?_ fun q hq => ?_
    · split
      · exact .nil
      · exact hbase
    · rcases List.mem_append.mp hq with hq | hq
      · exact slash_not_mem_splitPath hq
      · exact hparts q (List.mem_cons_of_mem _ hq)
  | case8 links base part rest hvoid hparent hnul hnode ih =>
    have hname : IsName part :=
      ⟨by simpa [isVoidPart] using hvoid, hparent, by simpa using hnul, hparts part List.mem_cons_self⟩
    exact ih h (hbase.concat hname hnode) fun q hq => hparts q (List.mem_cons_of_mem _ hq)
  | case9 links base part hvoid hparent hnul node hlink hnotdir hnode =>
    cases h
    rw [isDir, hnode] at hdir
    cases node with
    | dir => exact (hnotdir rfl).elim
    | _ => simp at hdir

/-- A directory in canonical form is reached from the root without a link. -/
theorem canonicalize_plain {p : Path} {names : List String} (h : fs.canonicalize p = some names)
    (hdir : fs.isDir names = true) : fs.Plain names :=
  resolve_plain h .nil (fun _ => slash_not_mem_splitPath) hdir

end FileSystem

end SecretsVault
