import SecretsVault.FsOps
import SecretsVault.Paths

/-!
# The grammar of destinations

A relative destination is one to 4096 bytes of plain names with one separator between them (`IsDestination`). The check
goes over the components of the path, which leave out empty parts and `.` behind the first; what follows splits the
string itself.

- `validateRelative_iff`: what the check lets through.
- `Resolvable`: what `resolveTarget` lets through before it opens anything.
- `destination_grammar_iff`: the check is the grammar on the strings that have no empty part and no `.` behind the first
  part, and on those that are refused for another reason.
-/

namespace SecretsVault

open Lib Lib.Prog

variable {p folder : Path}

/-! ## The grammar and the check -/

/-- One to 4096 bytes without NUL, whose parts are plain names. -/
def IsDestination (p : Path) : Prop :=
  1 ≤ p.utf8ByteSize ∧ p.utf8ByteSize ≤ MAX_PATH_LEN ∧ hasNul p = false ∧
    ∀ part ∈ splitPath p, part ≠ "" ∧ part ≠ "." ∧ part ≠ ".."

/-- Behind the first part there is no empty one and no `.`: no separator is doubled or trails. -/
def Undotted (p : Path) : Prop := ∀ part ∈ (splitPath p).tail, part ≠ "" ∧ part ≠ "."

/-- The length, a NUL, the first part or a part `..` is in the way. -/
def RefusedOtherwise (p : Path) : Prop :=
  p.utf8ByteSize = 0 ∨ MAX_PATH_LEN < p.utf8ByteSize ∨ hasNul p = true ∨ isVoidPart ((splitPath p).headD "") = true ∨
    ".." ∈ splitPath p

theorem headD_mem_splitPath (p : Path) : (splitPath p).headD "" ∈ splitPath p := by
  obtain ⟨part, rest, hparts⟩ := List.exists_cons_of_ne_nil (splitPath_ne_nil p)
  rw [hparts]
  exact List.mem_cons_self

/-- An absolute path has an empty first part. -/
theorem isAbsolute_of_head (hne : p ≠ "") : isAbsolute p = true ↔ (splitPath p).headD "" = "" := by
  rcases hp : p.toList with _ | ⟨c, cs⟩
  · exact (hne (String.toList_eq_nil_iff.mp hp)).elim
  rw [isAbsolute, splitPath, hp, List.splitOn_cons_eq_if_modifyHead]
  by_cases hc : c = '/'
  · subst hc
    simp
  · obtain ⟨first, rest, hfirst⟩ := List.exists_cons_of_ne_nil (List.splitOn_ne_nil '/' cs)
    simp [hc, hfirst]

/-- The components of a relative path are plain if its first part is not `.` and no part is `..`. -/
theorem components_plain (habs : isAbsolute p = false) :
    (∀ c ∈ pathComponents p, ∃ name, c = .normal name) ↔ (splitPath p).headD "" ≠ "." ∧ ".." ∉ splitPath p := by
  have hhead : (splitPath p).head? = some "." ↔ (splitPath p).headD "" = "." := by
    obtain ⟨part, rest, hparts⟩ := List.exists_cons_of_ne_nil (splitPath_ne_nil p)
    rw [hparts, List.head?_cons, List.headD_cons, Option.some.injEq]
  rw [pathComponents, habs, if_neg Bool.false_ne_true]
  by_cases hdot : (splitPath p).headD "" = "."
  · rw [if_pos (hhead.mpr hdot)]
    refine iff_of_false (fun hplain => ?_) fun h => h.1 hdot
    obtain ⟨name, hname⟩ := hplain _ List.mem_cons_self
    cases hname
  · rw [if_neg fun h => hdot (hhead.mp h)]
    constructor
    · refine fun hplain => ⟨hdot, fun hparent => ?_⟩
      obtain ⟨name, hname⟩ := hplain .parentDir (List.mem_filterMap.mpr ⟨"..", hparent, by decide⟩)
      cases hname
    · rintro ⟨-, hparent⟩ c hc
      obtain ⟨part, hpart, hof⟩ := List.mem_filterMap.mp hc
      unfold PathComponent.ofPart at hof
      split at hof
      · cases hof
      · have hne : part ≠ ".." := by
          rintro rfl
          exact hparent hpart
        rw [if_neg hne] at hof
        exact ⟨part, (Option.some.inj hof).symm⟩

/-- What the check lets through: the strings that are not refused otherwise. -/
theorem validateRelative_iff (p : Path) : validateRelative p = .ok () ↔ ¬RefusedOtherwise p := by
  unfold validateRelative RefusedOtherwise
  by_cases hlen : (p.isEmpty || decide (MAX_PATH_LEN < p.utf8ByteSize)) = true
  · rw [if_pos hlen]
    refine iff_of_false (by simp) (not_not_intro ?_)
    simp only [Bool.or_eq_true, decide_eq_true_eq, String.isEmpty_iff_utf8ByteSize_eq_zero] at hlen
    tauto
  rw [if_neg hlen]
  simp only [Bool.or_eq_true, decide_eq_true_eq, String.isEmpty_iff_utf8ByteSize_eq_zero, not_or] at hlen
  rw [show p.toList.contains '\x00' = hasNul p from rfl]
  by_cases hnul : hasNul p = true
  · rw [if_pos hnul]
    exact iff_of_false (by simp) (not_not_intro (Or.inr (Or.inr (Or.inl hnul))))
  rw [if_neg hnul]
  have hne : p ≠ "" := by
    rintro rfl
    exact hlen.1 rfl
  by_cases habs : isAbsolute p = true
  · rw [if_pos habs]
    refine iff_of_false (by simp) (not_not_intro (Or.inr (Or.inr (Or.inr (Or.inl ?_)))))
    rw [(isAbsolute_of_head hne).mp habs]
    rfl
  rw [if_neg habs]
  have hfirst : isVoidPart ((splitPath p).headD "") = true ↔ (splitPath p).headD "" = "." := by
    rw [isVoidPart, Bool.or_eq_true, decide_eq_true_eq, decide_eq_true_eq]
    exact or_iff_right fun hempty => habs ((isAbsolute_of_head hne).mpr hempty)
  have hplain := components_plain (by simpa using habs)
  split
  · rename_i hany
    refine iff_of_false (by simp) (not_not_intro (Or.inr (Or.inr (Or.inr ?_))))
    rw [hfirst]
    by_contra hnot
    rw [not_or] at hnot
    obtain ⟨c, hc, hkind⟩ := List.any_eq_true.mp hany
    obtain ⟨name, rfl⟩ := hplain.mpr hnot c hc
    cases hkind
  · rename_i hany
    rw [hfirst]
    refine iff_of_true rfl ?_
    have hall := hplain.mp fun c hc => by
      cases c with
      | normal name => exact ⟨name, rfl⟩
      | rootDir | curDir | parentDir => exact (hany (List.any_eq_true.mpr ⟨_, hc, rfl⟩)).elim
    tauto

/-- What is refused for another reason is no destination. -/
theorem IsDestination.not_refused (h : IsDestination p) : ¬RefusedOtherwise p := by
  obtain ⟨hpos, hlen, hnul, hparts⟩ := h
  rintro (hzero | hlong | hhas | hfirst | hparent)
  · omega
  · omega
  · rw [hnul] at hhas
    cases hhas
  · obtain ⟨hempty, hdot, -⟩ := hparts _ (headD_mem_splitPath p)
    rw [isVoidPart, Bool.or_eq_true, decide_eq_true_eq, decide_eq_true_eq] at hfirst
    exact hfirst.elim hempty hdot
  · exact (hparts _ hparent).2.2 rfl

/-- A string that is not refused for another reason is a destination if no part behind the first is empty or `.`. -/
theorem isDestination_iff (h : ¬RefusedOtherwise p) : IsDestination p ↔ Undotted p := by
  constructor
  · exact fun hp part hpart => ⟨(hp.2.2.2 part (List.mem_of_mem_tail hpart)).1,
      (hp.2.2.2 part (List.mem_of_mem_tail hpart)).2.1⟩
  · intro hundotted
    simp only [RefusedOtherwise, not_or, Bool.not_eq_true] at h
    obtain ⟨hlen, hlong, hnul, hfirst, hparent⟩ := h
    refine ⟨by omega, by omega, hnul, fun part hpart => ?_⟩
    have hne : part ≠ ".." := by
      rintro rfl
      exact hparent hpart
    obtain ⟨first, rest, hparts⟩ := List.exists_cons_of_ne_nil (splitPath_ne_nil p)
    rw [Undotted, hparts, List.tail_cons] at hundotted
    rw [hparts] at hpart hfirst
    rcases List.mem_cons.mp hpart with rfl | hrest
    · rw [List.headD_cons, isVoidPart, Bool.or_eq_false_iff] at hfirst
      exact ⟨of_decide_eq_false hfirst.1, of_decide_eq_false hfirst.2, hne⟩
    · exact ⟨(hundotted part hrest).1, (hundotted part hrest).2, hne⟩

/-! ## The lexical stage of a resolution -/

/-- The part of a destination in front of its last separator, if it has one. -/
def parentPart (p : Path) : Option String :=
  if (splitPath p).length ≤ 1 then none else some ("/".intercalate (splitPath p).dropLast)

/-- The part behind its last separator. -/
def fileNamePart (p : Path) : String := (splitPath p).getLastD ""

/-- The string passes the checks of a resolution, on its own and on its file name. -/
def Resolvable (p : Path) : Prop :=
  validateRelative p = .ok () ∧ ¬(fileNamePart p = "." ∨ fileNamePart p = ".." ∨ fileNamePart p = "")

/-- What resolves has passed the checks, and is named and shown as it was given. -/
theorem resolveTarget_resolvable {root : List String} {h h' : Host} {target : ContainedTarget}
    (hr : (resolveTarget root p folder).run h = (.ok target, h')) :
    Resolvable p ∧ target.fileName = fileNamePart p ∧ target.displayPath = joinPath folder p := by
  obtain ⟨_, h1, hvalid, hr⟩ := bind_eq_ok hr
  rw [run_lift] at hvalid
  have hok := Outcome.ofExcept_eq_ok (congrArg Prod.fst hvalid)
  have hnamed : ∀ {parent : List String} {h2 : Host},
      ((if fileNamePart p = "." ∨ fileNamePart p = ".." ∨ fileNamePart p = "" then
        .fail (.invalidInput "invalid destination file name")
        else pure ⟨parent, fileNamePart p, joinPath folder p⟩ : Prog VaultError Host ContainedTarget).run h2 =
          (.ok target, h')) →
      Resolvable p ∧ target.fileName = fileNamePart p ∧ target.displayPath = joinPath folder p := by
    intro parent h2 hr
    split at hr
    · cases hr
    · rename_i hname
      cases hr
      exact ⟨⟨hok, hname⟩, rfl, rfl⟩
  dsimp only at hr
  split at hr
  · obtain ⟨_, _, _, hr⟩ := bind_eq_ok hr
    exact hnamed hr
  · obtain ⟨_, _, _, hr⟩ := bind_eq_ok hr
    exact hnamed hr

/-- A path is put together from its parts. -/
theorem intercalate_splitPath (p : Path) : "/".intercalate (splitPath p) = p := by
  apply String.toList_injective
  rw [splitPath, String.toList_intercalate, toList_slash, List.map_map]
  simp [Function.comp_def]

/-- The parent part and the file name rejoin to the destination. -/
theorem rejoin (p : Path) : (parentPart p = none → fileNamePart p = p) ∧
    ∀ parent, parentPart p = some parent → parent ++ "/" ++ fileNamePart p = p := by
  obtain ⟨front, last, hparts⟩ : ∃ front last, splitPath p = front ++ [last] :=
    ⟨_, _, (List.dropLast_append_getLast (splitPath_ne_nil p)).symm⟩
  have hwhole := intercalate_splitPath p
  have hname : fileNamePart p = last := by rw [fileNamePart, hparts, List.getLastD_concat]
  rw [parentPart, hname, hparts, List.length_append, List.length_singleton, List.dropLast_concat]
  rw [hparts] at hwhole
  cases front with
  | nil =>
    refine ⟨fun _ => ?_, fun parent hparent => ?_⟩
    · rw [← hwhole, List.nil_append, String.intercalate_singleton]
    · cases hparent
  | cons part front =>
    rw [if_neg (by simp)]
    refine ⟨fun hnone => (nomatch hnone), fun parent hparent => ?_⟩
    cases hparent
    rw [← hwhole, String.intercalate_append_of_ne_nil (List.cons_ne_nil _ _) (List.cons_ne_nil _ _),
      String.intercalate_singleton]

theorem fileNamePart_mem (p : Path) : fileNamePart p ∈ splitPath p := by
  rw [fileNamePart, List.getLastD_eq_getLast?, List.getLast?_eq_some_getLast (splitPath_ne_nil p)]
  exact List.getLast_mem _

/-- A destination that is not refused is relative, without NUL and without a part `..`. -/
theorem plain_of_not_refused (h : ¬RefusedOtherwise p) : isAbsolute p = false ∧ hasNul p = false ∧
    ".." ∉ splitPath p := by
  simp only [RefusedOtherwise, not_or, Bool.not_eq_true] at h
  obtain ⟨hlen, -, hnul, hfirst, hparent⟩ := h
  refine ⟨?_, hnul, hparent⟩
  by_contra habs
  have hne : p ≠ "" := by
    rintro rfl
    exact hlen rfl
  rw [(isAbsolute_of_head hne).mp (by simpa using habs)] at hfirst
  cases hfirst

/-- A name is one plain component. -/
theorem IsName.components {n : String} (h : IsName n) : pathComponents n = [.normal n] := by
  have hparts : splitPath n = [n] := by
    have hjoined := splitPath_intercalate (List.cons_ne_nil n []) fun m hm => by
      rw [List.mem_singleton.mp hm]; exact h.whole
    rwa [String.intercalate_singleton] at hjoined
  have habs : isAbsolute n = false := by
    rw [isAbsolute, beq_eq_false_iff_ne]
    exact fun hhead => h.whole (List.mem_of_head? hhead)
  have hdot : n ≠ "." := by
    rintro rfl
    exact absurd h.filled (by decide)
  rw [pathComponents, habs, if_neg Bool.false_ne_true, hparts, if_neg (by simpa using hdot), List.filterMap_cons_some
    (ofPart_name h.filled h.notParent), List.filterMap_nil]

/-- A resolvable destination has a plain file name. -/
theorem Resolvable.fileName (h : Resolvable p) : IsName (fileNamePart p) := by
  obtain ⟨-, hnul, -⟩ := plain_of_not_refused ((validateRelative_iff p).mp h.1)
  have hname := h.2
  simp only [not_or] at hname
  exact ⟨by simp [isVoidPart, hname.1, hname.2.2], hname.2.1, hasNul_of_mem_splitPath hnul (fileNamePart_mem p),
    slash_not_mem_splitPath (fileNamePart_mem p)⟩

/-- A resolvable destination is shown strictly below the folder. -/
theorem Resolvable.below (h : Resolvable p) (folder : Path) : ∃ names, names ≠ [] ∧ (∀ n ∈ names, IsName n) ∧
    pathNames (joinPath folder p) = pathNames folder ++ names := by
  obtain ⟨habs, hnul, hparent⟩ := plain_of_not_refused ((validateRelative_iff p).mp h.1)
  refine ⟨pathNames p, ?_, fun n hn => isName_of_mem hnul hn ?_, pathNames_joinPath habs⟩
  · exact List.ne_nil_of_mem (List.mem_filter.mpr ⟨fileNamePart_mem p, by rw [h.fileName.filled]; rfl⟩)
  · rintro rfl
    exact hparent (List.mem_of_mem_filter hn)

/-! ## The grammar of what is let through -/

/-- What a string should be where a resolution lets it through: its parts rejoin to it, its file name is one plain
component, and it is shown strictly below the folder. -/
structure WellTaken (p : Path) : Prop where
  rejoins : (parentPart p = none → fileNamePart p = p) ∧
    ∀ parent, parentPart p = some parent → parent ++ "/" ++ fileNamePart p = p
  plain : pathComponents (fileNamePart p) = [.normal (fileNamePart p)]
  below : ∀ folder, ∃ names, names ≠ [] ∧ (∀ n ∈ names, IsName n) ∧
    pathNames (joinPath folder p) = pathNames folder ++ names

/-- The check is the grammar on a string, and the string is well taken if it resolves, if and only if it has no empty
part and no `.` behind the first part, or is refused for another reason; and what resolves in a folder was resolvable,
and has the file name and the display path of the string. -/
theorem destination_grammar_iff (p : Path) :
    (((validateRelative p = .ok () ↔ IsDestination p) ∧ (Resolvable p → WellTaken p)) ↔ Undotted p ∨
    RefusedOtherwise p) ∧ ∀ (root : List String) (folder : Path) (h h' : Host) (target : ContainedTarget),
      (resolveTarget root p folder).run h = (.ok target, h') →
      Resolvable p ∧ target.fileName = fileNamePart p ∧ target.displayPath = joinPath folder p := by
  refine ⟨?_, fun _ _ _ _ _ hr => resolveTarget_resolvable hr⟩
  have htaken : Resolvable p → WellTaken p := fun h => ⟨rejoin p, h.fileName.components, h.below⟩
  rw [and_iff_left htaken, validateRelative_iff]
  by_cases hrefused : RefusedOtherwise p
  · exact iff_of_true (iff_of_false (not_not_intro hrefused) fun h => h.not_refused hrefused) (Or.inr hrefused)
  · rw [or_iff_left hrefused, iff_true_left hrefused, isDestination_iff hrefused]

/-- A doubled separator passes the check. -/
theorem doubled_separator : validateRelative "a//b" = .ok () ∧ ¬IsDestination "a//b" := by
  refine ⟨by decide +kernel, fun h => ?_⟩
  exact (h.2.2.2 "" (by decide +kernel)).1 rfl

end SecretsVault
