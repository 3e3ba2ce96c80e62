import SecretsVault.AuditPaging
import SecretsVault.Dashboard.Moves

/-!
# The timeline of the audit log

The page of the log that the dashboard shows is merged from answers that arrive in any order, while the log grows. An
older page is merged wherever it lands: it takes the cursor with it, also when it does not reach up to the slice.

- `rows log a b`: the entries `a` to `b`.
- `merge_rows`: two slices that touch or overlap are merged to one.
- `covers_older_iff`: when an older page leaves a slice without holes.
- `timeline_has_no_holes`: over runs of the whole page, with the log.
-/

namespace SecretsVault.Dashboard

open Lib Coroutine

/-! ## Rows of the log -/

/-- A line of the log as the backend of the dashboard passes it on. -/
def rowOf (l : AuditLine) : AuditEntry :=
  { seq := l.event.seq, ts := l.event.ts, actor := l.event.actor, op := l.event.op, project := l.event.project,
    keys := l.event.keys, decision := match l.event.decision with | .allowed => "allowed" | .denied => "denied",
    reason := l.event.reason, runId := l.event.runId, authenticated := l.mac.isSome }

/-- The answer to a read of one page of the log. -/
def pageOf (log : List AuditLine) (tail : Nat) (before : Option Nat) : AuditPage :=
  ⟨(auditPage log tail before).1.map rowOf, (auditPage log tail before).2⟩

/-- A line as it is shown. -/
def shown (l : AuditLine) : AuditEntry := sanitizeAuditEntry (rowOf l)

/-- The entries `a` to `b` of the log, as they are shown. -/
def rows (log : List AuditLine) (a b : Nat) : List AuditEntry :=
  (log.map shown).filter fun e => decide (a ≤ e.seq ∧ e.seq ≤ b)

/-- The slice is the entries `a` to `b`, and its cursor is the number before. -/
structure Covers (log : List AuditLine) (slice : AuditPage) (a b : Nat) : Prop where
  first : 1 ≤ a
  nonempty : a ≤ b
  last : b ≤ log.length
  entries : slice.entries = rows log a b
  cursor : slice.nextBeforeSeq = if 1 < a then some (a - 1) else none

/-- The slice is a part of the log without a hole, or nothing of a log that was empty. -/
def Whole (log : List AuditLine) (slice : AuditPage) : Prop := slice = ⟨[], none⟩ ∨ ∃ a b, Covers log slice a b

section

variable {log more : List AuditLine} {a b k p : Nat}

theorem shown_seq (l : AuditLine) : (shown l).seq = l.event.seq := rfl

theorem mem_rows {e : AuditEntry} : e ∈ rows log a b ↔ e ∈ log.map shown ∧ a ≤ e.seq ∧ e.seq ≤ b := by
  simp [rows, List.mem_filter]

theorem rows_pairwise (h : Numbered 0 log) (a b : Nat) : (rows log a b).Pairwise (fun e f => e.seq < f.seq) := by
  apply List.Pairwise.sublist List.filter_sublist
  rw [List.pairwise_map]
  exact h.pairwise

theorem rows_nodup (h : Numbered 0 log) (a b : Nat) : (rows log a b).Nodup := by
  refine (rows_pairwise h a b).imp fun hlt heq => ?_
  rw [heq] at hlt
  exact Nat.lt_irrefl _ hlt

/-- Lines with one number are one. -/
theorem eq_of_seq {e f : AuditEntry} (h : Numbered 0 log) (he : e ∈ log.map shown) (hf : f ∈ log.map shown)
    (heq : e.seq = f.seq) : e = f := by
  obtain ⟨l, hl, rfl⟩ := List.mem_map.mp he
  obtain ⟨m, hm, rfl⟩ := List.mem_map.mp hf
  obtain ⟨i, hi, rfl⟩ := List.mem_iff_getElem.mp hl
  obtain ⟨j, hj, rfl⟩ := List.mem_iff_getElem.mp hm
  rw [shown_seq, shown_seq, h.get hi, h.get hj] at heq
  obtain rfl : i = j := by omega
  rfl

/-- Every number of the log has its line. -/
theorem exists_row (h : Numbered 0 log) {n : Nat} (hn : 1 ≤ n) (hle : n ≤ log.length) : ∃ e ∈ log.map shown,
    e.seq = n := by
  have hi : n - 1 < log.length := by omega
  refine ⟨shown log[n - 1], List.mem_map.mpr ⟨_, List.getElem_mem hi, rfl⟩, ?_⟩
  rw [shown_seq, h.get hi]
  omega

/-- The numbers of the rows, without a hole. -/
theorem rows_seq (h : Numbered 0 log) (ha : 1 ≤ a) (hb : b ≤ log.length) :
    (rows log a b).map (·.seq) = List.range' a (b + 1 - a) := by
  have hsorted : ((rows log a b).map (·.seq)).Pairwise (· < ·) := by
    rw [List.pairwise_map]
    exact rows_pairwise h a b
  refine List.Perm.eq_of_pairwise (fun x y _ _ hxy hyx => absurd hyx (Nat.not_lt_of_gt hxy))
    hsorted List.pairwise_lt_range' ?_
  refine (List.perm_ext_iff_of_nodup (hsorted.imp Nat.ne_of_lt) List.nodup_range').mpr fun n => ?_
  rw [List.mem_map, List.mem_range'_1]
  constructor
  · rintro ⟨e, he, rfl⟩
    have hseq := (mem_rows.mp he).2
    omega
  · intro hn
    obtain ⟨e, he, hseq⟩ := exists_row h (show 1 ≤ n by omega) (by omega)
    exact ⟨e, mem_rows.mpr ⟨he, by omega, by omega⟩, hseq⟩

/-- The rows of a part of the log. -/
theorem rows_eq (h : Numbered 0 log) (d u : Nat) : rows log (d + 1) u = ((log.take u).drop d).map shown := by
  have hle := h.filter_le (u := u)
  have hgt := (h.take u).filter_gt (d := d)
  simp only [Nat.zero_add] at hle hgt
  rw [← hgt, ← hle, rows, List.filter_map, List.filter_filter]
  congr 2
  funext l
  simp only [Function.comp_apply, shown_seq, ← Bool.decide_and]
  rfl

/-- A page is a part of the log, and its cursor is the number before; of an empty log it is nothing. -/
theorem covers_page (h : Numbered 0 log) (before : Option Nat) {tail u : Nat} (htail : 1 ≤ tail)
    (hu : min (before.getD log.length) log.length = u) :
    if u = 0 then sanitizeAuditPage (pageOf log tail before) = ⟨[], none⟩
    else Covers log (sanitizeAuditPage (pageOf log tail before)) (u - tail + 1) u := by
  have hpage := auditPage_numbered h htail before
  rw [hu] at hpage
  dsimp only at hpage
  have hle : u ≤ log.length := by omega
  split
  · rename_i hzero
    subst hzero
    simp [pageOf, hpage, sanitizeAuditPage]
  · refine ⟨by omega, by omega, hle, ?_, ?_⟩
    · rw [rows_eq h, sanitizeAuditPage, pageOf, hpage, List.map_map]
      rfl
    · rw [sanitizeAuditPage, pageOf, hpage]
      dsimp only
      by_cases hlt : tail < u
      · rw [if_pos hlt, if_pos (by omega)]
        rfl
      · rw [if_neg hlt, if_neg (by omega)]

/-- What is appended to the log does not change the rows there are. -/
theorem rows_append (h : Numbered 0 (log ++ more)) (hb : b ≤ log.length) : rows (log ++ more) a b = rows log a b := by
  have hmore : (more.map shown).filter (fun e => decide (a ≤ e.seq ∧ e.seq ≤ b)) = [] := by
    rw [List.filter_eq_nil_iff]
    intro e he
    obtain ⟨l, hl, rfl⟩ := List.mem_map.mp he
    obtain ⟨i, hi, rfl⟩ := List.mem_iff_getElem.mp hl
    have hlen : log.length + i < (log ++ more).length := by
      rw [List.length_append]
      omega
    have hseq := h.get hlen
    rw [List.getElem_append_right (by omega)] at hseq
    simp only [Nat.add_sub_cancel_left] at hseq
    simp only [shown_seq, hseq, decide_eq_true_eq]
    omega
  rw [rows, List.map_append, List.filter_append, hmore, List.append_nil, rows]

/-- Two slices that touch or overlap are merged to one. -/
theorem merge_rows (h : Numbered 0 log) (hp : p ≤ a) (hk : a ≤ k + 1) :
    (rows log a b ++ (rows log p k).filter fun e => !(rows log a b).any (·.seq = e.seq)).mergeSort
      (fun e f => decide (e.seq ≤ f.seq)) = rows log p (max b k) := by
  set merged := rows log a b ++ (rows log p k).filter fun e => !(rows log a b).any (·.seq = e.seq) with hmerged
  have hmem : ∀ e, e ∈ merged ↔ e ∈ rows log p (max b k) := by
    intro e
    simp only [hmerged, List.mem_append, List.mem_filter, Bool.not_eq_true', List.any_eq_false, decide_eq_true_eq]
    rw [mem_rows, mem_rows, mem_rows]
    constructor
    · rintro (⟨he, hseq⟩ | ⟨⟨he, hseq⟩, -⟩)
      · exact ⟨he, by omega, by omega⟩
      · exact ⟨he, by omega, by omega⟩
    · rintro ⟨he, hseq⟩
      by_cases hin : a ≤ e.seq ∧ e.seq ≤ b
      · exact Or.inl ⟨he, hin⟩
      · refine Or.inr ⟨⟨he, by omega, by omega⟩, fun f hf heq => hin ?_⟩
        rw [← heq]
        exact (mem_rows.mp hf).2
  have hnodup : merged.Nodup := by
    refine List.nodup_append.mpr ⟨rows_nodup h a b, (rows_nodup h p k).filter _, fun e he f hf heq => ?_⟩
    subst heq
    have hnone := (List.mem_filter.mp hf).2
    simp only [Bool.not_eq_true', List.any_eq_false, decide_eq_true_eq] at hnone
    exact hnone e he rfl
  have hperm : merged.Perm (rows log p (max b k)) := (List.perm_ext_iff_of_nodup hnodup (rows_nodup h _ _)).mpr hmem
  have hsorted : (merged.mergeSort fun e f => decide (e.seq ≤ f.seq)).Pairwise fun e f => e.seq ≤ f.seq := by
    have hsort := @List.pairwise_mergeSort AuditEntry (fun e f => decide (e.seq ≤ f.seq))
      (fun x y z hxy hyz => by simp only [decide_eq_true_eq] at *; omega) (fun x y => by simp; omega) merged
    exact hsort.imp fun hle => by simpa using hle
  refine List.Perm.eq_of_pairwise (fun x y hx hy hxy hyx => ?_) hsorted ((rows_pairwise h _ _).imp Nat.le_of_lt)
    ((List.mergeSort_perm _ _).trans hperm)
  have hx' := (mem_rows.mp (hperm.mem_iff.mp ((List.mergeSort_perm _ _).mem_iff.mp hx))).1
  exact eq_of_seq h hx' (mem_rows.mp hy).1 (Nat.le_antisymm hxy hyx)

/-- A slice of the log is one of the log with what is appended to it. -/
theorem Covers.append {slice : AuditPage} (h : Covers log slice a b) (hn : Numbered 0 (log ++ more)) :
    Covers (log ++ more) slice a b where
  first := h.first
  nonempty := h.nonempty
  last := by
    have hlast := h.last
    rw [List.length_append]
    omega
  entries := by rw [rows_append hn h.last, h.entries]
  cursor := h.cursor

theorem Whole.append {slice : AuditPage} (h : Whole log slice) (hn : Numbered 0 (log ++ more)) :
    Whole (log ++ more) slice := by
  rcases h with rfl | ⟨a, b, hc⟩
  · exact Or.inl rfl
  · exact Or.inr ⟨a, b, hc.append hn⟩

/-! ## Pages that arrive -/

/-- A page that was read when the log had `n` entries. -/
theorem whole_page (h : Numbered 0 log) {n : Nat} (before : Option Nat) :
    Whole log (sanitizeAuditPage (pageOf (log.take n) AUDIT_PAGE_SIZE before)) := by
  have hpage := covers_page (h.take n) before (show 1 ≤ AUDIT_PAGE_SIZE by decide) rfl
  split at hpage
  · exact Or.inl hpage
  · have hsplit : log.take n ++ log.drop n = log := List.take_append_drop n log
    have hwhole : Whole (log.take n ++ log.drop n) _ := Or.inr ⟨_, _, hpage.append (by rwa [hsplit])⟩
    rwa [hsplit] at hwhole

/-- A page up to an entry that the log had. -/
theorem covers_page_up_to (h : Numbered 0 log) {n : Nat} (hk : 1 ≤ k) (hkn : k ≤ n) (hn : n ≤ log.length) :
    Covers log (sanitizeAuditPage (pageOf (log.take n) AUDIT_PAGE_SIZE (some k))) (k - AUDIT_PAGE_SIZE + 1) k := by
  have hlen : (log.take n).length = n := by
    rw [List.length_take]
    omega
  have hpage := covers_page (h.take n) (some k) (u := k) (show 1 ≤ AUDIT_PAGE_SIZE by decide) (by
    rw [Option.getD_some, hlen]
    omega)
  rw [if_neg (by omega)] at hpage
  have hsplit : log.take n ++ log.drop n = log := List.take_append_drop n log
  have hcovers : Covers (log.take n ++ log.drop n) _ _ _ := hpage.append (by rwa [hsplit])
  rwa [hsplit] at hcovers

/-- Without a slice an older page is the slice. -/
theorem older_of_none {s : ShellState} (hs : s.audit = none) (page : AuditPage) :
    (applyAuditOlderPage s page).audit = some (sanitizeAuditPage page) := by
  rw [applyAuditOlderPage, hs]

theorem older_of_some {s : ShellState} {slice : AuditPage} (hs : s.audit = some slice) (page : AuditPage) :
    (applyAuditOlderPage s page).audit = some ⟨(slice.entries ++ (sanitizeAuditPage page).entries.filter fun e =>
      !slice.entries.any (·.seq = e.seq)).mergeSort fun e f => decide (e.seq ≤ f.seq), page.nextBeforeSeq⟩ := by
  rw [applyAuditOlderPage, hs]
  rfl

variable {s : ShellState} {slice older : AuditPage}

/-- An older page that reaches up to the slice, and begins no later, is merged with it. -/
theorem covers_merged (h : Numbered 0 log) (hs : s.audit = some slice) (hc : Covers log slice a b)
    (hpage : Covers log (sanitizeAuditPage older) p k) (hp : p ≤ a) (hk : a ≤ k + 1) :
    ∃ merged, (applyAuditOlderPage s older).audit = some merged ∧ Covers log merged p (max b k) := by
  refine ⟨_, older_of_some hs older, hpage.first, ?_, ?_, ?_, hpage.cursor⟩
  · have hle := hpage.nonempty
    omega
  · have hlast := hc.last
    have hlast' := hpage.last
    omega
  · dsimp only
    rw [hc.entries, hpage.entries]
    exact merge_rows h hp hk

/-- An older page that does not reach up to the slice leaves a hole, and one that begins later a cursor that is too
high. -/
theorem not_whole_merged (h : Numbered 0 log) (hs : s.audit = some slice) (hc : Covers log slice a b)
    (hpage : Covers log (sanitizeAuditPage older) p k) (hno : a < p ∨ k + 1 < a) {merged : AuditPage}
    (hmerged : (applyAuditOlderPage s older).audit = some merged) : ¬Whole log merged := by
  rw [older_of_some hs older, Option.some.injEq] at hmerged
  have hmem : ∀ e, e ∈ merged.entries ↔ e ∈ rows log a b ∨ e ∈ rows log p k ∧ ∀ f ∈ rows log a b, f.seq ≠ e.seq := by
    intro e
    rw [← hmerged, hc.entries, hpage.entries, List.mem_mergeSort]
    simp [List.mem_append, List.mem_filter]
  have hfirst := hc.first
  have hle := hc.nonempty
  have hlast := hc.last
  have hle' := hpage.nonempty
  have hfirst' := hpage.first
  have hlast' := hpage.last
  obtain ⟨e, he, hseq⟩ := exists_row h hfirst (hle.trans hlast)
  have hin : e ∈ merged.entries := (hmem e).mpr (Or.inl (mem_rows.mpr ⟨he, by omega, by omega⟩))
  rintro (rfl | ⟨a', b', hc'⟩)
  · cases hin
  · rw [hc'.entries, mem_rows] at hin
    rcases hno with hno | hno
    · have hcursor := hc'.cursor
      rw [← hmerged] at hcursor
      have hnext := hpage.cursor
      rw [if_pos (by omega)] at hnext
      rw [show older.nextBeforeSeq = some (p - 1) from hnext] at hcursor
      split at hcursor
      · rw [Option.some.injEq] at hcursor
        omega
      · cases hcursor
    · -- the entry behind the page is in neither of them, but between the two
      obtain ⟨f, hf, hfseq⟩ := exists_row h (show 1 ≤ k by omega) hlast'
      have hfin : f ∈ merged.entries := (hmem f).mpr (Or.inr ⟨mem_rows.mpr ⟨hf, by omega, by omega⟩, fun g hg heq => by
        have hg := (mem_rows.mp hg).2
        omega⟩)
      rw [hc'.entries, mem_rows] at hfin
      obtain ⟨g, hg, hgseq⟩ := exists_row h (show 1 ≤ k + 1 by omega) (by omega)
      have hgin : g ∈ merged.entries := by
        rw [hc'.entries]
        exact mem_rows.mpr ⟨hg, by omega, by omega⟩
      rcases (hmem g).mp hgin with hg | ⟨hg, -⟩
      · have hg := (mem_rows.mp hg).2
        omega
      · have hg := (mem_rows.mp hg).2
        omega

/-- **When an older page leaves no hole**: the page up to entry `k` reaches up to the first entry of the slice, and
begins no later. -/
theorem covers_older_iff (h : Numbered 0 log) (hs : s.audit = some slice) (hc : Covers log slice a b) {n : Nat}
    (hk : 1 ≤ k) (hkn : k ≤ n) (hn : n ≤ log.length) :
    (∀ merged, (applyAuditOlderPage s (pageOf (log.take n) AUDIT_PAGE_SIZE (some k))).audit = some merged →
      Whole log merged) ↔ a ≤ k + 1 ∧ k < a + AUDIT_PAGE_SIZE := by
  have hpage := covers_page_up_to h hk hkn hn
  have hfirst := hc.first
  constructor
  · intro hwhole
    by_contra hno
    refine not_whole_merged h hs hc hpage ?_ (older_of_some hs _) (hwhole _ (older_of_some hs _))
    simp only [AUDIT_PAGE_SIZE] at hno ⊢
    omega
  · rintro ⟨hlow, hhigh⟩ merged hmerged
    simp only [AUDIT_PAGE_SIZE] at hhigh
    obtain ⟨merged', hmerged', hcovers⟩ := covers_merged h hs hc hpage (by simp only [AUDIT_PAGE_SIZE]; omega) hlow
    rw [hmerged'] at hmerged
    cases hmerged
    exact Or.inr ⟨_, _, hcovers⟩

end

/-! ## What the handlers keep -/

/-- No object of the page has a slice with a hole. -/
def Ui.Unbroken (log : List AuditLine) (u : Ui) : Prop := ∀ i slice, (u.objects i).shell.audit = some slice →
    Whole log slice

/-- The entries up to `k` that are asked for reach up to the slice, and begin no later. -/
def Ui.Reaches (u : Ui) (k : Nat) : Prop := ∀ slice first, u.shell.audit = some slice →
    slice.entries.head? = some first →
  first.seq ≤ k + 1 ∧ k < first.seq + AUDIT_PAGE_SIZE

/-- A page is one of the log as it was, and an older one fits the slice that it meets. -/
def Fits (log : List AuditLine) : (c : ApiCall) → Ui → Reply c → Ui → Prop
  | .auditShow tail before, _, .ok (page : AuditPage), u => tail = AUDIT_PAGE_SIZE ∧ ∃ n ≤ log.length,
    page = pageOf (log.take n) tail before ∧ ∀ k, before = some k → 1 ≤ k ∧ k ≤ n ∧ u.Reaches k
  | _, _, _, _ => True

section

variable {log more : List AuditLine} {u v : Ui}

theorem Ui.Unbroken.append (hu : u.Unbroken log) (hn : Numbered 0 (log ++ more)) : u.Unbroken (log ++ more) :=
  fun i slice h => (hu i slice h).append hn

/-- A new object. -/
theorem Ui.Unbroken.assign (hu : u.Unbroken log) {o : Obj} (ho : ∀ slice, o.shell.audit = some slice →
    Whole log slice) : (u.assign o).Unbroken log := by
  intro i slice h
  have h : (Function.update u.objects u.fresh o i).shell.audit = some slice := h
  by_cases hi : i = u.fresh
  · rw [hi, Function.update_self] at h
    exact ho slice h
  · rw [Function.update_of_ne hi] at h
    exact hu i slice h

/-- A new object with the slice of another. -/
theorem Ui.Unbroken.assign_of (hu : u.Unbroken log) {o : Obj} {i : Nat}
    (ho : o.shell.audit = (u.objects i).shell.audit ∨ o.shell.audit = none) : (u.assign o).Unbroken log := by
  refine hu.assign fun slice h => ?_
  rcases ho with ho | ho
  · exact hu i slice (ho.symm.trans h)
  · rw [ho] at h
    cases h

theorem Ui.Unbroken.refreshed (hu : u.Unbroken log) (status : BrokerStatus) (pin : PinStatus) :
    (u.refreshed status pin).Unbroken log := by
  rw [Ui.refreshed]
  split
  · exact hu.assign_of (i := 0) (Or.inr rfl)
  · exact hu.assign_of (i := 0) (Or.inr rfl)

/-- No handler makes a hole on its own. -/
theorem Moves.unbroken (h : Moves u v) (hu : u.Unbroken log) : v.Unbroken log := by
  cases h with
  | aside hobjects hcur hchosen htoken hlive =>
    rw [Ui.Unbroken, hobjects]
    exact hu
  | set hf => exact hu.assign_of (i := u.cur) hf.slices.audit
  | choose name =>
    rw [Ui.choose]
    split
    · exact hu
    · refine hu.assign_of (i := u.cur) (Or.inl ?_)
      dsimp only [applyActiveProject]
      split
      · rfl
      · rfl
  | openForm form => exact hu.assign_of (i := u.cur) (Or.inl rfl)
  | askDelete hproject key => exact hu.assign_of (i := u.cur) (Or.inl rfl)
  | refreshed status pin => exact hu.refreshed status pin
  | locked => exact hu.assign_of (i := 0) (Or.inr rfl)

theorem unbroken_writeHealth (hu : u.Unbroken log) (ref : Nat) (x : HealthResponse) :
    (u.writeHealth ref x).Unbroken log := by
  intro i slice h
  have h : (Function.update u.objects ref { u.objects ref with
    shell := { (u.objects ref).shell with health := some x } } i).shell.audit = some slice := h
  by_cases hi : i = ref
  · rw [hi, Function.update_self] at h
    exact hu ref slice h
  · rw [Function.update_of_ne hi] at h
    exact hu i slice h

/-- An older page that fits leaves no hole. -/
theorem whole_older (h : Numbered 0 log) {s : ShellState} {k n : Nat} (hs : ∀ slice, s.audit = some slice →
    Whole log slice) (hk : 1 ≤ k) (hkn : k ≤ n) (hn : n ≤ log.length)
    (hreaches : ∀ slice first, s.audit = some slice → slice.entries.head? = some first →
      first.seq ≤ k + 1 ∧ k < first.seq + AUDIT_PAGE_SIZE) {merged : AuditPage}
    (hmerged : (applyAuditOlderPage s (pageOf (log.take n) AUDIT_PAGE_SIZE (some k))).audit = some merged) :
      Whole log merged := by
  have hpage := covers_page_up_to h hk hkn hn
  cases hslice : s.audit with
  | none =>
    rw [older_of_none hslice] at hmerged
    cases hmerged
    exact Or.inr ⟨_, _, hpage⟩
  | some slice =>
    rcases hs slice hslice with rfl | ⟨a, b, hc⟩
    · -- nothing is loaded, and the page is merged with that
      rw [older_of_some hslice] at hmerged
      cases hmerged
      refine Or.inr ⟨_, _, hpage.first, hpage.nonempty, hpage.last, ?_, hpage.cursor⟩
      have hmerge := merge_rows (a := k - AUDIT_PAGE_SIZE + 1) (b := 0) h (Nat.le_refl _) (show _ ≤ k + 1 by omega)
      have hnone : rows log (k - AUDIT_PAGE_SIZE + 1) 0 = [] := by
        rw [List.eq_nil_iff_forall_not_mem]
        intro e he
        have hseq := (mem_rows.mp he).2
        omega
      rw [hnone, Nat.max_eq_right (Nat.zero_le k), ← hpage.entries] at hmerge
      exact hmerge.trans hpage.entries
    · have hhead : ∃ first, slice.entries.head? = some first ∧ first.seq = a := by
        have hseq := rows_seq h hc.first hc.last
        have hne := hc.nonempty
        rw [show b + 1 - a = (b - a) + 1 by omega, List.range'_succ] at hseq
        rw [hc.entries]
        cases hrows : rows log a b with
        | nil =>
          rw [hrows] at hseq
          cases hseq
        | cons e rest =>
          rw [hrows] at hseq
          exact ⟨e, rfl, (List.cons.inj hseq).1⟩
      obtain ⟨first, hfirst, rfl⟩ := hhead
      exact (covers_older_iff h hslice hc hk hkn hn).mpr (hreaches slice first hslice hfirst) merged hmerged

/-- No answer that fits makes a hole. -/
theorem Brings.unbroken {c : ApiCall} {s : Ui} {r : Reply c} (h : Brings c s r u v) (hn : Numbered 0 log)
    (hA : Fits log c s r u) (hu : u.Unbroken log) : v.Unbroken log := by
  cases h with
  | projects list => exact hu.assign_of (i := u.cur) (Or.inl rfl)
  | secrets h =>
    rw [Ui.storeSecrets, applySecrets] at h
    dsimp only at h
    split at h
    · cases h
    · cases h
      exact hu.assign_of (i := u.cur) (Or.inl rfl)
  | list hc hf haudit =>
    refine hu.assign fun slice hslice => ?_
    rw [show ({ u.obj with shell := _ } : Obj).shell.audit = _ from haudit] at hslice
    cases c with
    | auditShow tail before =>
      obtain ⟨rfl, n, hlen, rfl, hk⟩ := hA
      cases before with
      | none =>
        cases hslice
        exact whole_page hn none
      | some k =>
        obtain ⟨hpos, hle, hreaches⟩ := hk k rfl
        exact whole_older hn (hu u.cur) hpos hle hlen hreaches hslice
    | agentsList => exact hu u.cur slice hslice
    | grantsList => exact hu u.cur slice hslice
    | approvalsPending => exact hu u.cur slice hslice
    | leasesList => exact hu u.cur slice hslice
    | runsList => exact hu u.cur slice hslice
    | _ => exact hc.elim
  | held hc hf haudit => exact hu.assign_of (Or.inl (haudit _))
  | unlocked passphrase resp => exact hu.assign_of (Or.inl rfl)
  | health x => exact unbroken_writeHealth hu _ x
  | token h => exact hu
  | value h => exact hu

theorem carries_unbroken (hn : Numbered 0 log) : Carries (Fits log) (Ui.Unbroken log) :=
  ⟨fun h => h.unbroken, fun h => h.unbroken hn⟩

end

/-! ## The page and the log -/

/-- The page with the log behind it, and how long the log was when each call was made. -/
structure Reading where
  page : Page
  log : List AuditLine
  made : Nat → Nat

/-- A line is appended to the log, or something happens on the page. -/
inductive ReadEvent where
  | append (l : AuditLine)
  | page (e : Event)

namespace Reading

def step (t : Reading) : ReadEvent → Option Reading
  | .append l => if l.event.seq = t.log.length + 1 then some { t with log := t.log ++ [l] } else none
  | .page e => (Dashboard.step t.page e).map fun p =>
    { t with page := p, made := fun i => if i < t.page.next then t.made i else t.log.length }

def initial : Reading := ⟨Dashboard.initial, [], fun _ => 0⟩

/-- A page that is answered was read from the log as it was at some time between the call and the answer. -/
def Served (t : Reading) (e : ReadEvent) : Prop := ∀ i tail before (page : AuditPage),
  e = .page (.answer i (.auditShow tail before) (.ok page)) →
    ∃ n, t.made i ≤ n ∧ n ≤ t.log.length ∧ page = pageOf (t.log.take n) tail before

/-- An older page that is answered meets a slice that it reaches up to, and begins no later. -/
def Adjoins (t : Reading) (e : ReadEvent) : Prop := ∀ i tail k (page : AuditPage),
  e = .page (.answer i (.auditShow tail (some k)) (.ok page)) → t.page.state.Reaches k

/-- What holds in every run. -/
structure Inv (t : Reading) : Prop where
  numbered : Numbered 0 t.log
  unbroken : t.page.state.Unbroken t.log
  made : ∀ i, t.made i ≤ t.log.length
  /-- A call for a page has the size of a page, and a cursor that was one of the log. -/
  asked : ∀ i fl tail before, t.page.flights i = some fl → fl.call = .auditShow tail before →
    tail = AUDIT_PAGE_SIZE ∧ ∀ k, before = some k → 1 ≤ k ∧ k ≤ t.made i
  later : ∀ i, t.page.next ≤ i → t.page.flights i = none
  sound : ∀ log, Numbered 0 log → t.page.Sound (Fits log) (Guarantee (Ui.Unbroken log))

variable {t t' : Reading} {e : Event}

theorem inv_initial : initial.Inv where
  numbered := trivial
  unbroken := fun _ _ h => by cases h
  made := fun _ => Nat.le_refl _
  asked := fun _ _ _ _ h => by cases h
  later := fun _ _ => rfl
  sound := fun _ _ _ _ h => by cases h

/-- An answer that is served and adjoins fits. -/
theorem Inv.admits (h : t.Inv) (hserved : t.Served (.page e)) (hadjoins : t.Adjoins (.page e)) {p : Page}
    (hs : Dashboard.step t.page e = some p) : t.page.Admits (Fits t.log) e := by
  rintro i c r fl rfl hfl
  cases c with
  | auditShow tail before =>
    rcases r with error | page
    · trivial
    · obtain ⟨fl', hfl', hcall⟩ := Loop.step_answer hs
      obtain ⟨rfl, hk⟩ := h.asked i fl' tail before hfl' hcall
      obtain ⟨n, hmade, hn, rfl⟩ := hserved i _ before page rfl
      refine ⟨rfl, n, hn, rfl, fun k hbefore => ?_⟩
      subst hbefore
      obtain ⟨hpos, hle⟩ := hk k rfl
      exact ⟨hpos, hle.trans hmade, hadjoins i _ k _ rfl⟩
  | _ => trivial

/-- The cursor of a slice without holes is a number of the log. -/
theorem cursor_le {u : Ui} {log : List AuditLine} (hu : u.Unbroken log) {k : Nat}
    (hk : u.shell.audit.bind (·.nextBeforeSeq) = some k) : 1 ≤ k ∧ k ≤ log.length := by
  obtain ⟨slice, hslice, hnext⟩ := Option.bind_eq_some_iff.mp hk
  rcases hu u.cur slice hslice with rfl | ⟨a, b, hc⟩
  · cases hnext
  · rw [hc.cursor] at hnext
    have hle := hc.nonempty
    have hlast := hc.last
    split at hnext
    · cases hnext
      omega
    · cases hnext

theorem Inv.page (h : t.Inv) (hserved : t.Served (.page e)) (hadjoins : t.Adjoins (.page e)) {p : Page}
    (hs : Dashboard.step t.page e = some p) :
    Inv { t with page := p, made := fun i => if i < t.page.next then t.made i else t.log.length } := by
  obtain ⟨-, hguarantee⟩ := (h.sound t.log h.numbered).step (carries_unbroken h.numbered).handle hs
  obtain ⟨hkeeps, hsends⟩ := hguarantee (h.admits hserved hadjoins hs)
  obtain ⟨hlater, hnew⟩ := Loop.step_new hs h.later
  refine ⟨h.numbered, hkeeps h.unbroken, fun i => ?_, fun i fl tail before hfl hcall => ?_, hlater, fun log hn => ?_⟩
  · dsimp only
    split
    · exact h.made i
    · exact Nat.le_refl _
  · dsimp only
    by_cases hi : i < t.page.next
    · rw [if_pos hi]
      rcases Loop.step_flight hs hi with hsame | hgone
      · exact h.asked i fl tail before (hsame.symm.trans hfl) hcall
      · rw [hgone] at hfl
        cases hfl
    · rw [if_neg hi]
      have hsent := hsends fl.call (hnew i fl (Nat.le_of_not_lt hi) hfl)
      rw [hcall] at hsent
      exact ⟨hsent.1, fun k hk => cursor_le h.unbroken (hsent.2 k hk)⟩
  · exact ((h.sound log hn).step (carries_unbroken hn).handle hs).1

theorem Inv.append (h : t.Inv) {l : AuditLine} (hl : l.event.seq = t.log.length + 1) :
    Inv { t with log := t.log ++ [l] } := by
  have hn : Numbered 0 (t.log ++ [l]) := numbered_concat.mpr ⟨h.numbered, by rw [hl, Nat.zero_add]⟩
  exact ⟨hn, h.unbroken.append hn, fun i => (h.made i).trans (by simp), h.asked, h.later, h.sound⟩

/-- What a step keeps. -/
theorem Inv.step (h : t.Inv) {e : ReadEvent} (hc : t.Served e ∧ t.Adjoins e) (hs : t.step e = some t') : t'.Inv := by
  cases e with
  | append l =>
    rw [Reading.step] at hs
    split at hs
    · rename_i hl
      cases hs
      exact h.append hl
    · cases hs
  | page e =>
    obtain ⟨p, hp, rfl⟩ := Option.map_eq_some_iff.mp hs
    exact h.page hc.1 hc.2 hp

end Reading

/-- **The timeline has no holes while every older page meets a slice that it reaches up to.** In every run of the page
with the log, in which every page is one of the log as it was at some time between the call and the answer, the slice is
then empty, or a part of the log without a hole, in the order of the numbers, and its cursor is the number before it, if
there is one. And an older page leaves the slice so if and only if it reaches up to it and begins no later. -/
theorem timeline_has_no_holes (log : List AuditLine) (s : ShellState) :
    (∀ (es : List ReadEvent) (t : Reading) (slice : AuditPage), runs Reading.step Reading.initial es = some t →
      Along Reading.step (fun t e => t.Served e ∧ t.Adjoins e) Reading.initial es →
      t.page.state.shell.audit = some slice →
      slice = ⟨[], none⟩ ∨ ∃ a b, Covers t.log slice a b ∧ slice.entries.map (·.seq) = List.range' a (b + 1 - a)) ∧
    ∀ (slice : AuditPage) (a b k n : Nat), Numbered 0 log → s.audit = some slice → Covers log slice a b →
    1 ≤ k → k ≤ n → n ≤ log.length →
      ((∀ merged, (applyAuditOlderPage s (pageOf (log.take n) AUDIT_PAGE_SIZE (some k))).audit = some merged →
        Whole log merged) ↔ a ≤ k + 1 ∧ k < a + AUDIT_PAGE_SIZE) := by
  refine ⟨fun es t slice hr hc hslice => ?_, fun slice a b k n h hs hc hk hkn hn => covers_older_iff h hs hc hk hkn hn⟩
  have hinv : t.Inv := runs_induction (I := Reading.Inv) (fun _ _ _ h hc hs => h.step hc hs) Reading.inv_initial hc hr
  rcases hinv.unbroken t.page.state.cur slice hslice with hempty | ⟨a, b, hcovers⟩
  · exact Or.inl hempty
  · refine Or.inr ⟨a, b, hcovers, ?_⟩
    rw [hcovers.entries]
    exact rows_seq hinv.numbered hcovers.first hcovers.last

namespace Example

/-- The line number `n` of a log. -/
def logLine (n : Nat) : AuditLine where
  event :=
    { ts := "", seq := n, prevHash := "", actor := "human", op := "audit.show", project := none, keys := [],
      target := none, decision := .allowed, reason := none, runId := none, executable := none, argCount := none, cwd :=
      none, result := none,
      exitCode := none, signal := none }
  hash := ""
  mac := none

/-- The log with `n` lines. -/
def logOf (n : Nat) : List AuditLine := (List.range n).map fun i => logLine (i + 1)

/-- The log grows from `m` lines to `n`. -/
def grows (m n : Nat) : List ReadEvent := (List.range' (m + 1) (n - m)).map fun i => .append (logLine i)

/-- The newest page is asked for, of a log of 51 lines. -/
def asking : List ReadEvent := grows 0 51 ++ booted.map .page ++ [.page (.start .reloadAudit)]

/-- What is answered to the read number `i`, when the log has `m` lines, of the first `n` of them. -/
def answer (i m n : Nat) (before : Option Nat) : ReadEvent :=
  .page (.answer i (.auditShow 50 before) (.ok (pageOf ((logOf m).take n) 50 before)))

/-- Nothing is answered to a read of the log. -/
def Silent (e : ReadEvent) : Prop := ∀ i tail before (page : AuditPage),
    e ≠ .page (.answer i (.auditShow tail before) (.ok page))

theorem silent_asking : ∀ e ∈ asking, Silent e := by
  have hgrows : ∀ e ∈ grows 0 51, Silent e := by
    intro e he i tail before page heq
    obtain ⟨n, -, hn⟩ := List.mem_map.mp he
    rw [heq] at hn
    cases hn
  intro e he
  rcases List.mem_append.mp he with he | he
  · rcases List.mem_append.mp he with he | he
    · exact hgrows e he
    · obtain ⟨b, hb, rfl⟩ := List.mem_map.mp he
      rintro i tail before page heq
      cases heq
      simp [booted] at hb
  · rw [List.mem_singleton.mp he]
    exact fun _ _ _ _ h => by cases h

theorem Silent.meets {e : ReadEvent} (h : Silent e) (t : Reading) : t.Served e ∧ t.Adjoins e :=
  ⟨fun i tail before page heq => absurd heq (h i tail before page), fun i tail k page heq =>
    absurd heq (h i tail (some k) page)⟩

theorem served_answer (made : Nat) {es : List ReadEvent} {i m n : Nat} {before : Option Nat}
    (h : (runs Reading.step Reading.initial es).map (fun t => (t.made i, t.log)) = some (made, logOf m))
    (hmade : made ≤ n) (hn : n ≤ m) {t : Reading} (ht : runs Reading.step Reading.initial es = some t) :
    t.Served (answer i m n before) := by
  rw [ht, Option.map_some, Option.some.injEq, Prod.mk.injEq] at h
  rintro j tail before' page heq
  cases heq
  refine ⟨n, by rw [h.1]; exact hmade, ?_, by rw [h.2]⟩
  rw [h.2, logOf, List.length_map, List.length_range]
  exact hn

/-- The newest page is shown, and adjoins nothing. -/
theorem adjoins_newest (t : Reading) (i m n : Nat) : t.Adjoins (answer i m n none) := by
  rintro j tail k page heq
  cases heq

theorem asking_newest : Along Reading.step (fun t e => t.Served e ∧ t.Adjoins e) Reading.initial
    (asking ++ [answer 5 51 51 none]) := by
  refine along_append.mpr ⟨along_of_forall fun e he t => (silent_asking e he).meets t,
    fun t ht => ⟨⟨?_, ?_⟩, fun _ _ => trivial⟩⟩
  · exact served_answer 51 rfl (Nat.le_refl _) (Nat.le_refl _) ht
  · exact adjoins_newest t _ _ _

/-- The page before it is asked for, of which one line is not shown yet; a read is recorded, and it is answered. -/
def older : List ReadEvent :=
  asking ++ [answer 5 51 51 none] ++ (.page (.start .loadOlder) :: grows 51 52) ++ [answer 6 52 51 (some 1)]

theorem silent_older : ∀ e ∈ (.page (.start .loadOlder) :: grows 51 52 : List ReadEvent), Silent e := by
  intro e he i tail before page heq
  subst heq
  simp [grows] at he

theorem reaches_older {t : Reading} (ht : runs Reading.step Reading.initial (asking ++ [answer 5 51 51 none] ++
    (.page (.start .loadOlder) :: grows 51 52)) = some t) : t.Adjoins (answer 6 52 51 (some 1)) := by
  have hfirst : (runs Reading.step Reading.initial (asking ++ [answer 5 51 51 none] ++
      (.page (.start .loadOlder) :: grows 51 52))).map (fun t =>
        (t.page.state.shell.audit.bind (·.entries.head?)).map (·.seq)) = some (some 2) := rfl
  rintro i tail k page heq slice first hslice hhead
  cases heq
  rw [ht, Option.map_some, Option.some.injEq, hslice, Option.bind_some, hhead, Option.map_some,
    Option.some.injEq] at hfirst
  rw [hfirst]
  decide

theorem adjoins_older : Along Reading.step (fun t e => t.Served e ∧ t.Adjoins e) Reading.initial older := by
  refine along_append.mpr ⟨along_append.mpr ⟨asking_newest, fun t ht => ?_⟩, fun t ht => ⟨⟨?_, ?_⟩, fun _ _ => trivial⟩⟩
  · exact along_of_forall fun e he t => (silent_older e he).meets t
  · exact served_answer 51 rfl (Nat.le_refl _) (by decide) ht
  · exact reaches_older ht

/-- While the page before it is asked for, two reads are recorded and the newest page is asked for once more. -/
def reloading : List ReadEvent := [.page (.start .loadOlder)] ++ grows 51 53 ++ [.page (.start .reloadAudit)]

theorem silent_reloading : ∀ e ∈ reloading, Silent e := by
  intro e he i tail before page heq
  subst heq
  simp [reloading, grows] at he

/-- Then that is answered, and the older page last. -/
def reloaded : List ReadEvent := asking ++ [answer 5 51 51 none] ++ reloading ++ [answer 7 53 53 none]

theorem served_late : Along Reading.step Reading.Served Reading.initial (reloaded ++ [answer 6 53 51 (some 1)]) := by
  have hnewest : Along Reading.step Reading.Served Reading.initial _ := asking_newest.mono fun _ _ h => h.1
  refine along_append.mpr ⟨along_append.mpr ⟨along_append.mpr ⟨hnewest, fun t ht => ?_⟩, fun t ht => ?_⟩,
    fun t ht => ?_⟩
  · exact along_of_forall fun e he t => ((silent_reloading e he).meets t).1
  · exact ⟨served_answer 53 rfl (Nat.le_refl _) (Nat.le_refl _) ht, fun _ _ => trivial⟩
  · exact ⟨served_answer 51 rfl (Nat.le_refl _) (by decide) ht, fun _ _ => trivial⟩

theorem numbered_logOf (n : Nat) : Numbered 0 (logOf n) := by
  induction n with
  | zero => trivial
  | succ n ih =>
    rw [logOf, List.range_succ, List.map_append]
    refine numbered_concat.mpr ⟨ih, ?_⟩
    simp [logLine]

end Example

/-- The newest page of a log is shown; the page before it is asked for and arrives after the log has grown, and reaches
up to what is shown: every line is there that was there when it was asked for. -/
theorem timeline_has_no_holes_older : ∃ t slice, runs Reading.step Reading.initial Example.older = some t ∧
    t.page.state.shell.audit = some slice ∧ slice.nextBeforeSeq = none ∧ Covers t.log slice 1 51 ∧
    slice.entries.map (·.seq) = List.range' 1 51 := by
  obtain ⟨t, slice, shown, hr, hslice, hnext, hentries, hlen⟩ :
    ∃ (t : Reading) (slice : AuditPage) (shown : List AuditEntry),
      runs Reading.step Reading.initial Example.older = some t ∧ t.page.state.shell.audit = some slice ∧
      slice.nextBeforeSeq = none ∧ slice.entries = shown.mergeSort (fun x y => decide (x.seq ≤ y.seq)) ∧
      shown.length = 51 :=
    ⟨_, _, _, rfl, rfl, rfl, rfl, rfl⟩
  have hlen : slice.entries.length = 51 := by rw [hentries, List.length_mergeSort, hlen]
  rcases (timeline_has_no_holes t.log t.page.state.shell).1 _ t slice hr Example.adjoins_older hslice with
    hempty | ⟨a, b, hcovers, hseq⟩
  · rw [hempty] at hlen
    cases hlen
  · -- The cursor says where it begins, and the number of entries where it ends.
    have hfirst := hcovers.cursor.symm.trans hnext
    have hone : a = 1 := by
      have hpos := hcovers.first
      by_cases hlt : 1 < a
      · rw [if_pos hlt] at hfirst
        cases hfirst
      · omega
    subst hone
    have hb : b = 51 := by
      have hcount := congrArg List.length hseq
      rw [List.length_map, List.length_range', hlen] at hcount
      omega
    subst hb
    exact ⟨t, slice, hr, hslice, hnext, hcovers, hseq⟩

set_option maxRecDepth 1024 in
/-- An older page that was asked for before a reload arrives behind it: the first entry is shown and the beginning of
the log is reached, but two entries are missing. -/
theorem timeline_has_a_hole : ∃ t merged,
    runs Reading.step Reading.initial (Example.reloaded ++ [Example.answer 6 53 51 (some 1)]) = some t ∧
    Along Reading.step Reading.Served Reading.initial (Example.reloaded ++ [Example.answer 6 53 51 (some 1)]) ∧
    t.page.state.shell.audit = some merged ∧ merged.nextBeforeSeq = none ∧ ¬Whole t.log merged := by
  obtain ⟨t₁, t, hr₁, hs, hlog, hbefore, hafter⟩ : ∃ t₁ t : Reading,
      runs Reading.step Reading.initial Example.reloaded = some t₁ ∧ t₁.step (Example.answer 6 53 51 (some 1)) =
        some t ∧ t.log = Example.logOf 53 ∧
      t₁.page.state.shell.audit = some (sanitizeAuditPage (pageOf ((Example.logOf 53).take 53) 50 none)) ∧
      t.page.state.shell.audit =
        (applyAuditOlderPage t₁.page.state.shell (pageOf ((Example.logOf 53).take 51) 50 (some 1))).audit :=
    ⟨_, _, rfl, rfl, rfl, rfl, rfl⟩
  have hr := runs_append.mpr ⟨t₁, hr₁, runs_cons.mpr ⟨t, hs, runs_nil _ _⟩⟩
  have hn := Example.numbered_logOf 53
  have hlen : (Example.logOf 53).length = 53 := by rw [Example.logOf, List.length_map, List.length_range]
  have hnewest := covers_page (hn.take 53) none (u := 53) (show 1 ≤ 50 by decide) (by
    rw [Option.getD_none, List.length_take, hlen]
    rfl)
  rw [if_neg (by decide), List.take_of_length_le (by rw [hlen])] at hnewest
  rw [List.take_of_length_le (by rw [hlen])] at hbefore
  have holder := covers_page_up_to hn (n := 51) (Nat.le_refl 1) (by decide) (by rw [hlen]; decide)
  have hmerged := older_of_some hbefore (pageOf ((Example.logOf 53).take 51) 50 (some 1))
  refine ⟨t, _, hr, Example.served_late, hafter.trans hmerged, ?_, ?_⟩
  · exact holder.cursor
  · rw [hlog]
    exact not_whole_merged hn hbefore hnewest holder (Or.inr (by decide)) hmerged

end SecretsVault.Dashboard
