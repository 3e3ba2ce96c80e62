import SecretsVault.Lib.Text
import Mathlib.Data.List.TakeWhile

/-!
# Framing of the standard input

The adapter reads one line at a time from a buffered reader, which hands out the input in chunks. A line may not be
longer than `FRAME_CAP`; what is left of a longer one is skipped, up to `DRAIN_CAP`. Both caps are looked at between
chunks only.

- `readFrame_spec`: what one call returns, keeps and consumes.
- `framing_is_bounded`: the frames of a session are those of the lines of its input, however the input is split.
-/

namespace SecretsVault.Mcp

open Lib

/-- `wire::MAX_MESSAGE_LEN`. -/
def FRAME_CAP : Nat := 1024 * 1024

def DRAIN_CAP : Nat := 1024 * 1024

/-! ## The reader -/

/-- A buffered reader: the rest of its buffer, then the chunks that it will be filled with. At the end there is none. -/
abbrev BufRead := List Bytes

/-- The first `n` bytes of the buffer are consumed. -/
def consume (n : Nat) : BufRead → BufRead
  | [] => []
  | chunk :: rest => if n < chunk.length then chunk.drop n :: rest else rest

/-- Where a chunk has its first newline. -/
def newlineAt (chunk : Bytes) : Option Nat := chunk.findIdx? (· == lf)

/-- One frame. -/
inductive Frame where
  | line (payload : Bytes)
  | eof
  /-- Too long; whether its end was found. -/
  | oversize (resynced : Bool)
  deriving DecidableEq, Repr

/-- Skip the rest of a line that is too long. -/
def drainFrame (skipped : Nat) : BufRead → Frame × BufRead
  | [] => (.oversize true, [])
  | chunk :: rest =>
    match newlineAt chunk with
    | some pos => (.oversize true, consume (pos + 1) (chunk :: rest))
    | none =>
      if DRAIN_CAP ≤ skipped + chunk.length then (.oversize false, rest) else drainFrame (skipped + chunk.length) rest

/-- A frame, the most that was buffered for it, and the reader behind it. -/
structure FrameRead where
  frame : Frame
  buffered : Nat
  rest : BufRead

/-- Read the rest of a line of which `buf` has been read. -/
def readFrom (buf : Bytes) : BufRead → FrameRead
  | [] => ⟨if buf = [] then .eof else .line buf, buf.length, []⟩
  | chunk :: rest =>
    match newlineAt chunk with
    | some pos =>
      let buf := buf ++ chunk.take pos
      ⟨if FRAME_CAP < buf.length then .oversize true else .line buf, buf.length, consume (pos + 1) (chunk :: rest)⟩
    | none =>
      let buf := buf ++ chunk
      if FRAME_CAP < buf.length then
        let (frame, rest) := drainFrame 0 rest
        ⟨frame, buf.length, rest⟩
      else readFrom buf rest

def readFrame (r : BufRead) : FrameRead := readFrom [] r

/-! ## Lines -/

/-- The first line of a text, and what is behind its newline. -/
def firstLine (bytes : Bytes) : Bytes := bytes.takeWhile (· != lf)

def behindLine (bytes : Bytes) : Bytes := (bytes.dropWhile (· != lf)).drop 1

theorem bne_lf {a : Bytes} (ha : lf ∉ a) : ∀ x ∈ a, (x != lf) = true := by
  intro x hx
  rw [bne_iff_ne]
  rintro rfl
  exact ha hx

theorem firstLine_of_not_mem {a : Bytes} (ha : lf ∉ a) (b : Bytes) : firstLine (a ++ b) = a ++ firstLine b :=
  List.takeWhile_append_of_pos (bne_lf ha)

theorem behindLine_of_not_mem {a : Bytes} (ha : lf ∉ a) (b : Bytes) : behindLine (a ++ b) = behindLine b := by
  rw [behindLine, List.dropWhile_append_of_pos (bne_lf ha), behindLine]

@[simp] theorem firstLine_nil : firstLine [] = [] := rfl

@[simp] theorem behindLine_nil : behindLine [] = [] := rfl

@[simp] theorem firstLine_lf (rest : Bytes) : firstLine (lf :: rest) = [] := rfl

@[simp] theorem behindLine_lf (rest : Bytes) : behindLine (lf :: rest) = rest := rfl

theorem behindLine_of_no_lf {bytes : Bytes} (h : lf ∉ bytes) : behindLine bytes = [] := by
  have hbehind := behindLine_of_not_mem h []
  rwa [List.append_nil, behindLine_nil] at hbehind

theorem firstLine_of_no_lf {bytes : Bytes} (h : lf ∉ bytes) : firstLine bytes = bytes := by
  have hfirst := firstLine_of_not_mem h []
  rwa [List.append_nil, firstLine_nil, List.append_nil] at hfirst

theorem behindLine_length_lt {bytes : Bytes} (h : bytes ≠ []) : (behindLine bytes).length < bytes.length := by
  have hpos := List.length_pos_iff.mpr h
  have hle := (List.dropWhile_suffix (l := bytes) (· != lf)).length_le
  rw [behindLine, List.length_drop]
  omega

/-- The payloads of a stream: its lines, and what is behind the last newline if there is anything. -/
def payloads (bytes : Bytes) : List Bytes :=
  if h : bytes = [] then []
  else
    have := behindLine_length_lt h
    firstLine bytes :: payloads (behindLine bytes)
termination_by bytes.length

theorem payloads_nil : payloads [] = [] := by simp [payloads]

theorem payloads_of_ne {bytes : Bytes} (h : bytes ≠ []) :
    payloads bytes = firstLine bytes :: payloads (behindLine bytes) := by
  rw [payloads, dif_neg h]

theorem payloads_line {line : Bytes} (h : lf ∉ line) (rest : Bytes) :
    payloads (line ++ lf :: rest) = line :: payloads rest := by
  rw [payloads_of_ne (by simp), firstLine_of_not_mem h, behindLine_of_not_mem h, firstLine_lf, behindLine_lf,
    List.append_nil]

theorem payloads_last {bytes : Bytes} (h : lf ∉ bytes) (hne : bytes ≠ []) : payloads bytes = [bytes] := by
  rw [payloads_of_ne hne, firstLine_of_no_lf h, behindLine_of_no_lf h, payloads_nil]

example : payloads [1, lf, lf, 2] = [[1], [], [2]] := by simp [payloads, firstLine, behindLine, lf]

/-! ## One chunk -/

theorem newlineAt_eq_none {chunk : Bytes} : newlineAt chunk = none ↔ lf ∉ chunk := by
  rw [newlineAt, List.findIdx?_eq_none_iff]
  simp only [beq_eq_false_iff_ne]
  exact ⟨fun h hmem => h lf hmem rfl, fun h b hb heq => h (heq ▸ hb)⟩

theorem newlineAt_eq_some {chunk : Bytes} {pos : Nat} (h : newlineAt chunk = some pos) :
    ∃ before after, chunk = before ++ lf :: after ∧ before.length = pos ∧ lf ∉ before := by
  rw [newlineAt, List.findIdx?_eq_some_iff_getElem] at h
  obtain ⟨hpos, hlf, hbefore⟩ := h
  have hsplit : chunk = chunk.take pos ++ lf :: chunk.drop (pos + 1) := by
    have hget : chunk[pos] = lf := by simpa using hlf
    rw [← hget, List.getElem_cons_drop, List.take_append_drop]
  refine ⟨chunk.take pos, chunk.drop (pos + 1), hsplit, by simp; omega, fun hmem => ?_⟩
  obtain ⟨i, hi, hget⟩ := List.mem_iff_getElem.mp hmem
  rw [List.length_take] at hi
  rw [List.getElem_take] at hget
  simpa [hget] using hbefore i (by omega)

/-- The reader is behind the newline. -/
theorem flatten_consume (before after : Bytes) (rest : BufRead) :
    (consume (before.length + 1) ((before ++ lf :: after) :: rest)).flatten = after ++ rest.flatten := by
  rw [consume]
  split
  · simp [List.drop_append]
  · rename_i hlen
    have hafter : after.length = 0 := by
      rw [List.length_append, List.length_cons] at hlen
      omega
    simp [List.length_eq_zero_iff.mp hafter]

/-- The chunks are not empty, and not longer than `c`. -/
def Split (c : Nat) (r : BufRead) : Prop := ∀ chunk ∈ r, chunk ≠ [] ∧ chunk.length ≤ c

theorem Split.consume {c n : Nat} {r : BufRead} (h : Split c r) : Split c (consume n r) := by
  cases r with
  | nil => exact h
  | cons chunk rest =>
    rw [Mcp.consume]
    split
    · rename_i hn
      intro x hx
      rcases List.mem_cons.mp hx with rfl | hx
      · have hc := (h chunk List.mem_cons_self).2
        have hlen : (chunk.drop n).length = chunk.length - n := List.length_drop
        refine ⟨fun hnil => ?_, by omega⟩
        rw [hnil, List.length_nil] at hlen
        omega
      · exact h x (List.mem_cons_of_mem _ hx)
    · exact fun x hx => h x (List.mem_cons_of_mem _ hx)

theorem Split.tail {c : Nat} {chunk : Bytes} {rest : BufRead} (h : Split c (chunk :: rest)) : Split c rest :=
  fun x hx => h x (List.mem_cons_of_mem _ hx)

theorem Split.head {c : Nat} {chunk : Bytes} {rest : BufRead} (h : Split c (chunk :: rest)) : chunk.length ≤ c :=
  (h chunk List.mem_cons_self).2

theorem consume_append {n : Nat} {chunk : Bytes} (rest more : BufRead) :
    consume n (chunk :: rest ++ more) = consume n (chunk :: rest) ++ more := by
  rw [List.cons_append, consume, consume]
  split <;> rfl

/-! ## One call -/

/-- How the rest of a line that is too long was skipped: to its end, or it did not come within `DRAIN_CAP`. -/
structure Drained (c skipped : Nat) (bytes : Bytes) (read : Frame × BufRead) : Prop where
  oversize : ∃ resynced, read.1 = .oversize resynced
  resumes : read.1 = .oversize true → read.2.flatten = behindLine bytes
  lost : read.1 = .oversize false →
    ∃ taken, bytes = taken ++ read.2.flatten ∧ lf ∉ taken ∧ DRAIN_CAP ≤ skipped + taken.length
  consumed : ∃ taken, bytes = taken ++ read.2.flatten ∧ skipped + taken.length ≤ DRAIN_CAP + c
  split : Split c read.2

theorem drained {c : Nat} : ∀ {r : BufRead} {skipped : Nat}, Split c r → skipped < DRAIN_CAP →
    Drained c skipped r.flatten (drainFrame skipped r)
  | [], skipped, h, hskipped =>
    { oversize := ⟨true, rfl⟩
      resumes := fun _ => rfl
      lost := fun hfalse => by cases hfalse
      consumed := ⟨[], rfl, by simp; omega⟩
      split := h }
  | chunk :: rest, skipped, h, hskipped => by
    have hc := h.head
    rw [drainFrame]
    cases hat : newlineAt chunk with
    | some pos =>
      obtain ⟨before, after, rfl, rfl, hbefore⟩ := newlineAt_eq_some hat
      have hbytes : ((before ++ lf :: after) :: rest).flatten = before ++ lf :: (after ++ rest.flatten) := by simp
      have hrest := flatten_consume before after rest
      refine ⟨⟨true, rfl⟩, fun _ => ?_, fun hfalse => by (cases hfalse), ⟨before ++ [lf], ?_, ?_⟩, h.consume⟩
      · rw [hbytes, hrest, behindLine_of_not_mem hbefore, behindLine_lf]
      · rw [hbytes, hrest]
        simp
      · simp only [List.length_append, List.length_cons, List.length_nil] at hc ⊢
        omega
    | none =>
      have hno := newlineAt_eq_none.mp hat
      dsimp only
      by_cases hcap : DRAIN_CAP ≤ skipped + chunk.length
      · rw [if_pos hcap]
        exact ⟨⟨false, rfl⟩, fun htrue => by (cases htrue), fun _ => ⟨chunk, List.flatten_cons, hno, hcap⟩,
          ⟨chunk, List.flatten_cons, by omega⟩, h.tail⟩
      · rw [if_neg hcap, List.flatten_cons]
        have ih := drained h.tail (show skipped + chunk.length < DRAIN_CAP by omega)
        refine ⟨ih.oversize, fun htrue => ?_, fun hfalse => ?_, ?_, ih.split⟩
        · rw [behindLine_of_not_mem hno, ih.resumes htrue]
        · obtain ⟨taken, hbytes, htaken, hlen⟩ := ih.lost hfalse
          refine ⟨chunk ++ taken, by rw [hbytes, List.append_assoc], List.not_mem_append hno htaken, ?_⟩
          rw [List.length_append]
          omega
        · obtain ⟨taken, hbytes, hlen⟩ := ih.consumed
          exact ⟨chunk ++ taken, by rw [hbytes, List.append_assoc], by rw [List.length_append]; omega⟩

/-- What one call made where `bytes` are left returns, buffers and consumes. -/
structure Call (c : Nat) (bytes : Bytes) (read : FrameRead) : Prop where
  eof : read.frame = .eof → bytes = []
  line : ∀ payload, read.frame = .line payload → bytes ≠ [] ∧ payload = firstLine bytes ∧ payload.length ≤ FRAME_CAP
  oversize : ∀ resynced, read.frame = .oversize resynced → FRAME_CAP < (firstLine bytes).length
  /-- The next call reads on right behind the newline. -/
  resumes : read.frame ≠ .oversize false → read.rest.flatten = behindLine bytes
  /-- The cap was seen to be exceeded when `buffered` bytes were in, and what was skipped has no newline. -/
  lost : read.frame = .oversize false → FRAME_CAP < read.buffered ∧
    ∃ taken, bytes = taken ++ read.rest.flatten ∧ lf ∉ taken ∧ read.buffered + DRAIN_CAP ≤ taken.length
  buffered : read.buffered ≤ FRAME_CAP + c
  consumed : ∃ taken, bytes = taken ++ read.rest.flatten ∧ taken.length ≤ FRAME_CAP + DRAIN_CAP + 2 * c
  split : Split c read.rest

theorem call_readFrom {c : Nat} : ∀ {r : BufRead} {buf : Bytes}, Split c r → lf ∉ buf → buf.length ≤ FRAME_CAP →
    Call c (buf ++ r.flatten) (readFrom buf r)
  | [], buf, h, hbuf, hlen => by
    have hbehind : behindLine buf = [] := behindLine_of_no_lf hbuf
    have hfirst : firstLine buf = buf := firstLine_of_no_lf hbuf
    rw [readFrom, List.flatten_nil, List.append_nil]
    by_cases hnil : buf = []
    · subst hnil
      exact
        { eof := fun _ => rfl
          line := fun _ hline => by cases hline
          oversize := fun _ hover => by cases hover
          resumes := fun _ => rfl
          lost := fun hover => by cases hover
          buffered := Nat.zero_le _
          consumed := ⟨[], rfl, Nat.zero_le _⟩
          split := h }
    · rw [if_neg hnil]
      refine ⟨fun heof => by (cases heof), fun payload hline => ?_, fun _ hover => by (cases hover),
        fun _ => hbehind.symm,
        fun hover => by (cases hover), by dsimp only; omega, ⟨buf, by simp, by omega⟩, h⟩
      cases hline
      exact ⟨hnil, hfirst.symm, hlen⟩
  | chunk :: rest, buf, h, hbuf, hlen => by
    have hc := h.head
    rw [readFrom]
    cases hat : newlineAt chunk with
    | some pos =>
      obtain ⟨before, after, rfl, rfl, hbefore⟩ := newlineAt_eq_some hat
      have hno : lf ∉ buf ++ before := List.not_mem_append hbuf hbefore
      have hbytes : buf ++ ((before ++ lf :: after) :: rest).flatten =
          (buf ++ before) ++ lf :: (after ++ rest.flatten) := by simp
      have hrest := flatten_consume before after rest
      have hfirst : firstLine ((buf ++ before) ++ lf :: (after ++ rest.flatten)) = buf ++ before := by
        rw [firstLine_of_not_mem hno, firstLine_lf, List.append_nil]
      have htake : (before ++ lf :: after).take before.length = before := by simp
      simp only [List.length_append, List.length_cons] at hc
      dsimp only
      rw [htake, hbytes]
      refine ⟨fun heof => ?_, fun payload hline => ?_, fun resynced hover => ?_, fun _ => ?_, fun hover => ?_, ?_,
        ⟨(buf ++ before) ++ [lf], ?_, ?_⟩, h.consume⟩
      · dsimp only at heof
        split at heof <;> cases heof
      · dsimp only at hline
        split at hline
        · cases hline
        · cases hline
          exact ⟨by simp, hfirst.symm, by omega⟩
      · dsimp only at hover
        split at hover
        · rwa [hfirst]
        · cases hover
      · rw [hrest, behindLine_of_not_mem hno, behindLine_lf]
      · dsimp only at hover
        split at hover <;> cases hover
      · simp only [List.length_append]
        omega
      · rw [hrest]
        simp
      · simp only [List.length_append, List.length_cons, List.length_nil]
        omega
    | none =>
      have hno : lf ∉ buf ++ chunk := List.not_mem_append hbuf (newlineAt_eq_none.mp hat)
      rw [List.flatten_cons, ← List.append_assoc]
      dsimp only
      by_cases hcap : FRAME_CAP < (buf ++ chunk).length
      · rw [if_pos hcap]
        have hdrained := drained h.tail (show 0 < DRAIN_CAP by decide)
        have hlong : FRAME_CAP < (firstLine ((buf ++ chunk) ++ rest.flatten)).length := by
          rw [firstLine_of_not_mem hno, List.length_append]
          omega
        have hkept : (buf ++ chunk).length = buf.length + chunk.length := List.length_append
        refine ⟨fun heof => ?_, fun payload hline => ?_, fun _ _ => hlong, fun hne => ?_, fun hover => ⟨hcap, ?_⟩, ?_,
          ?_, hdrained.split⟩
        · obtain ⟨resynced, hover⟩ := hdrained.oversize
          cases hover.symm.trans heof
        · obtain ⟨resynced, hover⟩ := hdrained.oversize
          cases hover.symm.trans hline
        · obtain ⟨resynced, hover⟩ := hdrained.oversize
          cases resynced with
          | false => exact absurd hover hne
          | true => rw [behindLine_of_not_mem hno, hdrained.resumes hover]
        · obtain ⟨taken, hbytes, htaken, hlen'⟩ := hdrained.lost hover
          have htotal : ((buf ++ chunk) ++ taken).length = (buf ++ chunk).length + taken.length := List.length_append
          refine ⟨(buf ++ chunk) ++ taken, ?_, List.not_mem_append hno htaken, ?_⟩
          · rw [hbytes, ← List.append_assoc]
          · dsimp only
            omega
        · dsimp only
          omega
        · obtain ⟨taken, hbytes, hlen'⟩ := hdrained.consumed
          refine ⟨(buf ++ chunk) ++ taken, by rw [hbytes, ← List.append_assoc], ?_⟩
          rw [List.length_append]
          omega
      · rw [if_neg hcap]
        exact call_readFrom h.tail hno (by omega)

/-- **What one call does.** -/
theorem readFrame_spec {c : Nat} {r : BufRead} (h : Split c r) : Call c r.flatten (readFrame r) :=
  call_readFrom h List.not_mem_nil (Nat.zero_le _)

/-! ## What a call does not look at -/

theorem drainFrame_append {c : Nat} (more : BufRead) : ∀ {r : BufRead} {skipped : Nat}, Split c r →
    skipped < DRAIN_CAP → DRAIN_CAP + c ≤ skipped + r.flatten.length →
    drainFrame skipped (r ++ more) = ((drainFrame skipped r).1, (drainFrame skipped r).2 ++ more)
  | [], skipped, _, hskipped, hlen => by
    rw [List.flatten_nil, List.length_nil] at hlen
    omega
  | chunk :: rest, skipped, h, hskipped, hlen => by
    have hc := h.head
    rw [List.flatten_cons, List.length_append] at hlen
    rw [List.cons_append, drainFrame, drainFrame]
    cases hat : newlineAt chunk with
    | some pos => simp only [← List.cons_append, consume_append]
    | none =>
      dsimp only
      by_cases hcap : DRAIN_CAP ≤ skipped + chunk.length
      · rw [if_pos hcap, if_pos hcap]
      · rw [if_neg hcap, if_neg hcap]
        exact drainFrame_append more h.tail (by omega) (by omega)

theorem readFrom_append {c : Nat} (more : BufRead) : ∀ {r : BufRead} {buf : Bytes}, Split c r → buf.length ≤ FRAME_CAP →
    FRAME_CAP + DRAIN_CAP + 2 * c ≤ buf.length + r.flatten.length →
    readFrom buf (r ++ more) = { readFrom buf r with rest := (readFrom buf r).rest ++ more }
  | [], buf, _, hbuf, hlen => by
    have hcap : 0 < DRAIN_CAP := by decide
    rw [List.flatten_nil, List.length_nil] at hlen
    omega
  | chunk :: rest, buf, h, hbuf, hlen => by
    have hc := h.head
    rw [List.flatten_cons, List.length_append] at hlen
    rw [List.cons_append, readFrom, readFrom]
    cases hat : newlineAt chunk with
    | some pos => simp only [← List.cons_append, consume_append]
    | none =>
      have hkept : (buf ++ chunk).length = buf.length + chunk.length := List.length_append
      dsimp only
      by_cases hcap : FRAME_CAP < (buf ++ chunk).length
      · rw [if_pos hcap, if_pos hcap, drainFrame_append more h.tail (by decide) (by omega)]
      · rw [if_neg hcap, if_neg hcap]
        exact readFrom_append more h.tail (by omega) (by omega)

/-- A stream that goes on behind the caps is not looked at there, so it need not end. -/
theorem readFrame_append {c : Nat} {r : BufRead} (h : Split c r)
    (hlen : FRAME_CAP + DRAIN_CAP + 2 * c ≤ r.flatten.length)
    (more : BufRead) : readFrame (r ++ more) = { readFrame r with rest := (readFrame r).rest ++ more } :=
  readFrom_append more h (Nat.zero_le _) (by rw [List.length_nil]; omega)

/-! ## A session -/

/-- The reader gets smaller. -/
def size (r : BufRead) : Nat := r.flatten.length + r.length

theorem size_cons (chunk : Bytes) (rest : BufRead) : size (chunk :: rest) = chunk.length + size rest + 1 := by
  simp only [size, List.flatten_cons, List.length_append, List.length_cons]
  omega

theorem size_consume_lt (n : Nat) (chunk : Bytes) (rest : BufRead) :
    size (consume (n + 1) (chunk :: rest)) < size (chunk :: rest) := by
  rw [consume]
  split
  · rw [size_cons, size_cons, List.length_drop]
    omega
  · rw [size_cons]
    omega

theorem size_drainFrame_le : ∀ (r : BufRead) (skipped : Nat), size (drainFrame skipped r).2 ≤ size r
  | [], _ => Nat.le_refl _
  | chunk :: rest, skipped => by
    have hcons := size_cons chunk rest
    have ih := size_drainFrame_le rest (skipped + chunk.length)
    rw [drainFrame]
    cases newlineAt chunk with
    | some pos => exact Nat.le_of_lt (size_consume_lt pos chunk rest)
    | none =>
      dsimp only
      split
      · dsimp only
        omega
      · omega

theorem size_readFrom_lt : ∀ {r : BufRead} (buf : Bytes), r ≠ [] → size (readFrom buf r).rest < size r
  | [], _, h => absurd rfl h
  | chunk :: rest, buf, _ => by
    have hcons := size_cons chunk rest
    rw [readFrom]
    cases newlineAt chunk with
    | some pos => exact size_consume_lt pos chunk rest
    | none =>
      have hdrain := size_drainFrame_le rest 0
      dsimp only
      split
      · dsimp only
        omega
      · by_cases hrest : rest = []
        · subst hrest
          rw [readFrom]
          dsimp only
          omega
        · have ih := size_readFrom_lt (buf ++ chunk) hrest
          omega

/-- The session ends with this frame. -/
def Frame.ends (frame : Frame) : Prop := frame = .eof ∨ frame = .oversize false

instance (frame : Frame) : Decidable frame.ends := inferInstanceAs (Decidable (_ ∨ _))

theorem size_readFrame_lt {r : BufRead} (h : ¬ (readFrame r).frame.ends) : size (readFrame r).rest < size r := by
  apply size_readFrom_lt
  rintro rfl
  exact h (.inl rfl)

/-- The calls of a session: the reader that each is made on, and what it returns. -/
def session (r : BufRead) : List (BufRead × FrameRead) :=
  if h : (readFrame r).frame.ends then [(r, readFrame r)]
  else
    have := size_readFrame_lt h
    (r, readFrame r) :: session (readFrame r).rest
termination_by size r

def frames (r : BufRead) : List Frame := (session r).map fun call => call.2.frame

theorem session_of_ends {r : BufRead} (h : (readFrame r).frame.ends) : session r = [(r, readFrame r)] := by
  rw [session, dif_pos h]

theorem session_of_not_ends {r : BufRead} (h : ¬ (readFrame r).frame.ends) :
    session r = (r, readFrame r) :: session (readFrame r).rest := by
  rw [session, dif_neg h]

/-- The frames of these payloads. Only after a line whose end did not come within `DRAIN_CAP` are there no more. -/
inductive Framed : List Bytes → List Frame → Prop
  | eof : Framed [] [.eof]
  | line {payload : Bytes} {rest : List Bytes} {frames : List Frame} : payload.length ≤ FRAME_CAP → Framed rest frames →
      Framed (payload :: rest) (.line payload :: frames)
  | oversize {payload : Bytes} {rest : List Bytes} {frames : List Frame} : FRAME_CAP < payload.length →
      Framed rest frames → Framed (payload :: rest) (.oversize true :: frames)
  | lost {payload : Bytes} {rest : List Bytes} : FRAME_CAP + 1 + DRAIN_CAP ≤ payload.length →
      Framed (payload :: rest) [.oversize false]

/-- The frame of a line of which no more than `DRAIN_CAP` is skipped. -/
def frameOf (payload : Bytes) : Frame := if payload.length ≤ FRAME_CAP then .line payload else .oversize true

theorem Framed.eq_map {lines : List Bytes} {frames : List Frame} (h : Framed lines frames)
    (hshort : ∀ payload ∈ lines, payload.length < FRAME_CAP + 1 + DRAIN_CAP) :
    frames = lines.map frameOf ++ [.eof] := by
  induction h with
  | eof => rfl
  | line hlen _ ih =>
    rw [List.map_cons, frameOf, if_pos hlen, List.cons_append, ih fun p hp => hshort p (List.mem_cons_of_mem _ hp)]
  | oversize hlen _ ih =>
    rw [List.map_cons, frameOf, if_neg (by omega), List.cons_append, ih fun p hp =>
      hshort p (List.mem_cons_of_mem _ hp)]
  | lost hlen =>
    have hlt := hshort _ List.mem_cons_self
    omega

theorem Call.ne_nil {c : Nat} {bytes : Bytes} {read : FrameRead} (h : Call c bytes read) {resynced : Bool}
    (hframe : read.frame = .oversize resynced) : bytes ≠ [] := by
  rintro rfl
  exact absurd (h.oversize resynced hframe) (by simp)

/-- A line that is given up is at least as long as what was read of it. -/
theorem Call.lost_length {c : Nat} {bytes : Bytes} {read : FrameRead} (h : Call c bytes read)
    (hframe : read.frame = .oversize false) : read.buffered + DRAIN_CAP ≤ (firstLine bytes).length := by
  obtain ⟨-, taken, hbytes, hno, hlen⟩ := h.lost hframe
  rw [hbytes, firstLine_of_not_mem hno, List.length_append]
  omega

/-- **The frames are those of the lines of the stream.** -/
theorem framed {c : Nat} (r : BufRead) (h : Split c r) : Framed (payloads r.flatten) (frames r) := by
  have hcall := readFrame_spec h
  rw [frames]
  cases hframe : (readFrame r).frame with
  | eof =>
    rw [session_of_ends (.inl hframe), hcall.eof hframe, payloads_nil, List.map_singleton, hframe]
    exact .eof
  | line payload =>
    have hends : ¬ (readFrame r).frame.ends := by simp [hframe, Frame.ends]
    obtain ⟨hne, hfirst, hlen⟩ := hcall.line payload hframe
    have hrest := hcall.resumes (by rw [hframe]; exact Frame.noConfusion)
    have hlt := size_readFrame_lt hends
    rw [session_of_not_ends hends, payloads_of_ne hne, ← hrest, ← hfirst, List.map_cons, hframe]
    exact .line hlen (framed _ hcall.split)
  | oversize resynced =>
    have hne := hcall.ne_nil hframe
    have hlong := hcall.oversize resynced hframe
    cases resynced with
    | true =>
      have hends : ¬ (readFrame r).frame.ends := by simp [hframe, Frame.ends]
      have hrest := hcall.resumes (by simp [hframe])
      have hlt := size_readFrame_lt hends
      rw [session_of_not_ends hends, payloads_of_ne hne, ← hrest, List.map_cons, hframe]
      exact .oversize hlong (framed _ hcall.split)
    | false =>
      have hcap := (hcall.lost hframe).1
      have hlen := hcall.lost_length hframe
      rw [session_of_ends (.inr hframe), payloads_of_ne hne, List.map_singleton, hframe]
      exact .lost (by omega)
termination_by size r

theorem split_of_mem_session {c : Nat} (r : BufRead) (h : Split c r) :
    ∀ call ∈ session r, Split c call.1 ∧ call.2 = readFrame call.1 := by
  intro call hcall
  by_cases hends : (readFrame r).frame.ends
  · rw [session_of_ends hends, List.mem_singleton] at hcall
    subst hcall
    exact ⟨h, rfl⟩
  · have hlt := size_readFrame_lt hends
    rw [session_of_not_ends hends] at hcall
    rcases List.mem_cons.mp hcall with rfl | hcall
    · exact ⟨h, rfl⟩
    · exact split_of_mem_session _ (readFrame_spec h).split call hcall
termination_by size r

/-- **Framing does not depend on how the input is split, and is bounded.** The frames are those of the lines; without a
line that goes on for `DRAIN_CAP` behind the cap they are the same however the stream is split. A line is given up only
there, and no call keeps or takes more than its bounds, also on a stream that goes on. -/
theorem framing_is_bounded {c : Nat} {r : BufRead} (h : Split c r) :
    Framed (payloads r.flatten) (frames r) ∧
    ((∀ payload ∈ payloads r.flatten, payload.length < FRAME_CAP + 1 + DRAIN_CAP) →
      frames r = (payloads r.flatten).map frameOf ++ [.eof]) ∧
    ∀ call ∈ session r, Call c call.1.flatten call.2 ∧
      (∀ resynced, call.2.frame = .oversize resynced → (firstLine call.1.flatten).length < call.2.buffered + DRAIN_CAP →
        resynced = true) ∧
      (FRAME_CAP + DRAIN_CAP + 2 * c ≤ call.1.flatten.length → ∀ more,
        readFrame (call.1 ++ more) = { call.2 with rest := call.2.rest ++ more }) := by
  refine ⟨framed r h, (framed r h).eq_map, fun call hmem => ?_⟩
  obtain ⟨hsplit, hread⟩ := split_of_mem_session r h call hmem
  have hcall := readFrame_spec hsplit
  rw [hread]
  refine ⟨hcall, fun resynced hframe hnear => ?_, readFrame_append hsplit⟩
  cases resynced with
  | true => rfl
  | false =>
    have hlen := hcall.lost_length hframe
    omega

/-- A line that is one byte too long, between two others. -/
theorem framing_is_bounded_long_line :
    frames [[1, lf], List.replicate (FRAME_CAP + 1) 2, [lf, 3]] = [.line [1], .oversize true, .line [3], .eof] := by
  obtain ⟨long, hlong⟩ : ∃ long : Bytes, long = List.replicate (FRAME_CAP + 1) 2 := ⟨_, rfl⟩
  rw [← hlong]
  have hlen : long.length = FRAME_CAP + 1 := by rw [hlong, List.length_replicate]
  have hlf : lf ∉ long := fun h => absurd (List.eq_of_mem_replicate (hlong ▸ h)) (by decide)
  have hsplit : Split (FRAME_CAP + 1) [[1, lf], long, [lf, 3]] := by
    intro chunk hchunk
    simp only [List.mem_cons, List.not_mem_nil, or_false] at hchunk
    rcases hchunk with rfl | rfl | rfl
    · exact ⟨by decide, by decide⟩
    · exact ⟨List.ne_nil_of_length_eq_add_one hlen, Nat.le_of_eq hlen⟩
    · exact ⟨by decide, by decide⟩
  have hlines : payloads [[1, lf], long, [lf, 3]].flatten = [[1], long, [3]] := by
    calc payloads [[1, lf], long, [lf, 3]].flatten = payloads ([1] ++ lf :: (long ++ lf :: [3])) := by simp
      _ = [[1], long, [3]] := by rw [payloads_line (by decide), payloads_line hlf, payloads_last (by decide) (by simp)]
  have hframes := (framing_is_bounded hsplit).2.1 (by
    rw [hlines]
    intro payload hpayload
    simp only [List.mem_cons, List.not_mem_nil, or_false] at hpayload
    rcases hpayload with rfl | rfl | rfl
    · decide
    · rw [hlen]
      decide
    · decide)
  rw [hframes, hlines, List.map_cons, List.map_cons, frameOf, frameOf, hlen]
  rfl

end SecretsVault.Mcp
