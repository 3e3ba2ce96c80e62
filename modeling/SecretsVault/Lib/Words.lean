import Mathlib.Data.List.Basic
import Mathlib.Data.Nat.Basic

/-!
# Lines, words and numbers

A text is a list of characters. `Text.lines` splits it into lines, `Text.words` splits a line at white space, and
`Text.ofRadix` reads a number in a base.

- `Text.lines_flatMap`: what is printed line by line is read line by line.
- `Text.words_spread`: what is printed with blanks after each word is read word by word.
- `Text.ofRadix_toDigits`: the digits of a number are read as the number.
-/

namespace Lib.Text

/-! ## Lines -/

/-- Drop one carriage return at the end. -/
def stripCr (l : List Char) : List Char := if l.getLast? = some '\r' then l.dropLast else l

/-- The lines of a text whose first line starts with `cur`. -/
def linesFrom (cur : List Char) : List Char → List (List Char)
  | [] => if cur = [] then [] else [cur]
  | c :: cs => if c = '\n' then stripCr cur :: linesFrom [] cs else linesFrom (cur ++ [c]) cs

def lines (s : List Char) : List (List Char) := linesFrom [] s

theorem linesFrom_line (cur : List Char) {l s : List Char} (h : '\n' ∉ l) :
    linesFrom cur (l ++ '\n' :: s) = stripCr (cur ++ l) :: linesFrom [] s := by
  induction l generalizing cur with
  | nil => rw [List.nil_append, linesFrom, if_pos rfl, List.append_nil]
  | cons c cs ih =>
    rw [List.mem_cons, not_or] at h
    rw [List.cons_append, linesFrom, if_neg (Ne.symm h.1), ih _ h.2, List.append_assoc]
    rfl

/-- What is printed line by line is read line by line. -/
theorem lines_flatMap {ls : List (List Char)} (h : ∀ l ∈ ls, '\n' ∉ l ∧ l.getLast? ≠ some '\r') :
    lines (ls.flatMap fun l => l ++ ['\n']) = ls := by
  unfold lines
  induction ls with
  | nil => rfl
  | cons l ls ih =>
    obtain ⟨hl, hcr⟩ := h l List.mem_cons_self
    rw [List.flatMap_cons, List.append_assoc, List.singleton_append, linesFrom_line [] hl,
      ih fun l' hl' => h l' (List.mem_cons_of_mem l hl'), List.nil_append, stripCr, if_neg hcr]

/-! ## Words -/

variable {white : Char → Bool}

/-- The words of a line whose first word starts with `cur`. -/
def wordsFrom (white : Char → Bool) (cur : List Char) : List Char → List (List Char)
  | [] => if cur = [] then [] else [cur]
  | c :: cs =>
    if white c then (if cur = [] then wordsFrom white [] cs else cur :: wordsFrom white [] cs)
    else wordsFrom white (cur ++ [c]) cs

/-- Split at white space, of any length. -/
def words (white : Char → Bool) (s : List Char) : List (List Char) := wordsFrom white [] s

/-- Something that is read as one word. -/
structure IsWord (white : Char → Bool) (w : List Char) : Prop where
  ne_nil : w ≠ []
  dark : ∀ c ∈ w, white c = false

theorem wordsFrom_dark (cur : List Char) {w s : List Char} (h : ∀ c ∈ w, white c = false) :
    wordsFrom white cur (w ++ s) = wordsFrom white (cur ++ w) s := by
  induction w generalizing cur with
  | nil => rw [List.nil_append, List.append_nil]
  | cons c cs ih =>
    rw [List.cons_append, wordsFrom, h c List.mem_cons_self, if_neg (by simp),
      ih _ fun c' hc' => h c' (List.mem_cons_of_mem c hc'), List.append_assoc]
    rfl

theorem words_blanks (hblank : white ' ' = true) (n : Nat) (s : List Char) :
    words white (List.replicate n ' ' ++ s) = words white s := by
  induction n with
  | zero => rfl
  | succ n ih =>
    rw [List.replicate_succ, List.cons_append, words, wordsFrom, if_pos hblank, if_pos rfl]
    exact ih

/-- A word with blanks after it. -/
theorem words_cons (hblank : white ' ' = true) {w : List Char} (hw : IsWord white w) (n : Nat) (s : List Char) :
    words white (w ++ List.replicate (n + 1) ' ' ++ s) = w :: words white s := by
  rw [words, List.append_assoc, wordsFrom_dark [] hw.dark, List.nil_append, List.replicate_succ, List.cons_append,
    wordsFrom, if_pos hblank, if_neg hw.ne_nil]
  exact congrArg _ (words_blanks hblank n s)

theorem words_singleton {w : List Char} (hw : IsWord white w) : words white w = [w] := by
  have h := wordsFrom_dark [] (s := []) hw.dark
  rw [List.append_nil, List.nil_append] at h
  rw [words, h, wordsFrom, if_neg hw.ne_nil]

/-- Each word with one blank and some more after it. -/
def spread (fields : List (List Char × Nat)) : List Char := fields.flatMap fun f => f.1 ++ List.replicate (f.2 + 1) ' '

theorem words_spread (hblank : white ' ' = true) {fields : List (List Char × Nat)} {last : List Char}
    (h : ∀ f ∈ fields, IsWord white f.1) (hlast : IsWord white last) :
    words white (spread fields ++ last) = fields.map Prod.fst ++ [last] := by
  induction fields with
  | nil => exact words_singleton hlast
  | cons f fs ih =>
    have hrest := ih fun f' hf' => h f' (List.mem_cons_of_mem f hf')
    rw [spread, List.flatMap_cons, List.append_assoc, words_cons hblank (h f List.mem_cons_self), List.map_cons,
      List.cons_append]
    exact congrArg _ hrest

/-- No character of the line is one that the words and the blank are not. -/
theorem not_mem_spread {c : Char} (hc : white c = true) (hne : c ≠ ' ') {fields : List (List Char × Nat)}
    {last : List Char}
    (h : ∀ f ∈ fields, IsWord white f.1) (hlast : IsWord white last) : c ∉ spread fields ++ last := by
  have hword {w : List Char} (hw : IsWord white w) : c ∉ w := fun hmem => by
    have hdark := hw.dark c hmem
    rw [hc] at hdark
    cases hdark
  rw [List.mem_append, not_or, spread, List.mem_flatMap]
  refine ⟨?_, hword hlast⟩
  rintro ⟨f, hf, hmem⟩
  rcases List.mem_append.mp hmem with hmem | hmem
  · exact hword (h f hf) hmem
  · exact hne (List.eq_of_mem_replicate hmem)

/-! ## Numbers -/

/-- The value of a digit or a letter, of either case. -/
def digitValue (c : Char) : Option Nat :=
  if '0' ≤ c ∧ c ≤ '9' then some (c.toNat - 48)
  else if 'a' ≤ c ∧ c ≤ 'z' then some (c.toNat - 87)
  else if 'A' ≤ c ∧ c ≤ 'Z' then some (c.toNat - 55)
  else none

/-- Read on, in a base, after the number `n`. -/
def ofRadix (b n : Nat) : List Char → Option Nat
  | [] => some n
  | c :: cs => do
    let v ← (digitValue c).filter (· < b)
    ofRadix b (b * n + v) cs

theorem digitValue_digitChar : ∀ n < 16, digitValue n.digitChar = some n := by decide

theorem ofRadix_cons_digitChar {b d : Nat} (hd : d < b) (hb : b ≤ 16) (n : Nat) (cs : List Char) :
    ofRadix b n (d.digitChar :: cs) = ofRadix b (b * n + d) cs := by
  rw [ofRadix, digitValue_digitChar d (by omega), Option.filter_some, if_pos (decide_eq_true hd)]
  rfl

theorem ofRadix_append {b n m : Nat} {s t : List Char} (h : ofRadix b n s = some m) :
    ofRadix b n (s ++ t) = ofRadix b m t := by
  induction s generalizing n with
  | nil => cases h; rfl
  | cons c cs ih =>
    rw [ofRadix, Option.bind_eq_bind, Option.bind_eq_some_iff] at h
    obtain ⟨v, hv, h⟩ := h
    rw [List.cons_append, ofRadix, hv]
    exact ih h

/-- The digits of a number are read as the number. -/
theorem ofRadix_toDigits {b : Nat} (hb' : 1 < b) (hb : b ≤ 16) (n : Nat) : ofRadix b 0 (Nat.toDigits b n) = some n := by
  induction n using Nat.base_induction b hb' with
  | single m hm => rw [Nat.toDigits_of_lt_base hm, ofRadix_cons_digitChar hm hb, Nat.mul_zero, Nat.zero_add, ofRadix]
  | digit m k hk hm ih =>
    rw [← Nat.toDigits_append_toDigits hb' hm hk, ofRadix_append ih, Nat.toDigits_of_lt_base hk,
      ofRadix_cons_digitChar hk hb, ofRadix]

/-- Leading zeros do not count. -/
theorem ofRadix_zeros {b : Nat} (hb' : 0 < b) (hb : b ≤ 16) (k : Nat) (s : List Char) :
    ofRadix b 0 (List.replicate k '0' ++ s) = ofRadix b 0 s := by
  induction k with
  | zero => rfl
  | succ k ih =>
    have hzero := ofRadix_cons_digitChar (d := 0) hb' hb 0 (List.replicate k '0' ++ s)
    rw [List.replicate_succ, List.cons_append]
    exact hzero.trans ih

theorem digitChar_of_mem_toDigits {b : Nat} (hb' : 1 < b) {n : Nat} {c : Char} (h : c ∈ Nat.toDigits b n) :
    ∃ d < b, c = d.digitChar := by
  induction n using Nat.base_induction b hb' with
  | single m hm =>
    rw [Nat.toDigits_of_lt_base hm, List.mem_singleton] at h
    exact ⟨m, hm, h⟩
  | digit m k hk hm ih =>
    rw [← Nat.toDigits_append_toDigits hb' hm hk, List.mem_append] at h
    rcases h with h | h
    · exact ih h
    · rw [Nat.toDigits_of_lt_base hk, List.mem_singleton] at h
      exact ⟨k, hk, h⟩

end Lib.Text
