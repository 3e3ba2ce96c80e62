import SecretsVault.Lib.Text
import Mathlib.Tactic.Linarith

/-!
# Prefix codes in printable text

A `Code` writes values as printable ASCII bytes and reads a value back from in front of any rest. Codes of numbers,
strings, lists, options and pairs are built from each other; `imap` carries a code over to another type.

- `Code.read_write`, `Code.read_cut`, `Code.read_behind`: a whole text reads back; a text cut short, or with another one
  behind it, does not.
- `length_nat`, `length_list`, …: how long a text gets.
-/

namespace Lib

/-- A byte of printable ASCII. -/
def Printable (b : UInt8) : Prop := 0x20 ≤ b ∧ b ≤ 0x7E

instance (b : UInt8) : Decidable (Printable b) := by unfold Printable; infer_instance

/-- A self-delimiting code. -/
structure Code (α : Type) where
  enc : α → Bytes
  dec : Bytes → Option (α × Bytes)
  dec_enc : ∀ a rest, dec (enc a ++ rest) = some (a, rest)
  printable : ∀ a, ∀ b ∈ enc a, Printable b

namespace Code

variable {α β : Type}

/-- Read a text that is exactly one value. -/
def read (c : Code α) (b : Bytes) : Option α :=
  match c.dec b with
  | some (a, []) => if c.enc a = b then some a else none
  | _ => none

theorem read_eq_some {c : Code α} {b : Bytes} {a : α} (h : c.read b = some a) : b = c.enc a := by
  unfold read at h
  split at h
  · split at h
    · cases h; exact Eq.symm ‹_›
    · cases h
  · cases h

theorem read_write (c : Code α) (a : α) : c.read (c.enc a) = some a := by
  have := c.dec_enc a []
  rw [List.append_nil] at this
  simp [read, this]

/-- Nothing can follow a value within a value. -/
theorem eq_nil_of_enc_append {c : Code α} {a b : α} {q : Bytes} (h : c.enc a ++ q = c.enc b) : q = [] := by
  have h1 := c.dec_enc a q
  have h2 := c.dec_enc b []
  rw [List.append_nil, ← h, h1] at h2
  simp only [Option.some.injEq, Prod.mk.injEq] at h2
  exact h2.2

/-- A text cut short does not read. -/
theorem read_cut (c : Code α) (a : α) {k : Nat} (hk : k < (c.enc a).length) : c.read ((c.enc a).take k) = none := by
  rcases hr : c.read ((c.enc a).take k) with _ | a'
  · rfl
  · have h := read_eq_some hr
    have hq := eq_nil_of_enc_append (a := a') (c := c) (b := a) (q := (c.enc a).drop k)
      (by rw [← h, List.take_append_drop])
    rw [List.drop_eq_nil_iff] at hq
    omega

/-- A text with something behind it does not read. -/
theorem read_behind (c : Code α) {b q : Bytes} {a : α} (h : c.read b = some a) (hq : q ≠ []) :
    c.read (b ++ q) = none := by
  rcases hr : c.read (b ++ q) with _ | a'
  · rfl
  · have h' := read_eq_some hr
    rw [read_eq_some h] at h'
    exact absurd (eq_nil_of_enc_append h') hq

theorem utf8Valid_of_printable {b : Bytes} (h : ∀ x ∈ b, Printable x) : utf8Valid b = true := by
  induction b with
  | nil => rfl
  | cons x b ih =>
    obtain ⟨h1, h2⟩ := h x (by simp)
    have hx : utf8Lead x = some [] := by
      rw [utf8Lead, if_pos (UInt8.le_trans h2 (by decide))]
    have hb := ih fun y hy => h y (by simp [hy])
    simp only [utf8Valid, List.foldlM_cons, utf8Step, hx, beq_iff_eq] at hb ⊢
    exact hb

/-! ## Numbers -/

/-- Hexadecimal digits from the least one on, in sixteen consecutive characters. -/
def digits : Nat → Nat → Bytes
  | 0, _ => []
  | fuel + 1, n => if n = 0 then [] else UInt8.ofNat (0x30 + n % 16) :: digits fuel (n / 16)

def undigits : Bytes → Option (Nat × Bytes)
  | [] => none
  | c :: cs =>
    if c = 0x7E then some (0, cs)
    else (undigits cs).map fun p => (16 * p.1 + (c.toNat - 0x30), p.2)

theorem digit_toNat {d : Nat} (h : d < 16) : (UInt8.ofNat (0x30 + d)).toNat = 0x30 + d := by
  rw [UInt8.toNat_ofNat']; omega

theorem undigits_digits (fuel n : Nat) (h : n ≤ fuel) (rest : Bytes) :
    undigits (digits fuel n ++ 0x7E :: rest) = some (n, rest) := by
  induction fuel generalizing n with
  | zero => simp [digits, undigits, show n = 0 by omega]
  | succ fuel ih =>
    rw [digits]
    split
    · simp [undigits, *]
    · have hd := digit_toNat (Nat.mod_lt n (by decide : 0 < 16))
      have hne : UInt8.ofNat (0x30 + n % 16) ≠ 0x7E := fun he => by
        rw [he] at hd
        change 126 = _ at hd
        omega
      rw [List.cons_append, undigits, if_neg hne, ih (n / 16) (by omega), Option.map_some, hd]
      simp only [Option.some.injEq, Prod.mk.injEq, and_true]
      omega

/-- Numbers: their digits and an end mark. -/
def nat : Code Nat where
  enc n := digits n n ++ [0x7E]
  dec := undigits
  dec_enc n rest := by rw [List.append_assoc]; exact undigits_digits n n le_rfl rest
  printable n := by
    have h : ∀ fuel n, ∀ b ∈ digits fuel n, Printable b := by
      intro fuel
      induction fuel with
      | zero => intro n b hb; cases hb
      | succ fuel ih =>
        intro n b hb
        rw [digits] at hb
        split at hb
        · cases hb
        · rcases List.mem_cons.mp hb with rfl | hb
          · have hd := digit_toNat (Nat.mod_lt n (by decide : 0 < 16))
            constructor <;> rw [UInt8.le_iff_toNat_le, hd]
            · change 32 ≤ _; omega
            · change _ ≤ 126; omega
          · exact ih _ b hb
    intro b hb
    rcases List.mem_append.mp hb with hb | hb
    · exact h n n b hb
    · rw [List.mem_singleton.mp hb]; decide

theorem length_digits (k fuel n : Nat) (h : n < 16 ^ k) : (digits fuel n).length ≤ k := by
  induction fuel generalizing k n with
  | zero => simp [digits]
  | succ fuel ih =>
    rw [digits]
    split
    · simp
    · cases k with
      | zero => simp at h; contradiction
      | succ k =>
        have := ih k (n / 16) (by rw [Nat.pow_succ] at h; omega)
        rw [List.length_cons]
        omega

theorem length_nat (k n : Nat) (h : n < 16 ^ k) : (nat.enc n).length ≤ k + 1 := by
  have := length_digits k n n h
  change (digits n n ++ [0x7E]).length ≤ k + 1
  simpa using this

/-- Numbers take no more bytes than their value. -/
theorem length_nat_le (n : Nat) : (nat.enc n).length ≤ n + 1 :=
  length_nat n n (Nat.lt_pow_self (by decide))

/-! ## Combinators -/

/-- A code carried over to another type. -/
def imap (c : Code α) (f : α → β) (g : β → α) (h : ∀ b, f (g b) = b) : Code β where
  enc b := c.enc (g b)
  dec bs := (c.dec bs).map fun p => (f p.1, p.2)
  dec_enc b rest := by rw [c.dec_enc, Option.map_some, h]
  printable b := c.printable (g b)

/-- Pairs. -/
def pair (c : Code α) (d : Code β) : Code (α × β) where
  enc p := c.enc p.1 ++ d.enc p.2
  dec bs := (c.dec bs).bind fun p => (d.dec p.2).map fun q => ((p.1, q.1), q.2)
  dec_enc p rest := by rw [List.append_assoc, c.dec_enc, Option.bind_some, d.dec_enc, Option.map_some]
  printable p b hb := by
    rcases List.mem_append.mp hb with hb | hb
    · exact c.printable _ b hb
    · exact d.printable _ b hb

/-- Options. -/
def option (c : Code α) : Code (Option α) where
  enc
    | none => [0x30]
    | some a => 0x31 :: c.enc a
  dec
    | [] => none
    | t :: bs => if t = 0x30 then some (none, bs) else (c.dec bs).map fun p => (some p.1, p.2)
  dec_enc o rest := by
    cases o with
    | none => rfl
    | some a =>
      have : ((0x31 : UInt8) = 0x30) = False := by decide
      simp only [List.cons_append, this, if_false, c.dec_enc, Option.map_some]
  printable o b hb := by
    cases o with
    | none => rw [List.mem_singleton.mp hb]; decide
    | some a =>
      rcases List.mem_cons.mp hb with rfl | hb
      · decide
      · exact c.printable a b hb

/-- A number of elements. -/
def decList (c : Code α) : Nat → Bytes → Option (List α × Bytes)
  | 0, bs => some ([], bs)
  | n + 1, bs => (c.dec bs).bind fun p => (decList c n p.2).map fun q => (p.1 :: q.1, q.2)

theorem decList_flatMap (c : Code α) (l : List α) (rest : Bytes) :
    decList c l.length (l.flatMap c.enc ++ rest) = some (l, rest) := by
  induction l with
  | nil => rfl
  | cons a l ih =>
    rw [List.flatMap_cons, List.append_assoc, List.length_cons, decList, c.dec_enc, Option.bind_some, ih,
      Option.map_some]

/-- Lists: their length and their elements. -/
def list (c : Code α) : Code (List α) where
  enc l := nat.enc l.length ++ l.flatMap c.enc
  dec bs := (nat.dec bs).bind fun p => decList c p.1 p.2
  dec_enc l rest := by rw [List.append_assoc, nat.dec_enc, Option.bind_some, decList_flatMap]
  printable l b hb := by
    rcases List.mem_append.mp hb with hb | hb
    · exact nat.printable _ b hb
    · obtain ⟨a, -, ha⟩ := List.mem_flatMap.mp hb
      exact c.printable a b ha

theorem length_list {c : Code α} {m : Nat} (l : List α) (h : ∀ a ∈ l, (c.enc a).length ≤ m) :
    ((list c).enc l).length ≤ l.length + 1 + m * l.length := by
  have hf : (l.flatMap c.enc).length ≤ m * l.length := by
    induction l with
    | nil => simp
    | cons a l ih =>
      rw [List.flatMap_cons, List.length_append, List.length_cons, Nat.mul_succ]
      have h1 := h a (by simp)
      have h2 := ih fun b hb => h b (by simp [hb])
      omega
  have hn := length_nat_le l.length
  change (nat.enc l.length ++ l.flatMap c.enc).length ≤ _
  rw [List.length_append]
  omega

/-! ## Basic types -/

def byte : Code UInt8 := nat.imap UInt8.ofNat UInt8.toNat fun b => by simp

def char : Code Char := nat.imap Char.ofNat Char.toNat Char.ofNat_toNat

def bytes : Code Bytes := list byte

def string : Code String := (list char).imap String.ofList String.toList fun _ => String.ofList_toList

/-- Integers: the number itself, or one less than its opposite, behind a mark. -/
def int : Code Int := (pair nat nat).imap (fun p => (p.1 : Int) - p.2) (fun i => (i.toNat, (-i).toNat)) fun i => by
  simp only; omega

theorem length_bytes (b : Bytes) : (bytes.enc b).length ≤ 4 * b.length + 1 := by
  have := length_list (c := byte) (m := 3) b fun x _ => length_nat 2 x.toNat x.toNat_lt
  change ((list byte).enc b).length ≤ _
  omega

theorem char_toNat_lt (c : Char) : c.toNat < 16 ^ 6 := by
  have h : c.toNat < 1114112 := by
    rcases c.valid with h | h
    · exact lt_trans h (by decide)
    · exact h.2
  omega

theorem length_le_utf8ByteSize (l : List Char) : l.length ≤ (String.ofList l).utf8ByteSize := by
  induction l with
  | nil => simp
  | cons c l ih =>
    have : String.ofList (c :: l) = String.singleton c ++ String.ofList l := by
      rw [← List.singleton_append, String.ofList_append]; rfl
    rw [this, String.utf8ByteSize_append, String.utf8ByteSize_singleton, List.length_cons]
    have := c.utf8Size_pos
    omega

theorem length_string (s : String) : (string.enc s).length ≤ 8 * s.utf8ByteSize + 1 := by
  have h := length_list (c := char) (m := 7) s.toList fun c _ =>
    length_nat 6 c.toNat (char_toNat_lt c)
  have hle := length_le_utf8ByteSize s.toList
  rw [String.ofList_toList] at hle
  change ((list char).enc s.toList).length ≤ _
  omega

theorem length_int (k : Nat) (i : Int) (h : i.natAbs < 16 ^ k) : (int.enc i).length ≤ 2 * k + 2 := by
  have h1 := length_nat k i.toNat (by omega)
  have h2 := length_nat k (-i).toNat (by omega)
  change (nat.enc i.toNat ++ nat.enc (-i).toNat).length ≤ _
  rw [List.length_append]
  omega

end Code

end Lib
