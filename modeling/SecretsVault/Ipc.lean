import Mathlib.Data.List.Pairwise
import SecretsVault.BrokerIdentity
import SecretsVault.Dotenv
import SecretsVault.Lib.Interleaving
import SecretsVault.Lib.Words

/-!
# The lock of the daemon

A daemon holds a lock on a file beside its socket for as long as it lives. A client that has connected asks the kernel
who is at the other end, and reads in `/proc/locks` who holds the lock.

- `lockHolderPid_locksText`: what is read there is the process that holds the lock.
- `verified_holds_lock`: in every state of the host, a peer is verified if and only if it holds the lock; no two peers
  are.
- `daemon_is_single`: while a daemon has the lock and its file is in place, no other gets it, and no other peer is
  verified.
- `acquireVault_refines`: an attempt to lock a vault ends as the sessions have it, with its errors, and they know
  whether the lock is taken.
-/

namespace SecretsVault.Ipc

open Lib

def instanceLockPath (socket : Store.Place) : Store.Place :=
  socket.withFileName (socket.fileName.getD "svault.sock" ++ ".lock")

def vaultLockPath (vault : Store.Place) : Store.Place := vault.withFileName (vault.fileName.getD "vault.enc" ++ ".lock")

/-- Device and number of a file. -/
structure FileId where
  major : UInt32
  minor : UInt32
  ino : UInt64
  deriving DecidableEq

/-! ## What the kernel shows -/

inductive LockKind where
  | flock
  | posix
  | ofdlck
  | lease
  | deleg
  deriving DecidableEq

def LockKind.word : LockKind → String
  | .flock => "FLOCK"
  | .posix => "POSIX"
  | .ofdlck => "OFDLCK"
  | .lease => "LEASE"
  | .deleg => "DELEG"

inductive LockMode where
  | advisory
  | active
  | breaking
  | breaker
  deriving DecidableEq

def LockMode.word : LockMode → String
  | .advisory => "ADVISORY"
  | .active => "ACTIVE"
  | .breaking => "BREAKING"
  | .breaker => "BREAKER"

/-- The blanks after the word, beyond the first. -/
def LockMode.blanks : LockMode → Nat
  | .advisory => 1
  | .active => 3
  | .breaking => 1
  | .breaker => 2

inductive Access where
  | read
  | write
  | unlock
  deriving DecidableEq

def Access.word : Access → String
  | .read => "READ"
  | .write => "WRITE"
  | .unlock => "UNLCK"

/-- The number of a process, or `-1`, of 32 bits. -/
abbrev Pid := { n : Int // -2 ^ 31 ≤ n ∧ n < 2 ^ 31 }

/-- A lock, or somebody who waits for one. -/
structure LockEntry where
  waiting : Bool
  kind : LockKind
  mode : LockMode
  access : Access
  pid : Pid
  file : FileId
  start : Nat
  stop : Option Nat
  deriving DecidableEq

/-- The process has the file for itself. -/
def LockEntry.Exclusive (e : LockEntry) : Prop := e.waiting = false ∧ e.kind = .flock ∧ e.access = .write

instance (e : LockEntry) : Decidable e.Exclusive := by unfold LockEntry.Exclusive; infer_instance

def decimal (n : Nat) : List Char := Nat.toDigits 10 n

def signed : Int → List Char
  | .ofNat n => decimal n
  | .negSucc n => '-' :: decimal (n + 1)

/-- Two hex digits at least. -/
def hexPadded (n : Nat) : List Char := List.replicate (2 - (Nat.toDigits 16 n).length) '0' ++ Nat.toDigits 16 n

def FileId.parts (f : FileId) : List (List Char) :=
  [hexPadded f.major.toNat, hexPadded f.minor.toNat, decimal f.ino.toNat]

/-- The words of a line, each with the number of its blanks beyond the first. -/
def LockEntry.fields (n : Nat) (e : LockEntry) : List (List Char × Nat) :=
  [(decimal n ++ [':'], 0)] ++ (if e.waiting then [("->".toList, 0)] else []) ++
    [(e.kind.word.toList, if e.kind = .ofdlck then 0 else 1), (e.mode.word.toList, e.mode.blanks),
      (e.access.word.toList, 0), (signed e.pid.1, 0), ([':'].intercalate e.file.parts, 0), (decimal e.start, 0)]

def LockEntry.last (e : LockEntry) : List Char := (e.stop.map decimal).getD "EOF".toList

def LockEntry.line (n : Nat) (e : LockEntry) : List Char := Text.spread (e.fields n) ++ e.last

/-- The text of `/proc/locks`. -/
def locksText (es : List LockEntry) : List Char := (es.mapIdx fun i e => e.line (i + 1)).flatMap fun l => l ++ ['\n']

/-! ## What a client reads -/

/-- `from_str_radix` of an unsigned type of `w` bits. -/
def parseUnsigned (b w : Nat) (s : List Char) : Option Nat :=
  let digits := if s.head? = some '+' then s.tail else s
  if digits = [] then none else (Text.ofRadix b 0 digits).filter (· < 2 ^ w)

/-- `parse` of a signed type of 32 bits. -/
def parseI32 (s : List Char) : Option Int :=
  if s.head? = some '-' then
    if s.tail = [] then none else ((Text.ofRadix 10 0 s.tail).filter (· ≤ 2 ^ 31)).map fun n : Nat => -(n : Int)
  else (parseUnsigned 10 31 s).map fun n : Nat => (n : Int)

/-- A line of the loop: `none` goes on with the next line, and the loop ends with what is read otherwise. -/
def lockLine (file : FileId) (line : List Char) : Option (Option Int) :=
  match Text.words isUnicodeWhitespace line with
  | f0 :: f1 :: _ :: f3 :: f4 :: f5 :: _ :: _ :: _ =>
    if f0.getLast? ≠ some ':' ∨ f1 ≠ "FLOCK".toList ∨ f3 ≠ "WRITE".toList then none
    else match f5.splitOn ':' with
      | [p0, p1, p2] =>
        match parseUnsigned 16 32 p0, parseUnsigned 16 32 p1, parseUnsigned 10 64 p2 with
        | some dmaj, some dmin, some dino =>
          if dmaj = file.major.toNat ∧ dmin = file.minor.toNat ∧ dino = file.ino.toNat then some (parseI32 f4) else none
        | _, _, _ => none
      | _ => none
  | _ => none

/-- `metadata` of the lock file, and the text of `/proc/locks`, where they can be read. -/
def lockHolderPid (metadata : Option FileId) (text : Option (List Char)) : Option Int := do
  let file ← metadata
  let text ← text
  ((Text.lines text).findSome? (lockLine file)).join

def serverUnverified : VaultError :=
  .protocol ("server identity could not be verified; refusing to send credentials " ++
  "(no svault daemon holds the instance lock for this socket)")

/-- What the kernel says of the process at the other end. -/
structure PeerCredentials where
  pid : Int
  uid : Nat

def verifyServer (peer : Except IoError PeerCredentials) (euid : Nat) (metadata : Option FileId)
    (text : Option (List Char)) : Except VaultError Unit := do
  let cred ← peer.mapError IoError.toVaultError
  if cred.pid ≤ 0 ∨ cred.uid ≠ euid then .error serverUnverified
  else if lockHolderPid metadata text ≠ some cred.pid then .error serverUnverified
  else .ok ()

/-! ## Numbers and lines are read back -/

theorem digitChar_plain : ∀ d < 16, isUnicodeWhitespace d.digitChar = false ∧ d.digitChar ≠ ':' ∧ d.digitChar ≠ '+' ∧
    d.digitChar ≠ '-' := by decide

theorem toDigits_plain {b : Nat} (hb' : 1 < b) (hb : b ≤ 16) {n : Nat} {c : Char} (h : c ∈ Nat.toDigits b n) :
    isUnicodeWhitespace c = false ∧ c ≠ ':' ∧ c ≠ '+' ∧ c ≠ '-' := by
  obtain ⟨d, hd, rfl⟩ := Text.digitChar_of_mem_toDigits hb' h
  exact digitChar_plain d (by omega)

theorem hexPadded_plain {n : Nat} {c : Char} (h : c ∈ hexPadded n) :
    isUnicodeWhitespace c = false ∧ c ≠ ':' ∧ c ≠ '+' ∧ c ≠ '-' := by
  rcases List.mem_append.mp h with h | h
  · rw [List.eq_of_mem_replicate h]
    decide
  · exact toDigits_plain (by decide) (by decide) h

theorem head?_ne {s : List Char} {c : Char} (h : c ∉ s) : s.head? ≠ some c :=
  fun hs => h (List.mem_of_mem_head? hs)

theorem parseUnsigned_of_plain {b w n : Nat} {s : List Char} (hne : s ≠ []) (hplus : '+' ∉ s)
    (hs : Text.ofRadix b 0 s = some n) (hn : n < 2 ^ w) : parseUnsigned b w s = some n := by
  unfold parseUnsigned
  rw [if_neg (head?_ne hplus)]
  dsimp only
  rw [if_neg hne, hs, Option.filter_some, if_pos (decide_eq_true hn)]

theorem parseUnsigned_decimal {w n : Nat} (hn : n < 2 ^ w) : parseUnsigned 10 w (decimal n) = some n :=
  parseUnsigned_of_plain Nat.toDigits_ne_nil (fun h => (toDigits_plain (by decide) (by decide) h).2.2.1 rfl)
    (Text.ofRadix_toDigits (by decide) (by decide) n) hn

theorem hexPadded_ne_nil (n : Nat) : hexPadded n ≠ [] :=
  List.append_ne_nil_of_right_ne_nil _ Nat.toDigits_ne_nil

theorem parseUnsigned_hexPadded {w n : Nat} (hn : n < 2 ^ w) : parseUnsigned 16 w (hexPadded n) = some n :=
  parseUnsigned_of_plain (hexPadded_ne_nil n) (fun h => (hexPadded_plain h).2.2.1 rfl)
    ((Text.ofRadix_zeros (by decide) (by decide) _ _).trans (Text.ofRadix_toDigits (by decide) (by decide) n)) hn

theorem parseI32_signed (p : Pid) : parseI32 (signed p.1) = some p.1 := by
  obtain ⟨n | n, hlo, hhi⟩ := p
  · have hminus : (decimal n).head? ≠ some '-' := head?_ne fun h => (toDigits_plain (by decide) (by decide) h).2.2.2 rfl
    have hn : n < 2 ^ 31 := by rw [Int.ofNat_eq_natCast] at hhi; omega
    dsimp only [signed]
    rw [parseI32, if_neg hminus, parseUnsigned_decimal hn]
    rfl
  · have hn : n + 1 ≤ 2 ^ 31 := by omega
    dsimp only [signed]
    rw [parseI32, List.head?_cons, if_pos rfl, List.tail_cons, decimal, if_neg Nat.toDigits_ne_nil,
      Text.ofRadix_toDigits (by decide) (by decide), Option.filter_some, if_pos (decide_eq_true hn)]
    rfl

theorem isWord_of_all {w : List Char} (h : (!w.isEmpty && w.all fun c => !isUnicodeWhitespace c) = true) :
    Text.IsWord isUnicodeWhitespace w := by
  rw [Bool.and_eq_true, Bool.not_eq_true', List.isEmpty_eq_false_iff, List.all_eq_true] at h
  exact ⟨h.1, fun c hc => by simpa using h.2 c hc⟩

theorem isWord_decimal (n : Nat) : Text.IsWord isUnicodeWhitespace (decimal n) :=
  ⟨Nat.toDigits_ne_nil, fun _ hc => (toDigits_plain (by decide) (by decide) hc).1⟩

theorem isWord_signed (n : Int) : Text.IsWord isUnicodeWhitespace (signed n) := by
  cases n with
  | ofNat n => exact isWord_decimal n
  | negSucc n =>
    refine ⟨List.cons_ne_nil _ _, fun c hc => ?_⟩
    rcases List.mem_cons.mp hc with rfl | hc
    · decide
    · exact (isWord_decimal (n + 1)).dark c hc

theorem FileId.parts_plain (f : FileId) {l : List Char} (hl : l ∈ f.parts) {c : Char} (hc : c ∈ l) :
    isUnicodeWhitespace c = false ∧ c ≠ ':' := by
  rw [FileId.parts, List.mem_cons, List.mem_cons, List.mem_singleton] at hl
  rcases hl with rfl | rfl | rfl
  · exact ⟨(hexPadded_plain hc).1, (hexPadded_plain hc).2.1⟩
  · exact ⟨(hexPadded_plain hc).1, (hexPadded_plain hc).2.1⟩
  · have hplain := toDigits_plain (by decide) (by decide) hc
    exact ⟨hplain.1, hplain.2.1⟩

theorem FileId.splitOn_parts (f : FileId) : ([':'].intercalate f.parts).splitOn ':' = f.parts :=
  List.splitOn_intercalate ':' (fun _ hl hmem => (f.parts_plain hl hmem).2 rfl) (List.cons_ne_nil _ _)

theorem isWord_parts (f : FileId) : Text.IsWord isUnicodeWhitespace ([':'].intercalate f.parts) := by
  refine ⟨fun h => ?_, fun c hc => ?_⟩
  · have hsplit := f.splitOn_parts
    rw [h] at hsplit
    exact absurd (congrArg List.length hsplit) (by simp [FileId.parts])
  · rw [FileId.parts, List.intercalate_cons_cons, List.intercalate_cons_cons, List.intercalate_singleton] at hc
    simp only [List.mem_append, List.mem_singleton] at hc
    rcases hc with (hc | rfl) | (hc | rfl) | hc
    · exact (hexPadded_plain hc).1
    · decide
    · exact (hexPadded_plain hc).1
    · decide
    · exact (toDigits_plain (by decide) (by decide) hc).1

theorem LockEntry.isWord_fields (n : Nat) (e : LockEntry) :
    ∀ f ∈ e.fields n, Text.IsWord isUnicodeWhitespace f.1 := by
  have hnumber : Text.IsWord isUnicodeWhitespace (decimal n ++ [':']) := by
    refine ⟨List.append_ne_nil_of_left_ne_nil Nat.toDigits_ne_nil _, fun c hc => ?_⟩
    rcases List.mem_append.mp hc with hc | hc
    · exact (isWord_decimal n).dark c hc
    · rw [List.mem_singleton.mp hc]
      decide
  have hkind : Text.IsWord isUnicodeWhitespace e.kind.word.toList := by
    cases e.kind <;> exact isWord_of_all (by decide)
  have hmode : Text.IsWord isUnicodeWhitespace e.mode.word.toList := by
    cases e.mode <;> exact isWord_of_all (by decide)
  have haccess : Text.IsWord isUnicodeWhitespace e.access.word.toList := by
    cases e.access <;> exact isWord_of_all (by decide)
  have harrow : Text.IsWord isUnicodeWhitespace "->".toList := isWord_of_all (by decide)
  intro f hf
  rw [LockEntry.fields, List.mem_append, List.mem_append] at hf
  rcases hf with (hf | hf) | hf
  · rw [List.mem_singleton.mp hf]
    exact hnumber
  · split at hf
    · rw [List.mem_singleton.mp hf]
      exact harrow
    · cases hf
  · simp only [List.mem_cons, List.not_mem_nil, or_false] at hf
    rcases hf with rfl | rfl | rfl | rfl | rfl | rfl
    · exact hkind
    · exact hmode
    · exact haccess
    · exact isWord_signed _
    · exact isWord_parts _
    · exact isWord_decimal _

theorem LockEntry.isWord_last (e : LockEntry) : Text.IsWord isUnicodeWhitespace e.last := by
  unfold LockEntry.last
  cases e.stop with
  | none => exact isWord_of_all (by decide)
  | some n => exact isWord_decimal n

theorem LockEntry.words_line (n : Nat) (e : LockEntry) :
    Text.words isUnicodeWhitespace (e.line n) = (e.fields n).map Prod.fst ++ [e.last] :=
  Text.words_spread (by decide) (e.isWord_fields n) e.isWord_last

theorem LockKind.word_eq {k : LockKind} : k.word.toList = "FLOCK".toList ↔ k = .flock := by
  cases k <;> decide

theorem Access.word_eq {a : Access} : a.word.toList = "WRITE".toList ↔ a = .write := by
  cases a <;> decide

theorem FileId.ext_iff_toNat {f g : FileId} : (f.major.toNat = g.major.toNat ∧ f.minor.toNat = g.minor.toNat ∧
    f.ino.toNat = g.ino.toNat) ↔ f = g := by
  constructor
  · rintro ⟨hmajor, hminor, hino⟩
    obtain ⟨fmajor, fminor, fino⟩ := f
    obtain ⟨gmajor, gminor, gino⟩ := g
    obtain rfl : fmajor = gmajor := UInt32.toNat_inj.mp hmajor
    obtain rfl : fminor = gminor := UInt32.toNat_inj.mp hminor
    obtain rfl : fino = gino := UInt64.toNat_inj.mp hino
    rfl
  · rintro rfl
    exact ⟨rfl, rfl, rfl⟩

/-- The loop ends at a line that shows an exclusive lock of the file. -/
theorem lockLine_line (file : FileId) (n : Nat) (e : LockEntry) :
    lockLine file (e.line n) = if e.Exclusive ∧ e.file = file then some (some e.pid.1) else none := by
  unfold lockLine
  rw [e.words_line, LockEntry.fields]
  cases hw : e.waiting with
  | true =>
    have hwaits : ¬(e.Exclusive ∧ e.file = file) := fun h => by
      rw [h.1.1] at hw
      cases hw
    rw [if_neg hwaits]
    simp
  | false =>
    have hcolon : (decimal n ++ [':']).getLast? = some ':' := List.getLast?_concat
    simp only [Bool.false_eq_true, if_false, List.append_nil, List.cons_append, List.nil_append, List.map_cons,
      List.map_nil, hcolon, ne_eq, not_true_eq_false, false_or, LockKind.word_eq, Access.word_eq]
    by_cases hflock : e.kind = .flock ∧ e.access = .write
    · have hexclusive : e.Exclusive := ⟨hw, hflock⟩
      rw [if_neg (by tauto), e.file.splitOn_parts]
      simp only [FileId.parts, parseUnsigned_hexPadded e.file.major.toNat_lt,
        parseUnsigned_hexPadded e.file.minor.toNat_lt,
        parseUnsigned_decimal e.file.ino.toNat_lt, FileId.ext_iff_toNat, parseI32_signed, hexclusive, true_and]
    · rw [if_pos (by tauto), if_neg fun h => hflock h.1.2]

/-- **What a client reads is who holds the lock.** -/
theorem lockHolderPid_locksText (file : FileId) (es : List LockEntry) :
    lockHolderPid (some file) (some (locksText es)) =
      (es.find? fun e => e.Exclusive ∧ e.file = file).map fun e => e.pid.1 := by
  have hlines : Text.lines (locksText es) = es.mapIdx fun i e => e.line (i + 1) := by
    refine Text.lines_flatMap fun l hl => ?_
    obtain ⟨i, hi, rfl⟩ := List.mem_mapIdx.mp hl
    have hnot {c : Char} (hc : isUnicodeWhitespace c = true) (hne : c ≠ ' ') : c ∉ es[i].line (i + 1) :=
      Text.not_mem_spread hc hne (es[i].isWord_fields _) es[i].isWord_last
    exact ⟨hnot (by decide) (by decide), fun h => hnot (by decide) (by decide) (List.mem_of_mem_getLast? h)⟩
  have hfind (k : Nat) : (es.mapIdx fun i e => e.line (i + k)).findSome? (lockLine file) =
      (es.find? fun e => e.Exclusive ∧ e.file = file).map fun e => some e.pid.1 := by
    clear hlines
    induction es generalizing k with
    | nil => rfl
    | cons e es ih =>
      rw [List.mapIdx_cons, List.findSome?_cons, lockLine_line, List.find?_cons]
      have hrest := ih (k + 1)
      simp only [← Nat.add_assoc, Nat.add_right_comm] at hrest ⊢
      by_cases he : e.Exclusive ∧ e.file = file
      · rw [if_pos he, decide_eq_true he]
        rfl
      · rw [if_neg he, decide_eq_false he]
        exact hrest
  rw [lockHolderPid]
  simp only [Option.bind_eq_bind, Option.bind_some]
  rw [hlines, hfind]
  cases es.find? fun e => e.Exclusive ∧ e.file = file with
  | none => rfl
  | some e => rfl

example : locksText [⟨false, .flock, .advisory, .write, ⟨77, by decide⟩, ⟨8, 1, 42⟩, 0, none⟩] =
    "1: FLOCK  ADVISORY  WRITE 77 08:01:42 0 EOF\n".toList := by decide +kernel

/-! ## The host -/

def EWOULDBLOCK : Nat := 11

/-- The names of the files that are locked, and the locks, in the order in which they are shown. -/
structure Kernel where
  names : Store.Place → Option FileId
  locks : List LockEntry

def LockEntry.Flock (e : LockEntry) : Prop := e.waiting = false ∧ e.kind = .flock

/-- Two such locks are on one file only if both are shared. -/
def Compatible (e e' : LockEntry) : Prop := e.Flock → e'.Flock → e.file = e'.file → e.access = .read ∧ e'.access = .read

instance (e : LockEntry) : Decidable e.Flock := by unfold LockEntry.Flock; infer_instance

instance (e e' : LockEntry) : Decidable (Compatible e e') := by unfold Compatible; infer_instance

/-- The kernel shows a new lock somewhere. -/
def Kernel.insert (k : Kernel) (e : LockEntry) (slot : Nat) : Kernel :=
  { k with locks := k.locks.take slot ++ e :: k.locks.drop slot }

/-- The lock of a whole file that a process takes. -/
def held (pid : Pid) (file : FileId) : LockEntry := ⟨false, .flock, .advisory, .write, pid, file, 0, none⟩

/-- What the system calls of an attempt answer: the directory, the file, which is new where there was none, the lock. -/
structure Answers where
  dir : Option IoError
  opened : Except IoError FileId
  flock : Option IoError
  slot : Nat

/-- `flock` without waiting. -/
def Kernel.flock (k : Kernel) (a : Answers) (pid : Pid) (file : FileId) : Except IoError Kernel :=
  match a.flock with
  | some e => .error e
  | none =>
    if ∀ e ∈ k.locks, Compatible (held pid file) e then .ok (k.insert (held pid file) a.slot)
    else .error ⟨some EWOULDBLOCK, "Resource temporarily unavailable"⟩

/-- A lock that is held until it is dropped. -/
structure InstanceLock where
  file : FileId
  path : Store.Place

def acquireFile (a : Answers) (pid : Pid) (path : Store.Place) (k : Kernel) : Except VaultError InstanceLock × Kernel :=
  match if path.dropLast ≠ [] then a.dir else none with
  | some e => (.error e.toVaultError, k)
  | none =>
    match a.opened with
    | .error e => (.error e.toVaultError, k)
    | .ok new =>
      let file := (k.names path).getD new
      let k' := { k with names := Function.update k.names path (some file) }
      match k'.flock a pid file with
      | .error e => (.error (if e.errno = some EWOULDBLOCK then .busy else e.toVaultError), k')
      | .ok k'' => (.ok ⟨file, path⟩, k'')

def acquire (a : Answers) (pid : Pid) (socket : Store.Place) : Kernel → Except VaultError InstanceLock × Kernel :=
  acquireFile a pid (instanceLockPath socket)

def acquireVault (a : Answers) (pid : Pid) (vault : Store.Place) : Kernel → Except VaultError InstanceLock × Kernel :=
  acquireFile a pid (vaultLockPath vault)

/-- What happens on the host: a daemon tries to lock a file, a lock is released or its process dies, any process locks
anything that the kernel lets it, and files are removed, replaced and made. -/
inductive Event where
  | acquire (a : Answers) (pid : Pid) (path : Store.Place)
  | leaves (e : LockEntry)
  | enters (e : LockEntry) (slot : Nat)
  | moves (path : Store.Place) (file : Option FileId)

def Kernel.step (k : Kernel) : Event → Option Kernel
  | .acquire a pid path => some (acquireFile a pid path k).2
  | .leaves e => some { k with locks := k.locks.erase e }
  | .enters e slot => if ∀ e' ∈ k.locks, Compatible e e' then some (k.insert e slot) else none
  | .moves path file => some { k with names := Function.update k.names path file }

/-- What the kernel sees to. -/
def Kernel.Sound (k : Kernel) : Prop := k.locks.Pairwise Compatible

theorem Compatible.symm {e e' : LockEntry} (h : Compatible e e') : Compatible e' e :=
  fun he' he hfile => (h he he' hfile.symm).symm

theorem LockEntry.Exclusive.flock {e : LockEntry} (h : e.Exclusive) : e.Flock := ⟨h.1, h.2.1⟩

theorem held_exclusive (pid : Pid) (file : FileId) : (held pid file).Exclusive := ⟨rfl, rfl, rfl⟩

/-- Nothing is locked beside an exclusive lock. -/
theorem not_compatible {e e' : LockEntry} (he : e.Exclusive) (he' : e'.Flock) (hfile : e.file = e'.file) :
    ¬Compatible e e' :=
  fun h => by
    have haccess := (h he.flock he' hfile).1
    rw [he.2.2] at haccess
    cases haccess

variable {k k' k₀ k₁ k₂ : Kernel} {e e' : LockEntry} {slot : Nat} {a : Answers} {pid : Pid} {path socket : Store.Place}

theorem insert_perm (k : Kernel) (e : LockEntry) (slot : Nat) : (k.insert e slot).locks.Perm (e :: k.locks) := by
  have hmiddle : (k.locks.take slot ++ e :: k.locks.drop slot).Perm (e :: (k.locks.take slot ++ k.locks.drop slot)) :=
    List.perm_middle
  rwa [List.take_append_drop] at hmiddle

theorem mem_insert : e' ∈ (k.insert e slot).locks ↔ e' = e ∨ e' ∈ k.locks := by
  rw [(insert_perm k e slot).mem_iff, List.mem_cons]

theorem Kernel.Sound.insert (h : k.Sound) (he : ∀ e' ∈ k.locks, Compatible e e') : (k.insert e slot).Sound :=
  ((insert_perm k e slot).pairwise_iff Compatible.symm).mpr (List.pairwise_cons.mpr ⟨he, h⟩)

/-- Two exclusive locks of one file are one. -/
theorem Kernel.Sound.unique (h : k.Sound) (hmem : e ∈ k.locks) (hmem' : e' ∈ k.locks) (he : e.Exclusive)
    (he' : e'.Exclusive) (hfile : e.file = e'.file) : e = e' := by
  by_contra hne
  have : Std.Symm Compatible := ⟨fun _ _ => Compatible.symm⟩
  exact not_compatible he he'.flock hfile (List.Pairwise.forall h hmem hmem' hne)

/-- A name that leads to a file. -/
def Kernel.named (k : Kernel) (path : Store.Place) (file : FileId) : Kernel :=
  { k with names := Function.update k.names path (some file) }

/-- What an attempt comes to: nothing, or a file that is there but not locked, or the lock. -/
theorem acquireFile_cases (a : Answers) (pid : Pid) (path : Store.Place) (k : Kernel) :
    (∃ e, acquireFile a pid path k = (.error e, k)) ∨ ∃ file, (∀ f, k.names path = some f → file = f) ∧
      ((∃ e, acquireFile a pid path k = (.error e, k.named path file)) ∨
        (∀ e ∈ k.locks, Compatible (held pid file) e) ∧
          acquireFile a pid path k = (.ok ⟨file, path⟩, (k.named path file).insert (held pid file) a.slot)) := by
  unfold acquireFile
  cases if path.dropLast ≠ [] then a.dir else none with
  | some e => exact Or.inl ⟨_, rfl⟩
  | none =>
    cases a.opened with
    | error e => exact Or.inl ⟨_, rfl⟩
    | ok new =>
      refine Or.inr ⟨(k.names path).getD new, fun f hf => by rw [hf, Option.getD_some], ?_⟩
      dsimp only
      unfold Kernel.flock
      cases a.flock with
      | some e => exact Or.inl ⟨_, rfl⟩
      | none =>
        dsimp only
        split_ifs with hfree
        · exact Or.inr ⟨hfree, rfl⟩
        · exact Or.inl ⟨_, rfl⟩

/-- No event breaks what the kernel sees to. -/
theorem Kernel.Sound.step {ev : Event} (h : k.Sound) (hs : k.step ev = some k') : k'.Sound := by
  cases ev with
  | acquire a pid path =>
    cases hs
    obtain ⟨e, heq⟩ | ⟨file, -, ⟨e, heq⟩ | ⟨hfree, heq⟩⟩ := acquireFile_cases a pid path k <;> rw [heq]
    · exact h
    · exact h
    · exact Kernel.Sound.insert (k := k.named path file) h hfree
  | leaves e =>
    cases hs
    exact List.Pairwise.sublist List.erase_sublist h
  | enters e slot =>
    rw [Kernel.step] at hs
    split_ifs at hs with hfree
    cases hs
    exact h.insert hfree
  | moves path file =>
    cases hs
    exact h

theorem Kernel.Sound.runs {es : List Event} (h : k.Sound) (hr : Lib.runs Kernel.step k es = some k') : k'.Sound :=
  runs_induction (fun _ _ _ hs _ hstep => hs.step hstep) h (along_true _ _ _) hr

/-- The process has the lock on the file that the name leads to. -/
structure Kernel.Holds (k : Kernel) (pid : Pid) (file : FileId) (path : Store.Place) : Prop where
  name : k.names path = some file
  mem : held pid file ∈ k.locks

/-- The lock is not released, and the name not taken from its file. -/
def Undisturbed (pid : Pid) (file : FileId) (path : Store.Place) (_ : Kernel) (ev : Event) : Prop :=
  ev ≠ .leaves (held pid file) ∧ ∀ f, ev = .moves path f → f = some file

variable {file : FileId}

theorem Kernel.Holds.update {path' : Store.Place} {f : Option FileId} (h : k.Holds pid file path)
    (hf : path' = path → f = some file) : Kernel.Holds { k with names := Function.update k.names path' f }
    pid file path := by
  refine ⟨?_, h.mem⟩
  by_cases hp : path' = path
  · subst hp
    rw [hf rfl]
    exact Function.update_self _ _ _
  · exact (Function.update_of_ne (Ne.symm hp) _ _).trans h.name

theorem Kernel.Holds.named {path' : Store.Place} {file' : FileId} (h : k.Holds pid file path)
    (hfile : ∀ f, k.names path' = some f → file' = f) : (k.named path' file').Holds pid file path :=
  h.update fun hp => congrArg some (hfile file (hp ▸ h.name))

theorem Kernel.Holds.step {ev : Event} (h : k.Holds pid file path) (hu : Undisturbed pid file path k ev)
    (hs : k.step ev = some k') : k'.Holds pid file path := by
  cases ev with
  | acquire a pid' path' =>
    cases hs
    obtain ⟨e, heq⟩ | ⟨file', hfile, ⟨e, heq⟩ | ⟨-, heq⟩⟩ := acquireFile_cases a pid' path' k <;> rw [heq]
    · exact h
    · exact h.named hfile
    · exact ⟨(h.named hfile).name, mem_insert.mpr (Or.inr h.mem)⟩
  | leaves e =>
    cases hs
    have hne : held pid file ≠ e := fun heq => hu.1 (heq ▸ rfl)
    exact ⟨h.name, (List.mem_erase_of_ne hne).mpr h.mem⟩
  | enters e slot =>
    rw [Kernel.step] at hs
    split_ifs at hs
    cases hs
    exact ⟨h.name, mem_insert.mpr (Or.inr h.mem)⟩
  | moves path' f =>
    cases hs
    exact h.update fun hp => hu.2 f (hp ▸ rfl)

/-- Nobody gets a lock that is held. -/
theorem Kernel.Holds.acquireFile (h : k.Holds pid file path) (a : Answers) (pid' : Pid) :
    ∃ e, Ipc.acquireFile a pid' path k = (.error e, k) := by
  obtain ⟨e, heq⟩ | ⟨file', hfile, ⟨e, heq⟩ | ⟨hfree, -⟩⟩ := acquireFile_cases a pid' path k
  · exact ⟨e, heq⟩
  · obtain rfl := hfile file h.name
    refine ⟨e, heq.trans (congrArg _ ?_)⟩
    rw [Kernel.named, ← h.name, Function.update_eq_self]
  · obtain rfl := hfile file h.name
    exact absurd (hfree _ h.mem) (not_compatible (held_exclusive pid' file') (held_exclusive pid file').flock rfl)

/-! ## Who is verified -/

variable {cred : PeerCredentials} {euid : Nat}

/-- A peer is verified that has the lock on the file. -/
theorem verifyServer_iff (h : k.Sound) : verifyServer (.ok cred) euid (some file) (some (locksText k.locks)) = .ok () ↔
    0 < cred.pid ∧ cred.uid = euid ∧ ∃ e ∈ k.locks, e.Exclusive ∧ e.file = file ∧ e.pid.1 = cred.pid := by
  have hholder : lockHolderPid (some file) (some (locksText k.locks)) = some cred.pid ↔
      ∃ e ∈ k.locks, e.Exclusive ∧ e.file = file ∧ e.pid.1 = cred.pid := by
    rw [lockHolderPid_locksText, Option.map_eq_some_iff]
    constructor
    · rintro ⟨e, hfind, hpid⟩
      have he : e.Exclusive ∧ e.file = file := by simpa using List.find?_some hfind
      exact ⟨e, List.mem_of_find?_eq_some hfind, he.1, he.2, hpid⟩
    · rintro ⟨e, hmem, he, hfile, hpid⟩
      have hsome : (k.locks.find? fun e => e.Exclusive ∧ e.file = file).isSome :=
        List.find?_isSome.mpr ⟨e, hmem, decide_eq_true ⟨he, hfile⟩⟩
      obtain ⟨e', hfind⟩ := Option.isSome_iff_exists.mp hsome
      have he' : e'.Exclusive ∧ e'.file = file := by simpa using List.find?_some hfind
      -- The lock that is found first is the only one.
      obtain rfl := h.unique (List.mem_of_find?_eq_some hfind) hmem he'.1 he (he'.2.trans hfile.symm)
      exact ⟨e', hfind, hpid⟩
  rw [← hholder]
  unfold verifyServer
  simp only [Except.mapError, bind, Except.bind]
  split_ifs with hcred hlock
  · constructor
    · rintro ⟨⟩
    · rintro ⟨hpid, huid, -⟩
      omega
  · constructor
    · rintro ⟨⟩
    · rintro ⟨-, -, heq⟩
      exact absurd heq hlock
  · rw [not_or, not_not] at hcred
    rw [ne_eq, not_not] at hlock
    exact iff_of_true rfl ⟨by omega, hcred.2, hlock⟩

namespace FirstDaemon

/-- No file is locked. -/
def fresh : Kernel := ⟨fun _ => none, []⟩

theorem fresh_sound : fresh.Sound := List.Pairwise.nil

def firstSocket : Store.Place := [.rootDir, .normal "s"]

def firstPid : Pid := ⟨77, by decide⟩

def firstFile : FileId := ⟨8, 1, 42⟩

def answers : Answers := ⟨none, .ok firstFile, none, 0⟩

def locked : Kernel := (fresh.named (instanceLockPath firstSocket) firstFile).insert (held firstPid firstFile) 0

theorem locked_name : locked.names (instanceLockPath firstSocket) = some firstFile := by
  unfold locked Kernel.insert Kernel.named
  dsimp only
  exact Function.update_self _ _ _

theorem runs_locked : runs Kernel.step fresh [.acquire answers firstPid (instanceLockPath firstSocket)] = some locked :=
  rfl

/-- A lock on another file. -/
def otherLock : LockEntry := ⟨false, .flock, .advisory, .write, ⟨90, by decide⟩, ⟨8, 1, 43⟩, 0, none⟩

def secondPid : Pid := ⟨78, by decide⟩

/-- What happens while the first daemon runs. -/
def meanwhile : List Event :=
  [.acquire answers secondPid (instanceLockPath firstSocket), .moves firstSocket (some ⟨8, 1, 44⟩), .leaves otherLock]

theorem undisturbed_meanwhile (k : Kernel) :
    Along Kernel.step (Undisturbed firstPid firstFile (instanceLockPath firstSocket)) k meanwhile := by
  refine ⟨⟨nofun, nofun⟩, fun _ _ => ⟨⟨nofun, fun f heq => ?_⟩, fun _ _ => ⟨⟨?_, nofun⟩, fun _ _ => trivial⟩⟩⟩
  · exact absurd (Event.moves.inj heq).1 (by decide)
  · exact fun heq => absurd (Event.leaves.inj heq) (by decide)

end FirstDaemon

/-- **A verified peer holds the lock.** Whatever daemons and other processes have done on the host: a client, which asks
who is at the other end, looks up the lock file, and later reads the locks, lets in exactly the peers that are its own
user's and have locked that file for themselves; and all that it would let in are one process. -/
theorem verified_holds_lock {es es' : List Event} (h₀ : k₀.Sound) (hr : runs Kernel.step k₀ es = some k)
    (hr' : runs Kernel.step k es' = some k') (euid : Nat) (socket : Store.Place) :
    (∀ peer, verifyServer peer euid (k.names (instanceLockPath socket)) (some (locksText k'.locks)) = .ok () ↔
      ∃ cred, peer = .ok cred ∧ 0 < cred.pid ∧ cred.uid = euid ∧
        ∃ e ∈ k'.locks, e.Exclusive ∧ k.names (instanceLockPath socket) = some e.file ∧ e.pid.1 = cred.pid) ∧
      ∀ cred cred',
        verifyServer (.ok cred) euid (k.names (instanceLockPath socket)) (some (locksText k'.locks)) = .ok () →
          verifyServer (.ok cred') euid (k.names (instanceLockPath socket)) (some (locksText k'.locks)) = .ok () →
            cred.pid = cred'.pid := by
  have hsound : k'.Sound := (h₀.runs hr).runs hr'
  have hiff (cred : PeerCredentials) :
      verifyServer (.ok cred) euid (k.names (instanceLockPath socket)) (some (locksText k'.locks)) = .ok () ↔
        0 < cred.pid ∧ cred.uid = euid ∧
          ∃ e ∈ k'.locks, e.Exclusive ∧ k.names (instanceLockPath socket) = some e.file ∧ e.pid.1 = cred.pid := by
    cases k.names (instanceLockPath socket) with
    | none =>
      refine iff_of_false (fun h => ?_) fun ⟨_, _, _, _, _, hfile, _⟩ => by cases hfile
      rw [verifyServer] at h
      simp only [Except.mapError, bind, Except.bind] at h
      split_ifs at h with hcred hlock
      exact hlock nofun
    | some file =>
      rw [verifyServer_iff hsound]
      simp only [Option.some.injEq, eq_comm]
  refine ⟨fun peer => ?_, fun cred cred' h h' => ?_⟩
  · cases peer with
    | error e =>
      refine iff_of_false (fun h => ?_) fun ⟨_, hcred, _⟩ => by cases hcred
      cases h
    | ok cred =>
      rw [hiff]
      exact ⟨fun h => ⟨cred, rfl, h⟩, fun ⟨_, hcred, h⟩ => by cases hcred; exact h⟩
  · obtain ⟨-, -, e, hmem, he, hfile, hpid⟩ := (hiff cred).mp h
    obtain ⟨-, -, e', hmem', he', hfile', hpid'⟩ := (hiff cred').mp h'
    obtain rfl := hsound.unique hmem hmem' he he' (Option.some.inj (hfile.symm.trans hfile'))
    exact hpid.symm.trans hpid'

theorem verified_holds_lock_once : verifyServer (.ok ⟨77, 1000⟩) 1000
    (FirstDaemon.locked.names (instanceLockPath FirstDaemon.firstSocket))
    (some (locksText FirstDaemon.locked.locks)) = .ok () := by
  have hlocked := verified_holds_lock FirstDaemon.fresh_sound FirstDaemon.runs_locked (runs_nil _ _)
    1000 FirstDaemon.firstSocket
  exact (hlocked.1 _).mpr ⟨_, rfl, by decide, rfl, _, List.mem_singleton_self _, held_exclusive _ _,
    FirstDaemon.locked_name, rfl⟩

/-- **The daemon is the only one.** After a daemon has locked the file of its socket, whatever happens as long as the
lock is not released and the name is not taken from the file: no other attempt gets the lock, or changes anything; and
the peers that a client lets in are the daemon. -/
theorem daemon_is_single {es es' : List Event} {l : InstanceLock} (h₀ : k₀.Sound) (hr : runs Kernel.step k₀ es = some k)
    (ha : acquire a pid socket k = (.ok l, k₁)) (hr' : runs Kernel.step k₁ es' = some k₂)
    (hu : Along Kernel.step (Undisturbed pid l.file (instanceLockPath socket)) k₁ es') :
    (∀ a' pid', ∃ e, acquire a' pid' socket k₂ = (.error e, k₂)) ∧
      ∀ cred euid,
        verifyServer (.ok cred) euid (k₂.names (instanceLockPath socket)) (some (locksText k₂.locks)) = .ok () ↔
          0 < cred.pid ∧ cred.uid = euid ∧ cred.pid = pid.1 := by
  have hstep : k.step (.acquire a pid (instanceLockPath socket)) = some k₁ :=
    congrArg (fun r : Except VaultError InstanceLock × Kernel => some r.2) ha
  have hsound : k₂.Sound := ((h₀.runs hr).step hstep).runs hr'
  have hholds₁ : k₁.Holds pid l.file (instanceLockPath socket) := by
    rw [acquire] at ha
    obtain ⟨e, heq⟩ | ⟨file, -, ⟨e, heq⟩ | ⟨-, heq⟩⟩ := acquireFile_cases a pid (instanceLockPath socket) k <;>
      rw [heq] at ha
    · cases ha
    · cases ha
    · cases ha
      exact ⟨Function.update_self _ _ _, mem_insert.mpr (Or.inl rfl)⟩
  have hholds : k₂.Holds pid l.file (instanceLockPath socket) :=
    runs_induction (I := fun k => k.Holds pid l.file (instanceLockPath socket)) (fun _ _ _ h hev hs => h.step hev hs)
      hholds₁ hu hr'
  refine ⟨fun a' pid' => hholds.acquireFile a' pid', fun cred euid => ?_⟩
  rw [hholds.name, verifyServer_iff hsound]
  refine and_congr_right fun _ => and_congr_right fun _ => ⟨?_, fun hpid => ?_⟩
  · rintro ⟨e, hmem, he, hfile, hpid⟩
    obtain rfl := hsound.unique hmem hholds.mem he (held_exclusive pid l.file) hfile
    exact hpid.symm
  · exact ⟨held pid l.file, hholds.mem, held_exclusive pid l.file, rfl, hpid.symm⟩

/-- Another process has a lock on another file, a daemon starts, a second one tries to, the socket is made anew, and the
other process ends: only the first daemon is let in. -/
theorem daemon_is_single_once : ∃ k₀ k₁ k₂ l, runs Kernel.step FirstDaemon.fresh [.enters FirstDaemon.otherLock 0] =
      some k₀ ∧ acquire FirstDaemon.answers FirstDaemon.firstPid FirstDaemon.firstSocket k₀ = (.ok l, k₁) ∧
    runs Kernel.step k₁ FirstDaemon.meanwhile = some k₂ ∧
    (∃ e, acquire FirstDaemon.answers FirstDaemon.secondPid FirstDaemon.firstSocket k₂ = (.error e, k₂)) ∧
    verifyServer (.ok ⟨77, 1000⟩) 1000 (k₂.names (instanceLockPath FirstDaemon.firstSocket))
      (some (locksText k₂.locks)) = .ok () ∧
    verifyServer (.ok ⟨78, 1000⟩) 1000 (k₂.names (instanceLockPath FirstDaemon.firstSocket))
      (some (locksText k₂.locks)) ≠ .ok () := by
  have hsingle := daemon_is_single FirstDaemon.fresh_sound
    (show runs Kernel.step FirstDaemon.fresh [.enters FirstDaemon.otherLock 0] = _ from rfl)
    (show acquire FirstDaemon.answers FirstDaemon.firstPid FirstDaemon.firstSocket _ = _ from rfl)
    (show runs Kernel.step _ FirstDaemon.meanwhile = _ from rfl) (FirstDaemon.undisturbed_meanwhile _)
  refine ⟨_, _, _, _, rfl, rfl, rfl, hsingle.1 _ _, (hsingle.2 _ _).mpr ⟨by decide, rfl, rfl⟩, fun hin => ?_⟩
  obtain ⟨-, -, hpid⟩ := (hsingle.2 _ _).mp hin
  exact absurd hpid (by decide)

/-! ## The vault's lock as the sessions know it -/

/-- Somebody has locked the file that the name leads to. -/
def Kernel.Owned (k : Kernel) (path : Store.Place) : Prop := ∃ e ∈ k.locks, e.Flock ∧ k.names path = some e.file

/-- The first error that the system calls of an attempt answer. -/
def Answers.error? (a : Answers) (path : Store.Place) : Option IoError :=
  match if path.dropLast ≠ [] then a.dir else none with
  | some e => some e
  | none =>
    match a.opened with
    | .error e => some e
    | .ok _ => a.flock

/-- A file that is made is not locked, and `EWOULDBLOCK` is said of nothing but a lock. -/
structure Answers.Fair (a : Answers) (k : Kernel) (path : Store.Place) : Prop where
  flock : ∀ e, a.flock = some e → e.errno ≠ some EWOULDBLOCK
  opened : ∀ new, a.opened = .ok new → k.names path = none → ∀ e ∈ k.locks, e.file ≠ new

/-- A file that is opened is the one that the name leads to, as far as locks go. -/
theorem Answers.Fair.file_eq {path : Store.Place} {new : FileId} (h : a.Fair k path) (hnew : a.opened = .ok new)
    {e : LockEntry} (he : e ∈ k.locks) : e.file = (k.names path).getD new ↔ k.names path = some e.file := by
  cases hname : k.names path with
  | none => exact iff_of_false (h.opened new hnew hname e he) (by simp)
  | some file => simp [eq_comm]

/-- Opening the file leaves it locked or free. -/
theorem Answers.Fair.owned_named {path : Store.Place} {new : FileId} (h : a.Fair k path) (hnew : a.opened = .ok new) :
    (k.named path ((k.names path).getD new)).Owned path ↔ k.Owned path := by
  have hname : (k.named path ((k.names path).getD new)).names path = some ((k.names path).getD new) :=
    Function.update_self _ _ _
  constructor
  · rintro ⟨e, he, hlocked, hfile⟩
    rw [hname, Option.some.injEq] at hfile
    exact ⟨e, he, hlocked, (h.file_eq hnew he).mp hfile.symm⟩
  · rintro ⟨e, he, hlocked, hfile⟩
    exact ⟨e, he, hlocked, by rw [hname, (h.file_eq hnew he).mpr hfile]⟩

/-- The file can be locked exactly if nobody has locked it. -/
theorem Answers.Fair.compatible_iff {path : Store.Place} {new : FileId} (h : a.Fair k path)
    (hnew : a.opened = .ok new) :
    (∀ e ∈ k.locks, Compatible (held pid ((k.names path).getD new)) e) ↔ ¬k.Owned path := by
  constructor
  · rintro hall ⟨e, he, hlocked, hname⟩
    exact not_compatible (held_exclusive _ _) hlocked ((h.file_eq hnew he).mpr hname).symm (hall e he)
  · intro hnot e he _ hlocked hfile
    exact absurd ⟨e, he, hlocked, (h.file_eq hnew he).mp hfile.symm⟩ hnot

/-- An attempt whose system calls fail ends with their first error, and nothing is locked or freed. -/
theorem acquireFile_of_error (pid : Pid) {path : Store.Place} (h : a.Fair k path) {e : IoError}
    (he : a.error? path = some e) :
    ∃ k', acquireFile a pid path k = (.error e.toVaultError, k') ∧ (k'.Owned path ↔ k.Owned path) := by
  unfold Answers.error? at he
  unfold acquireFile
  split at he
  · cases he
    exact ⟨k, rfl, Iff.rfl⟩
  · split at he
    · cases he
      exact ⟨k, rfl, Iff.rfl⟩
    · rename_i new hopened
      simp only [Kernel.flock, he, if_neg (h.flock e he)]
      exact ⟨_, rfl, h.owned_named hopened⟩

/-- Where they do not fail, the file is locked exactly if nobody had locked it. -/
theorem acquireFile_of_answered (pid : Pid) {path : Store.Place} (h : a.Fair k path) (he : a.error? path = none) :
    (k.Owned path ∧ ∃ k', acquireFile a pid path k = (.error .busy, k') ∧ k'.Owned path) ∨
      ¬k.Owned path ∧ ∃ l k', acquireFile a pid path k = (.ok l, k') ∧ k'.Owned path := by
  unfold Answers.error? at he
  unfold acquireFile
  split at he
  · cases he
  · split at he
    · cases he
    · rename_i new hopened
      by_cases howned : k.Owned path
      · refine Or.inl ⟨howned, k.named path ((k.names path).getD new), ?_, (h.owned_named hopened).mpr howned⟩
        simp only [Kernel.flock, he]
        rw [if_neg fun hall => (h.compatible_iff hopened).mp hall howned]
        rfl
      · refine Or.inr ⟨howned, ⟨(k.names path).getD new, path⟩,
          (k.named path ((k.names path).getD new)).insert (held pid ((k.names path).getD new)) a.slot, ?_, ?_⟩
        · simp only [Kernel.flock, he]
          rw [if_pos ((h.compatible_iff hopened).mpr howned)]
          rfl
        · exact ⟨_, mem_insert.mpr (Or.inl rfl), (held_exclusive _ _).flock, Function.update_self _ _ _⟩

/-- **The lock is what the sessions take it for.** Where their next file-system call answers the first error of the
system calls, they end as the attempt does: with the lock where it was free, told that it is busy where it was not, or
with that error; and they know afterwards whether it is taken. -/
theorem acquireVault_refines {vault : Store.Place} {h h' : Host} {o : Outcome VaultError Unit}
    {r : Except VaultError InstanceLock}
    (hown : h.vaultOwned = true ↔ k.Owned (vaultLockPath vault)) (hfair : a.Fair k (vaultLockPath vault))
    (hcall : h.syscalls 0 = a.error? (vaultLockPath vault))
    (hr : Host.acquireVault.run h = (o, h')) (hk : acquireVault a pid vault k = (r, k')) :
    (h'.vaultOwned = true ↔ k'.Owned (vaultLockPath vault)) ∧
      (o = .ok () ∧ (∃ l, r = .ok l) ∨ o = .error .busy ∧ r = .error .busy ∨
        ∃ e, a.error? (vaultLockPath vault) = some e ∧ o = .error e.toVaultError ∧ r = .error e.toVaultError) := by
  rw [acquireVault] at hk
  cases he : a.error? (vaultLockPath vault) with
  | some e =>
    obtain ⟨k₁, hacq, howned⟩ := acquireFile_of_error pid hfair he
    rw [hacq] at hk
    rw [Host.acquireVault_of_fails (hcall.trans he)] at hr
    cases hk
    cases hr
    exact ⟨hown.trans howned.symm, Or.inr (Or.inr ⟨e, rfl, rfl, rfl⟩)⟩
  | none =>
    obtain ⟨howned, k₁, hacq, howned'⟩ | ⟨hfree, l, k₁, hacq, howned'⟩ := acquireFile_of_answered pid hfair he <;>
      rw [hacq] at hk <;> cases hk
    · rw [Host.acquireVault_of_owned (hcall.trans he) (hown.mpr howned)] at hr
      cases hr
      exact ⟨iff_of_true (hown.mpr howned) howned', Or.inr (Or.inl ⟨rfl, rfl⟩)⟩
    · rw [Host.acquireVault_of_free (hcall.trans he) (by simpa using mt hown.mp hfree)] at hr
      cases hr
      exact ⟨iff_of_true rfl howned', Or.inl ⟨rfl, l, rfl⟩⟩

/-- The answers of an attempt whose lock file cannot be opened. -/
def FirstDaemon.unopened : Answers := ⟨none, .error ⟨some 28, "No space left on device"⟩, none, 0⟩

/-- A first attempt fails to make the lock file, a second one locks it. -/
theorem acquireVault_refines_twice :
    ∃ k, acquireVault FirstDaemon.unopened FirstDaemon.firstPid Reference.vaultPlace FirstDaemon.fresh =
        (.error (.io (some 28) "No space left on device"), k) ∧ ¬k.Owned (vaultLockPath Reference.vaultPlace) ∧
      (acquireVault FirstDaemon.answers FirstDaemon.firstPid Reference.vaultPlace k).2.Owned
        (vaultLockPath Reference.vaultPlace) := by
  have hfree : ¬FirstDaemon.fresh.Owned (vaultLockPath Reference.vaultPlace) := fun ⟨_, he, _⟩ => by cases he
  have hfair : ∀ a : Answers, a.flock = none → a.Fair FirstDaemon.fresh (vaultLockPath Reference.vaultPlace) :=
    fun a ha => ⟨by rw [ha]; exact nofun, fun _ _ _ _ he => by cases he⟩
  have hfails := acquireVault_refines
    (h := { Reference.healthy with vaultOwned := false, syscalls := fun _ => some ⟨some 28,
      "No space left on device"⟩ })
    (iff_of_false Bool.false_ne_true hfree) (hfair FirstDaemon.unopened rfl) rfl rfl
    (show acquireVault FirstDaemon.unopened FirstDaemon.firstPid _ _ = _ from rfl)
  have hlocks := acquireVault_refines (h := { Reference.healthy with vaultOwned := false })
    (iff_of_false Bool.false_ne_true hfree) (hfair FirstDaemon.answers rfl) rfl rfl
    (show acquireVault FirstDaemon.answers FirstDaemon.firstPid _ _ = _ from rfl)
  exact ⟨FirstDaemon.fresh, rfl, fun howned => Bool.false_ne_true (hfails.1.mpr howned), hlocks.1.mp rfl⟩

end SecretsVault.Ipc
