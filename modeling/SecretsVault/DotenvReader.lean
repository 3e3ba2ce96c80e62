import Mathlib.Data.String.Basic
import SecretsVault.Injection

/-!
# Reading a dotenv file back

The grammar of the files that `serializeDotenv` writes: lines `KEY=value`, whose values are bare, and taken as they are
up to the newline, or quoted, and may hold newlines. In quotes, `\\`, `\"` and `\$` are the only escapes, and a `$` must
be escaped.

- `readDotenv`: the reader, one character at a time.
- `serializeDotenv_isOk_iff`: what is refused.
- `readDotenv_serializeDotenv`: what is read back.
-/

namespace SecretsVault

open Lib

/-! ## The reader -/

/-- Where the reader is in a line, with the key and the value so far. -/
inductive DotenvMode where
  | key (k : List Char)
  /-- Behind the `=`. -/
  | start (k : List Char)
  | bare (k v : List Char)
  | quoted (k v : List Char)
  /-- Behind a backslash in quotes. -/
  | escaped (k v : List Char)
  /-- Behind the closing quote. -/
  | closed (k v : List Char)
  deriving DecidableEq, Repr

/-- The entries that have been read, and where the reader is. -/
structure DotenvReader where
  entries : List DotenvEntry
  mode : DotenvMode
  deriving DecidableEq, Repr

namespace DotenvReader

/-- A line has been read. -/
def emit (r : DotenvReader) (k v : List Char) : DotenvReader :=
  ⟨r.entries ++ [⟨String.ofList k, String.ofList v⟩], .key []⟩

/-- Read one character. -/
def read (r : DotenvReader) (c : Char) : Option DotenvReader :=
  match r.mode with
  | .key k =>
    if c = '=' then some { r with mode := .start k }
    else if c = '\n' then none
    else some { r with mode := .key (k ++ [c]) }
  | .start k =>
    if c = '"' then some { r with mode := .quoted k [] } else if c = '\n' then some (r.emit k [])
    else some { r with mode := .bare k [c] }
  | .bare k v => if c = '\n' then some (r.emit k v) else some { r with mode := .bare k (v ++ [c]) }
  | .quoted k v =>
    if c = '\\' then some { r with mode := .escaped k v } else if c = '"' then some { r with mode := .closed k v }
    else if c = '$' then none else some { r with mode := .quoted k (v ++ [c]) }
  | .escaped k v =>
    if c = '\\' ∨ c = '"' ∨ c = '$' then some { r with mode := .quoted k (v ++ [c]) } else none
  | .closed k v => if c = '\n' then some (r.emit k v) else none

/-- What has been read at the end of the file. The last line may lack its newline, but not its closing quote. -/
def finish (r : DotenvReader) : Option (List DotenvEntry) :=
  match r.mode with
  | .key [] => some r.entries
  | .start k => some (r.emit k []).entries
  | .bare k v | .closed k v => some (r.emit k v).entries
  | .key (_ :: _) | .quoted .. | .escaped .. => none

end DotenvReader

/-- Read a file. -/
def readDotenv (bytes : Bytes) : Option (List DotenvEntry) := do
  let text ← fromUtf8 bytes
  let r ← text.toList.foldlM DotenvReader.read ⟨[], .key []⟩
  r.finish

/-! ## What is accepted -/

/-- The characters that a value may hold. -/
def Representable (c : Char) : Prop := isControl c = true → c = '\n' ∨ c = '\r' ∨ c = '\t'

theorem validateValue_eq_ok {value : String} : validateValue value = .ok () ↔ ∀ c ∈ value.toList, Representable c := by
  rw [validateValue]
  split
  · rename_i hany
    obtain ⟨c, hc, hcontrol⟩ := List.any_eq_true.mp hany
    refine ⟨fun h => (by cases h), fun h => ?_⟩
    simp only [Bool.and_eq_true, Bool.not_eq_true', Bool.or_eq_false_iff, beq_eq_false_iff_ne] at hcontrol
    obtain ⟨hcontrol, ⟨hlf, hcr⟩, htab⟩ := hcontrol
    rcases h c hc hcontrol with h | h | h
    · exact absurd h hlf
    · exact absurd h hcr
    · exact absurd h htab
  · rename_i hany
    refine ⟨fun _ c hc hcontrol => ?_, fun _ => rfl⟩
    by_contra hother
    refine hany (List.any_eq_true.mpr ⟨c, hc, ?_⟩)
    simp only [not_or] at hother
    simp [hcontrol, hother]

/-- What is asked of every entry. -/
def DotenvEntry.Accepted (e : DotenvEntry) : Prop := validKey e.key = true ∧ ∀ c ∈ e.value.toList, Representable c

theorem dotenvLines_isOk_iff {entries : List DotenvEntry} :
    (∃ out, dotenvLines entries = .ok out) ↔ ∀ e ∈ entries, e.Accepted := by
  induction entries with
  | nil => exact ⟨fun _ e he => (by cases he), fun _ => ⟨"", rfl⟩⟩
  | cons e rest ih =>
    rw [List.forall_mem_cons, ← ih, DotenvEntry.Accepted, ← validateValue_eq_ok, dotenvLines]
    by_cases hkey : validKey e.key = true
    · rw [if_neg (by simp [hkey])]
      cases hvalue : validateValue e.value with
      | error err => exact ⟨fun ⟨_, h⟩ => (by cases h), fun ⟨h, _⟩ => (by cases h.2)⟩
      | ok _ =>
        cases hrest : dotenvLines rest with
        | error err => exact ⟨fun ⟨_, h⟩ => (by cases h), fun ⟨_, _, h⟩ => (by cases h)⟩
        | ok out => exact ⟨fun _ => ⟨⟨hkey, rfl⟩, out, rfl⟩, fun _ => ⟨_, rfl⟩⟩
    · rw [if_pos (by simpa using hkey)]
      exact ⟨fun ⟨_, h⟩ => (by cases h), fun ⟨h, _⟩ => absurd h.1 hkey⟩

/-- The entries in the order of their keys. -/
def sortEntries (entries : List DotenvEntry) : List DotenvEntry := entries.mergeSort fun a b => a.key ≤ b.key

theorem sortEntries_perm (entries : List DotenvEntry) : (sortEntries entries).Perm entries := List.mergeSort_perm _ _

theorem sortEntries_sorted (entries : List DotenvEntry) : (sortEntries entries).Pairwise fun a b => a.key ≤ b.key := by
  have hsorted : (sortEntries entries).Pairwise fun a b => decide (a.key ≤ b.key) = true :=
    List.pairwise_mergeSort (fun a b c => by simpa using le_trans) (fun a b => by simpa using le_total a.key b.key)
      entries
  exact hsorted.imp fun h => by simpa using h

/-- Equal keys are neighbours when the keys are in order. -/
theorem duplicateKeys_eq_false {entries : List DotenvEntry} (h : entries.Pairwise fun a b => a.key ≤ b.key) :
    duplicateKeys entries = false ↔ (entries.map (·.key)).Nodup := by
  induction entries with
  | nil => simp [duplicateKeys]
  | cons a rest ih =>
    cases rest with
    | nil => simp [duplicateKeys]
    | cons b rest =>
      rw [duplicateKeys, Bool.or_eq_false_iff, ih h.tail, List.map_cons (l := b :: rest), List.nodup_cons]
      refine and_congr_left fun _ => ?_
      rw [List.pairwise_cons] at h
      constructor
      · intro hab hmem
        obtain ⟨c, hc, hkey⟩ := List.mem_map.mp hmem
        have hba : b.key ≤ a.key := by
          rcases List.mem_cons.mp hc with rfl | hc
          · exact hkey.le
          · exact ((List.pairwise_cons.mp h.2).1 c hc).trans hkey.le
        exact beq_eq_false_iff_ne.mp hab (le_antisymm (h.1 b List.mem_cons_self) hba)
      · intro hmem
        exact beq_eq_false_iff_ne.mpr fun hab => hmem (hab ▸ by simp)

theorem serializeDotenv_eq_ok {entries : List DotenvEntry} {bytes : Bytes} (h : serializeDotenv entries = .ok bytes) :
    ∃ out, dotenvLines (sortEntries entries) = .ok out ∧ bytes = utf8 out := by
  rw [serializeDotenv] at h
  split at h
  · cases h
  · cases hlines : dotenvLines (sortEntries entries) with
    | error e =>
      rw [sortEntries] at hlines
      rw [hlines] at h
      cases h
    | ok out =>
      rw [sortEntries] at hlines
      rw [hlines] at h
      cases h
      exact ⟨out, rfl, rfl⟩

/-- A list is refused for a duplicate key, an invalid key, or a value that cannot be represented, and for nothing else.
-/
theorem serializeDotenv_isOk_iff {entries : List DotenvEntry} :
    (∃ bytes, serializeDotenv entries = .ok bytes) ↔ (entries.map (·.key)).Nodup ∧ ∀ e ∈ entries, e.Accepted := by
  have hperm := sortEntries_perm entries
  rw [← (hperm.map (·.key)).nodup_iff, ← duplicateKeys_eq_false (sortEntries_sorted entries)]
  have haccepted : (∀ e ∈ entries, e.Accepted) ↔ ∀ e ∈ sortEntries entries, e.Accepted :=
    forall_congr' fun e => by rw [hperm.mem_iff]
  rw [haccepted, ← dotenvLines_isOk_iff]
  constructor
  · rintro ⟨bytes, h⟩
    obtain ⟨out, hlines, _⟩ := serializeDotenv_eq_ok h
    refine ⟨Bool.eq_false_iff.mpr fun hdup => ?_, out, hlines⟩
    rw [serializeDotenv, ← sortEntries, if_pos hdup] at h
    cases h
  · rintro ⟨hdup, out, hlines⟩
    refine ⟨utf8 out, ?_⟩
    rw [serializeDotenv, ← sortEntries, if_neg (by simp [hdup]), hlines]
    rfl

/-! ## What is read back -/

namespace DotenvReader

variable {es : List DotenvEntry} {k v : List Char}

theorem read_key {cs : List Char} (h : ∀ c ∈ cs, c ≠ '=' ∧ c ≠ '\n') :
    cs.foldlM read ⟨es, .key k⟩ = some ⟨es, .key (k ++ cs)⟩ := by
  induction cs generalizing k with
  | nil => simp
  | cons c cs ih =>
    rw [List.forall_mem_cons] at h
    rw [List.foldlM_cons, read]
    simp only [h.1.1, h.1.2, if_false, Option.bind_eq_bind, Option.bind_some]
    rw [ih h.2]
    simp

theorem read_bare {cs : List Char} (h : ∀ c ∈ cs, c ≠ '\n') :
    cs.foldlM read ⟨es, .bare k v⟩ = some ⟨es, .bare k (v ++ cs)⟩ := by
  induction cs generalizing v with
  | nil => simp
  | cons c cs ih =>
    rw [List.forall_mem_cons] at h
    rw [List.foldlM_cons, read]
    simp only [h.1, if_false, Option.bind_eq_bind, Option.bind_some]
    rw [ih h.2]
    simp

/-- How a character is written in quotes. -/
def quote (c : Char) : List Char :=
  if c = '\\' then ['\\', '\\'] else if c = '"' then ['\\', '"'] else if c = '$' then ['\\', '$'] else [c]

theorem read_quote (c : Char) : (quote c).foldlM read ⟨es, .quoted k v⟩ = some ⟨es, .quoted k (v ++ [c])⟩ := by
  rw [quote]
  by_cases hbackslash : c = '\\'
  · subst hbackslash
    rfl
  · rw [if_neg hbackslash]
    by_cases hquote : c = '"'
    · subst hquote
      rfl
    · rw [if_neg hquote]
      by_cases hdollar : c = '$'
      · subst hdollar
        rfl
      · rw [if_neg hdollar]
        simp [read, hbackslash, hquote, hdollar]

theorem read_quoted (cs : List Char) :
    (cs.flatMap quote).foldlM read ⟨es, .quoted k v⟩ = some ⟨es, .quoted k (v ++ cs)⟩ := by
  induction cs generalizing v with
  | nil => simp
  | cons c cs ih =>
    rw [List.flatMap_cons, List.foldlM_append, read_quote]
    simp only [Option.bind_eq_bind, Option.bind_some]
    rw [ih]
    simp

/-- The two ways in which a value is written. -/
theorem escapeValue_cases (value : String) :
    ((∀ c ∈ value.toList, c ≠ '\n' ∧ c ≠ '"') ∧ value.toList ≠ [] ∧ escapeValue value = value) ∨
      (escapeValue value).toList = '"' :: value.toList.flatMap quote ++ ['"'] := by
  rw [escapeValue]
  split
  · refine Or.inr ?_
    simp only [String.toList_append, String.toList_ofList]
    rfl
  · rename_i hplain
    simp only [Bool.or_eq_true, not_or, Bool.not_eq_true] at hplain
    refine Or.inl ⟨fun c hc => ?_, fun hnil => ?_, rfl⟩
    · have hc := List.any_eq_false.mp hplain.2 c hc
      constructor
      · rintro rfl
        exact hc (by decide)
      · rintro rfl
        exact hc (by decide)
    · simp [String.toList_eq_nil_iff.mp hnil] at hplain

/-- A value is read to the end of its line. -/
theorem read_value (value : String) :
    ((escapeValue value).toList ++ ['\n']).foldlM read ⟨es, .start k⟩ =
      some ⟨es ++ [⟨String.ofList k, value⟩], .key []⟩ := by
  rw [List.foldlM_append]
  rcases escapeValue_cases value with ⟨hplain, hne, hbare⟩ | hquoted
  · rw [hbare]
    cases hvalue : value.toList with
    | nil => exact absurd hvalue hne
    | cons c cs =>
      rw [hvalue, List.forall_mem_cons] at hplain
      rw [List.foldlM_cons, read]
      simp only [hplain.1.1, hplain.1.2, if_false, Option.bind_eq_bind, Option.bind_some]
      rw [read_bare fun c hc => (hplain.2 c hc).1]
      simp [read, emit, ← hvalue]
  · rw [hquoted, List.cons_append, List.foldlM_cons]
    simp [read, List.foldlM_append, read_quoted, emit]

/-- A line is read. -/
theorem read_line {e : DotenvEntry} (hkey : ∀ c ∈ e.key.toList, c ≠ '=' ∧ c ≠ '\n') :
    (e.key ++ "=" ++ escapeValue e.value ++ "\n").toList.foldlM read ⟨es, .key []⟩ = some ⟨es ++ [e], .key []⟩ := by
  simp only [String.toList_append, List.append_assoc]
  rw [List.foldlM_append, read_key hkey]
  have hvalue := @read_value es e.key.toList e.value
  simpa [read] using hvalue

end DotenvReader

/-- A key has neither an equals sign nor a newline. -/
theorem key_chars {key : String} (h : validKey key = true) : ∀ c ∈ key.toList, c ≠ '=' ∧ c ≠ '\n' := by
  rw [validKey] at h
  split at h
  · cases h
  · rename_i first rest hkey
    split at h
    · cases h
    · rw [Bool.and_eq_true] at h
      rw [hkey, List.forall_mem_cons]
      refine ⟨?_, fun c hc => ?_⟩
      · constructor <;> rintro rfl <;> exact absurd h.1 (by decide)
      · have hc := List.all_eq_true.mp h.2 c hc
        constructor <;> rintro rfl <;> exact absurd hc (by decide)

theorem read_dotenvLines {entries : List DotenvEntry} {out : String} (h : dotenvLines entries = .ok out)
    (es : List DotenvEntry) : out.toList.foldlM DotenvReader.read ⟨es, .key []⟩ = some ⟨es ++ entries, .key []⟩ := by
  induction entries generalizing out es with
  | nil =>
    cases h
    simp
  | cons e rest ih =>
    have haccepted := dotenvLines_isOk_iff.mp ⟨out, h⟩ e List.mem_cons_self
    rw [dotenvLines, if_neg (by simp [haccepted.1]), validateValue_eq_ok.mpr haccepted.2] at h
    cases hrest : dotenvLines rest with
    | error err =>
      rw [hrest] at h
      cases h
    | ok tail =>
      rw [hrest] at h
      cases h
      rw [String.toList_append, List.foldlM_append, DotenvReader.read_line (key_chars haccepted.1)]
      simp only [Option.bind_eq_bind, Option.bind_some]
      rw [ih hrest]
      simp

theorem fromUtf8_utf8 (s : String) : fromUtf8 (utf8 s) = some s := dif_pos s.isValidUTF8

/-- What was serialized is read back, sorted by key. -/
theorem readDotenv_serializeDotenv {entries : List DotenvEntry} {bytes : Bytes}
    (h : serializeDotenv entries = .ok bytes) : readDotenv bytes = some (sortEntries entries) := by
  obtain ⟨out, hlines, rfl⟩ := serializeDotenv_eq_ok h
  rw [readDotenv, fromUtf8_utf8]
  simp only [Option.bind_eq_bind, Option.bind_some]
  rw [read_dotenvLines hlines]
  simp [DotenvReader.finish]

/-- A file gives back the entries that were serialized, sorted by key; a list is refused for a duplicate key, an invalid
key or a value with a control character other than newline, carriage return and tab; and a file says which entries were
serialized, up to their order. -/
theorem dotenv_round_trip :
    (∀ entries bytes, serializeDotenv entries = .ok bytes →
      readDotenv bytes = some (entries.mergeSort fun a b => a.key ≤ b.key)) ∧
    (∀ entries, (∃ bytes, serializeDotenv entries = .ok bytes) ↔ (entries.map (·.key)).Nodup ∧
      ∀ e ∈ entries, validKey e.key = true ∧ ∀ c ∈ e.value.toList, isControl c = true → c = '\n' ∨ c = '\r' ∨
      c = '\t') ∧
    (∀ entries entries' bytes, serializeDotenv entries = .ok bytes → serializeDotenv entries' = .ok bytes →
      entries.Perm entries') := by
  refine ⟨fun entries bytes h => readDotenv_serializeDotenv h, fun entries => serializeDotenv_isOk_iff,
    fun entries entries' bytes h h' => ?_⟩
  have hsorted : sortEntries entries = sortEntries entries' :=
    Option.some.inj ((readDotenv_serializeDotenv h).symm.trans (readDotenv_serializeDotenv h'))
  exact (sortEntries_perm entries).symm.trans (hsorted ▸ sortEntries_perm entries')

end SecretsVault
