import SecretsVault.AuditTamper

/-!
# Reading a malformed audit log

`unhex` tests the length of a field in bytes and then slices it at every second byte, which panics where a slice would
cut a character. `SliceSafe` says that no field the log's readers come to is cut; `readsNormally_iff` is the equivalence
with every reader returning.

- `CutsCharacter s`: the field has the length of a digest, and a slice of it cuts a character.
- `Numbered ls`: the entries are numbered from 1 on.
- `foldlM_eq_panic`, `checkpointLines_eq_panic`, `resyncLines_eq_panic`: the line at which a reader panicked.
-/

namespace SecretsVault

open Lib

/-! ## Fields -/

/-- A slice of two bytes, taken behind pairs of hex digits, ends in the middle of a character or past the end. -/
inductive CutAt : List Char → Prop
  | wide {a : Char} {rest : List Char} (ha : a.utf8Size ≠ 1) (ha' : a.utf8Size ≠ 2) : CutAt (a :: rest)
  | second {a b : Char} {rest : List Char} (ha : a.utf8Size = 1) (hb : b.utf8Size ≠ 1) : CutAt (a :: b :: rest)
  | short {a : Char} (ha : a.utf8Size = 1) : CutAt [a]
  | next {a b : Char} {rest : List Char} (ha : a.utf8Size = 1) (hb : b.utf8Size = 1)
      (hhex : (fromStrRadix16 a b).isSome) (h : CutAt rest) : CutAt (a :: b :: rest)

/-- The field has the length of a digest in hex, but a slice of it cuts a character. -/
def CutsCharacter (s : String) : Prop := s.utf8ByteSize = 2 * 32 ∧ CutAt s.toList

theorem CutAt.unhexChars {cs : List Char} (h : CutAt cs) : unhexChars cs = .panic := by
  induction h with
  | @wide a rest ha ha' => cases rest <;> simp [SecretsVault.unhexChars, ha, ha']
  | second ha hb => simp [SecretsVault.unhexChars, ha, hb]
  | short ha => simp [SecretsVault.unhexChars, ha]
  | next ha hb hhex h ih =>
    obtain ⟨x, hx⟩ := Option.isSome_iff_exists.mp hhex
    simp [SecretsVault.unhexChars, ha, hb, hx, ih]

theorem unhexChars_eq_panic {cs : List Char} (h : unhexChars cs = .panic) : CutAt cs := by
  fun_induction unhexChars cs with
  | case1 => cases h
  | case2 a ha => exact .short ha
  | case3 a ha b rest hb ih =>
    rcases Outcome.bind_eq_panic h with hx | ⟨x, hx, h⟩
    · exact absurd hx (Outcome.ofOption_ne_panic _ _)
    · rcases Outcome.bind_eq_panic h with hxs | ⟨xs, -, h⟩
      · exact .next ha hb (by rw [Outcome.ofOption_eq_ok hx]; rfl) (ih hxs)
      · cases h
  | case4 a ha b rest hb => exact .second ha hb
  | case5 => cases h
  | case6 a rest ha ha' => exact .wide ha ha'

/-- `unhex` panics on exactly the fields of the right length that are cut. -/
theorem unhex_eq_panic {s : String} : unhex s = .panic ↔ CutsCharacter s := by
  unfold unhex
  constructor
  · intro h
    split at h; · cases h
    rename_i hlen
    rcases Outcome.bind_eq_panic h with h | ⟨b, -, h⟩
    · exact ⟨not_not.mp hlen, unhexChars_eq_panic h⟩
    · exact absurd h (Outcome.ofOption_ne_panic _ _)
  · rintro ⟨hlen, hcut⟩
    rw [if_neg (not_not.mpr hlen), hcut.unhexChars]
    rfl

section

variable [Crypto] [AuditJson]

/-! ## Readers -/

/-- The entries are numbered from `seq + 1` on. -/
def Numbered (seq : Nat) : List AuditLine → Prop
  | [] => True
  | l :: ls => l.event.seq = seq + 1 ∧ Numbered (seq + 1) ls

omit [Crypto] [AuditJson] in
theorem numbered_concat {seq : Nat} {ls : List AuditLine} {l : AuditLine} :
    Numbered seq (ls ++ [l]) ↔ Numbered seq ls ∧ l.event.seq = seq + ls.length + 1 := by
  induction ls generalizing seq with
  | nil => simp [Numbered]
  | cons a ls ih =>
    rw [List.cons_append, Numbered, Numbered, ih, List.length_cons, and_assoc]
    have hn : seq + 1 + ls.length + 1 = seq + (ls.length + 1) + 1 := by omega
    rw [hn]

theorem Linked.numbered {key : Option SecretKey} {prev : Digest} {seq : Nat} {ls : List AuditLine}
    (h : Linked key prev seq ls) : Numbered seq ls := by
  induction ls generalizing prev seq with
  | nil => trivial
  | cons l ls ih => exact ⟨h.1, ih h.2.2.2.2⟩

/-- Every reader of the log returns, with its answer or with an error. -/
structure ReadsNormally (content : Bytes) : Prop where
  verify (key : Option SecretKey) : AuditLog.verify key (some content) ≠ .panic
  checkCheckpoint (s : Nat) (hash : String) : checkCheckpoint (some content) s hash ≠ .panic
  resync (log : AuditLog) : log.resync (some content) ≠ .panic
  loadOrInit (h : Host) (hf : h.auditFile = some content) : (AuditLog.loadOrInit.run h).1 ≠ .panic

/-- An entry of a text, with those before it. -/
def EntryAt (content : Bytes) (before : List AuditLine) (l : AuditLine) : Prop :=
  ∃ bs line after, auditLines content = bs ++ line :: after ∧ bs.mapM parseLine = .ok before ∧
    AuditJson.lineFromStr line = some l

/-- No field that a reader comes to is cut. A scan for the head and a checkpoint read the hash of a numbered entry; a
walk reads what an entry names before it, when the entries before are linked, and its MAC, when it is linked itself. -/
structure SliceSafe (content : Bytes) : Prop where
  hash {before : List AuditLine} {l : AuditLine} (h : EntryAt content before l) (hn : Numbered 0 (before ++ [l])) :
    ¬CutsCharacter l.hash
  prevHash {before : List AuditLine} {l : AuditLine} (h : EntryAt content before l)
    (hl : Linked none (FixedBytes.zero 32) 0 before) (hseq : l.event.seq = before.length + 1) :
    ¬CutsCharacter l.event.prevHash
  mac {before : List AuditLine} {l : AuditLine} (h : EntryAt content before l) (key : SecretKey)
    (hl : Linked (some key) (FixedBytes.zero 32) 0 before) (hself : Linked none (FixedBytes.zero 32) 0 (before ++ [l]))
    (m : String) (hm : l.mac = some m) : ¬CutsCharacter m

omit [Crypto] [AuditJson] in
/-- A loop panics at one of its lines. -/
theorem foldlM_eq_panic {β γ : Type} {f : β → γ → Outcome VaultError β} {bs : List γ} {w : β}
    (h : bs.foldlM f w = .panic) :
    ∃ before line after w', bs = before ++ line :: after ∧ before.foldlM f w = .ok w' ∧ f w' line = .panic := by
  induction bs generalizing w with
  | nil => cases h
  | cons b bs ih =>
    rw [List.foldlM_cons] at h
    rcases Outcome.bind_eq_panic h with h | ⟨w1, h1, h⟩
    · exact ⟨[], b, bs, w, rfl, rfl, h⟩
    · obtain ⟨before, line, after, w', rfl, hb, hp⟩ := ih h
      exact ⟨b :: before, line, after, w', rfl, by rw [List.foldlM_cons, h1]; exact hb, hp⟩

omit [Crypto] [AuditJson] in
theorem foldlM_panic {β γ : Type} {f : β → γ → Outcome VaultError β} {before after : List γ} {line : γ} {w w' : β}
    (hb : before.foldlM f w = .ok w') (h : f w' line = .panic) : (before ++ line :: after).foldlM f w = .panic := by
  rw [List.foldlM_append, hb, Outcome.ok_bind, List.foldlM_cons, h]
  rfl

/-- The lines a walk got over are entries. -/
theorem mapM_parseLine_of_walk {key : Option SecretKey} {bs : List Bytes} {w w' : Walk}
    (h : bs.foldlM (walkLine key) w = .ok w') : ∃ ls, bs.mapM parseLine = .ok ls := by
  induction bs generalizing w with
  | nil => exact ⟨[], rfl⟩
  | cons b bs ih =>
    rw [List.foldlM_cons] at h
    obtain ⟨w1, h1, h⟩ := Outcome.bind_eq_ok h
    obtain ⟨l, hl, -⟩ := walkLine_eq_ok h1
    obtain ⟨ls, hls⟩ := ih h
    exact ⟨l :: ls, by rw [List.mapM_cons, parseLine, hl, hls]; rfl⟩

omit [Crypto] in
theorem length_mapM_parseLine {bs : List Bytes} {ls : List AuditLine} (h : bs.mapM parseLine = .ok ls) :
    ls.length = bs.length := by
  induction bs generalizing ls with
  | nil => cases h; rfl
  | cons b bs ih =>
    rw [List.mapM_cons] at h
    obtain ⟨l, -, h⟩ := Except.bind_eq_ok h
    obtain ⟨ls', hls, h⟩ := Except.bind_eq_ok h
    cases h
    rw [List.length_cons, List.length_cons, ih hls]

/-- Entries linked under a key are linked without it. -/
theorem Linked.forget {key : Option SecretKey} {prev : Digest} {seq : Nat} {ls : List AuditLine}
    (h : Linked key prev seq ls) : Linked none prev seq ls := by
  induction ls generalizing prev seq with
  | nil => trivial
  | cons l ls ih => exact ⟨h.1, h.2.1, h.2.2.1, fun _ _ _ hk => (nomatch hk), ih h.2.2.2.2⟩

/-- One more entry without a key. -/
theorem Linked.concat {prev : Digest} {seq : Nat} {ls : List AuditLine} {l : AuditLine} (h : Linked none prev seq ls)
    (hseq : l.event.seq = seq + ls.length + 1) (hprev : unhex l.event.prevHash = .ok (headOf prev ls))
    (hhash : unhex l.hash = .ok (entryHash (headOf prev ls) l.event)) : Linked none prev seq (ls ++ [l]) := by
  induction ls generalizing prev seq with
  | nil => exact ⟨hseq, hprev, hhash, fun _ _ _ hk => (nomatch hk), trivial⟩
  | cons a ls ih =>
    refine ⟨h.1, h.2.1, h.2.2.1, h.2.2.2.1, ih h.2.2.2.2 ?_ hprev hhash⟩
    rw [hseq, List.length_cons]
    omega

theorem checkMac_eq_panic {key : Option SecretKey} {l : AuditLine} {r : VerifyReport} {d : Digest}
    (hprev : unhex l.event.prevHash = .ok d) (hp : checkMac key l r = .panic) :
    ∃ m k, l.mac = some m ∧ key = some k ∧ CutsCharacter m := by
  unfold checkMac at hp
  split at hp
  · rename_i m k hm
    rw [hprev, Outcome.ok_bind] at hp
    rcases Outcome.bind_eq_panic hp with hcut | ⟨mac, -, hp⟩
    · exact ⟨m, k, hm, rfl, unhex_eq_panic.mp hcut⟩
    · split at hp <;> cases hp
  · cases hp

/-- The field at which a line made a walk panic. -/
theorem walkLine_eq_panic {key : Option SecretKey} {w : Walk} {line : Bytes} (h : walkLine key w line = .panic) :
    ∃ l, AuditJson.lineFromStr line = some l ∧ l.event.seq = w.seq + 1 ∧
      (CutsCharacter l.event.prevHash ∨ unhex l.event.prevHash = .ok w.prev ∧
        (CutsCharacter l.hash ∨ unhex l.hash = .ok (entryHash w.prev l.event) ∧
          ∃ m k, l.mac = some m ∧ key = some k ∧ CutsCharacter m)) := by
  rcases Outcome.bind_eq_panic h with h | ⟨l, hl, h⟩
  · exact absurd h (Outcome.ofOption_ne_panic _ _)
  refine ⟨l, Outcome.ofOption_eq_ok hl, ?_⟩
  dsimp only at h
  split at h; · cases h
  rename_i hseq
  refine ⟨not_not.mp hseq, ?_⟩
  rcases Outcome.bind_eq_panic h with h | ⟨prev, hprev, h⟩
  · exact Or.inl (unhex_eq_panic.mp h)
  split at h; · cases h
  rename_i hlink
  rw [not_not.mp hlink] at hprev
  refine Or.inr ⟨hprev, ?_⟩
  rcases Outcome.bind_eq_panic h with h | ⟨hash, hhash, h⟩
  · exact Or.inl (unhex_eq_panic.mp h)
  split at h; · cases h
  rename_i heq
  rw [not_not.mp heq] at hhash
  refine Or.inr ⟨hhash, ?_⟩
  rcases Outcome.bind_eq_panic h with h | ⟨r, -, h⟩
  · exact checkMac_eq_panic hprev h
  · cases h

/-- A walk over entries that are not cut returns. -/
theorem SliceSafe.walkText {content : Bytes} (h : SliceSafe content) (key : Option SecretKey) :
    walkText key content ≠ .panic := by
  intro hp
  obtain ⟨before, line, after, w, hsplit, hw, hline⟩ := foldlM_eq_panic hp
  obtain ⟨l, hl, hseq, hfield⟩ := walkLine_eq_panic hline
  obtain ⟨ls, hls⟩ := mapM_parseLine_of_walk hw
  obtain ⟨hlinked, hprev⟩ := (foldlM_walkLine_iff hls (w := .start)).mp ⟨w, hw, rfl⟩
  change Linked key (FixedBytes.zero 32) 0 ls at hlinked
  have hat : EntryAt content ls l := ⟨before, line, after, hsplit, hls, hl⟩
  have hlen : w.seq = ls.length := by
    have h1 := (foldlM_walkLine_seq hw).1
    have h2 := length_mapM_parseLine hls
    simp only [Walk.start] at h1
    omega
  rw [hlen] at hseq
  have hnum : Numbered 0 (ls ++ [l]) := numbered_concat.mpr ⟨hlinked.numbered, by rw [hseq, Nat.zero_add]⟩
  rcases hfield with hcut | ⟨hlink, hcut | ⟨hhash, m, k, hm, rfl, hcut⟩⟩
  · exact h.prevHash hat hlinked.forget hseq hcut
  · exact h.hash hat hnum hcut
  · refine h.mac hat k hlinked (hlinked.forget.concat (by rw [hseq, Nat.zero_add]) ?_ ?_) m hm hcut
    · rw [hlink, hprev]; rfl
    · rw [hhash, hprev]; rfl

/-- The entry at which a checkpoint check panicked. -/
theorem checkpointLines_eq_panic {headSeq seq : Nat} {headHash : String} {prev : Digest} {bs : List Bytes}
    (h : checkpointLines headSeq headHash prev seq bs = .panic) : ∃ bs' line after ls l, bs = bs' ++ line :: after ∧
      bs'.mapM parseLine = .ok ls ∧ AuditJson.lineFromStr line = some l ∧ Numbered seq (ls ++ [l]) ∧
        CutsCharacter l.hash := by
  induction bs generalizing prev seq with
  | nil => cases h
  | cons b bs ih =>
    rcases Outcome.bind_eq_panic h with h | ⟨l, hl, h⟩
    · exact absurd h (Outcome.ofOption_ne_panic _ _)
    have hl := Outcome.ofOption_eq_ok hl
    dsimp only at h
    split at h; · cases h
    rename_i hseq
    split at h
    · rcases Outcome.bind_eq_panic h with hcut | ⟨hash, -, h⟩
      · exact ⟨[], b, bs, [], l, rfl, rfl, hl, ⟨not_not.mp hseq, trivial⟩, unhex_eq_panic.mp hcut⟩
      · split at h <;> cases h
    · obtain ⟨bs', line, after, ls, l', rfl, hls, hl', hn, hcut⟩ := ih h
      exact ⟨b :: bs', line, after, l :: ls, l', rfl, by rw [List.mapM_cons, parseLine, hl, hls]; rfl, hl',
        ⟨not_not.mp hseq, hn⟩, hcut⟩

/-- A checkpoint at an entry whose hash is cut. -/
theorem checkpointLines_panic {bs after : List Bytes} {line : Bytes} {ls : List AuditLine} {l : AuditLine}
    (hls : bs.mapM parseLine = .ok ls) (hl : AuditJson.lineFromStr line = some l) {seq : Nat}
    (hn : Numbered seq (ls ++ [l])) (hcut : CutsCharacter l.hash) (headHash : String) (prev : Digest) :
    checkpointLines (seq + ls.length + 1) headHash prev seq (bs ++ line :: after) = .panic := by
  induction bs generalizing ls seq prev with
  | nil =>
    cases hls
    simp [checkpointLines, hl, hn.1, unhex_eq_panic.mpr hcut]
  | cons b bs ih =>
    rw [List.mapM_cons] at hls
    obtain ⟨a, ha, hls⟩ := Except.bind_eq_ok hls
    obtain ⟨ls', hls', hls⟩ := Except.bind_eq_ok hls
    cases hls
    have := ih hls' hn.2 (entryHash prev a.event)
    simp only [List.cons_append, checkpointLines, parseLine_eq_ok.mp ha, Outcome.ofOption_some, Outcome.ok_bind, hn.1,
      ne_eq, not_true_eq_false, if_false, List.length_cons]
    rw [if_neg (by omega), show seq + (ls'.length + 1) + 1 = seq + 1 + ls'.length + 1 by omega]
    exact this

omit [Crypto] in
/-- The entry at which a scan for the head panicked. -/
theorem resyncLines_eq_panic {prev : Digest} {seq : Nat} {bs : List Bytes}
    (h : AuditLog.resyncLines prev seq bs = .panic) : ∃ bs' line after ls l, bs = bs' ++ line :: after ∧
      bs'.mapM parseLine = .ok ls ∧ AuditJson.lineFromStr line = some l ∧ Numbered seq (ls ++ [l]) ∧
        CutsCharacter l.hash := by
  induction bs generalizing prev seq with
  | nil => cases h
  | cons b bs ih =>
    rcases Outcome.bind_eq_panic h with h | ⟨l, hl, h⟩
    · exact absurd h (Outcome.ofOption_ne_panic _ _)
    have hl := Outcome.ofOption_eq_ok hl
    split at h; · cases h
    rename_i hseq
    rcases Outcome.bind_eq_panic h with hcut | ⟨hash, -, h⟩
    · exact ⟨[], b, bs, [], l, rfl, rfl, hl, ⟨not_not.mp hseq, trivial⟩, unhex_eq_panic.mp hcut⟩
    · obtain ⟨bs', line, after, ls, l', rfl, hls, hl', hn, hcut⟩ := ih h
      exact ⟨b :: bs', line, after, l :: ls, l', rfl, by rw [List.mapM_cons, parseLine, hl, hls]; rfl, hl',
        ⟨not_not.mp hseq, hn⟩, hcut⟩

/-- A walk over a file panics only in its lines. -/
theorem walk_eq_panic {key : Option SecretKey} {content : Bytes} (h : walk key (some content) = .panic) :
    utf8Valid content = true ∧ walkText key content = .panic := by
  rcases Outcome.bind_eq_panic h with h | ⟨c, hc, h⟩
  · cases hr : readToString (some content) <;> rw [hr] at h <;> cases h
  · obtain ⟨hf, hu⟩ := readToString_eq_ok (Outcome.ofExcept_eq_ok hc)
    cases hf
    rcases Outcome.bind_eq_panic h with h | ⟨w, -, h⟩
    · exact ⟨hu, h⟩
    · cases h

/-- A walk that comes to a line and panics on it. -/
theorem walk_panic {key : Option SecretKey} {content : Bytes} (hu : utf8Valid content = true) {bs after : List Bytes}
    {line : Bytes} (hsplit : auditLines content = bs ++ line :: after) {w : Walk}
    (hw : bs.foldlM (walkLine key) .start = .ok w) (h : walkLine key w line = .panic) :
    AuditLog.verify key (some content) = .panic := by
  simp only [AuditLog.verify, walk, readToString_some hu, Outcome.ofExcept_ok, Outcome.ok_bind, walkText, hsplit,
    foldlM_panic hw h, Outcome.panic_bind]

/-- The walk up to an entry behind linked ones. -/
theorem EntryAt.walked {content : Bytes} {before : List AuditLine} {l : AuditLine} (h : EntryAt content before l)
    {key : Option SecretKey} (hl : Linked key (FixedBytes.zero 32) 0 before) :
    ∃ bs line after w, auditLines content = bs ++ line :: after ∧ AuditJson.lineFromStr line = some l ∧
      bs.foldlM (walkLine key) .start = .ok w ∧ w.seq = before.length ∧
      w.prev = headOf (FixedBytes.zero 32) before := by
  obtain ⟨bs, line, after, hsplit, hbs, hline⟩ := h
  obtain ⟨w, hw, hprev⟩ := (foldlM_walkLine_iff hbs (w := .start)).mpr ⟨hl, rfl⟩
  have hlen := (foldlM_walkLine_seq hw).1
  rw [← length_mapM_parseLine hbs] at hlen
  exact ⟨bs, line, after, w, hsplit, hline, hw, by simpa [Walk.start] using hlen, hprev⟩

/-- Every reader of a log returns exactly if no field it comes to is cut. -/
theorem readsNormally_iff (content : Bytes) :
    ReadsNormally content ↔ (utf8Valid content = true → SliceSafe content) := by
  constructor
  · intro h hu
    refine ⟨?_, ?_, ?_⟩
    · rintro before l ⟨bs, line, after, hsplit, hbs, hline⟩ hn hcut
      apply h.checkCheckpoint (0 + before.length + 1) ""
      rw [checkCheckpoint, readToString_some hu, Outcome.ofExcept_ok, Outcome.ok_bind, hsplit]
      exact checkpointLines_panic hbs hline hn hcut "" (FixedBytes.zero 32)
    · intro before l hat hl hseq hcut
      obtain ⟨bs, line, after, w, hsplit, hline, hw, hws, hprev⟩ := hat.walked hl
      apply h.verify none
      exact walk_panic hu hsplit hw (by simp [walkLine, hline, hseq, hws, unhex_eq_panic.mpr hcut])
    · intro before l hat key hl hself m hm hcut
      obtain ⟨bs, line, after, w, hsplit, hline, hw, hws, hprev⟩ := hat.walked hl
      obtain ⟨hseq, hlink, hhash, -⟩ := hself.get
      rw [← hprev] at hlink hhash
      apply h.verify (some key)
      refine walk_panic hu hsplit hw ?_
      simp [walkLine, hline, hseq, hws, hlink, hhash, checkMac, hm, unhex_eq_panic.mpr hcut]
  · intro h
    refine ⟨fun key hp => ?_, fun s hash hp => ?_, fun log hp => ?_, fun host hf hp => ?_⟩
    · rcases Outcome.bind_eq_panic hp with hp | ⟨r, -, hp⟩
      · obtain ⟨hu, hp⟩ := walk_eq_panic hp
        exact (h hu).walkText key hp
      · cases hp
    · rcases Outcome.bind_eq_panic hp with hp | ⟨c, hc, hp⟩
      · cases hr : readToString (some content) <;> rw [hr] at hp <;> cases hp
      · obtain ⟨hf, hu⟩ := readToString_eq_ok (Outcome.ofExcept_eq_ok hc)
        cases hf
        obtain ⟨bs, line, after, ls, l, hsplit, hls, hl, hn, hcut⟩ := checkpointLines_eq_panic hp
        exact (h hu).hash ⟨bs, line, after, hsplit, hls, hl⟩ hn hcut
    · unfold AuditLog.resync at hp
      split at hp; · cases hp
      rename_i c hc
      obtain ⟨hf, hu⟩ := readToString_eq_ok hc
      cases hf
      split at hp
      · rename_i hscan
        obtain ⟨bs, line, after, ls, l, hsplit, hls, hl, hn, hcut⟩ := resyncLines_eq_panic hscan
        exact (h hu).hash ⟨bs, line, after, hsplit, hls, hl⟩ hn hcut
      · cases hp
      · cases hp
    · simp only [AuditLog.loadOrInit, Prog.run_bind, Prog.run_get, hf, Prog.run_lift] at hp
      cases hwalk : walk none (some content) with
      | ok r => rw [hwalk] at hp; cases hp
      | error e => rw [hwalk] at hp; cases hp
      | panic =>
        obtain ⟨hu, hp⟩ := walk_eq_panic hwalk
        exact (h hu).walkText none hp

/-- A first entry whose hash fields are cut stops every reader. -/
theorem first_entry_panics [LawfulAuditJson] {l : AuditLine} (hseq : l.event.seq = 1)
    (hprev : CutsCharacter l.event.prevHash) (hhash : CutsCharacter l.hash) :
    AuditLog.verify none (some (logText [l])) = .panic ∧ checkCheckpoint (some (logText [l])) 1 "" = .panic ∧
      (∀ log : AuditLog, log.resync (some (logText [l])) = .panic) ∧
        ∀ h : Host, h.auditFile = some (logText [l]) → (AuditLog.loadOrInit.run h).1 = .panic := by
  have hu := (readAll_eq_ok.mp (readAll_logText [l])).1
  have hlines : auditLines (logText [l]) = [AuditJson.lineToString l] := auditLines_logText _
  have hline := LawfulAuditJson.line_roundtrip l
  have hwalk : walk none (some (logText [l])) = .panic := by
    simp [walk, readToString_some hu, walkText, hlines, walkLine, hline, hseq, Walk.start, unhex_eq_panic.mpr hprev]
  refine ⟨?_, ?_, fun log => ?_, fun h hf => ?_⟩
  · rw [AuditLog.verify, hwalk]
    rfl
  · simp [checkCheckpoint, readToString_some hu, hlines, checkpointLines, hline, hseq, unhex_eq_panic.mpr hhash]
  · simp [AuditLog.resync, readToString_some hu, hlines, AuditLog.resyncLines, hline, hseq, unhex_eq_panic.mpr hhash]
  · simp only [AuditLog.loadOrInit, Prog.run_bind, Prog.run_get, hf, Prog.run_lift, hwalk]

end

/-! ## A field that is cut -/

namespace Reference

/-- 64 bytes, of which the first three are one character. -/
def cutField : String := String.ofList ('€' :: List.replicate 61 '0')

theorem utf8ByteSize_cutField : cutField.utf8ByteSize = 2 * 32 := by decide +kernel

theorem toList_cutField : cutField.toList = '€' :: List.replicate 61 '0' := String.toList_ofList

theorem cutField_cuts : CutsCharacter cutField := by
  have hcut : CutAt ('€' :: List.replicate 61 '0') := .wide (by decide) (by decide)
  rw [← toList_cutField] at hcut
  exact And.intro utf8ByteSize_cutField hcut

/-- A line whose hash fields are cut. -/
def cutLine : AuditLine :=
  ⟨Record.event { actor := "human", op := "vault.unlocked", decision := .allowed } "1970-01-01T00:00:00Z" 1 cutField,
    cutField, none⟩

end Reference

/-- A text of one line, valid and with its number, whose hash fields have the length of a digest: none of the readers of
the log returns. -/
theorem cut_field_panics : utf8Valid (logText [Reference.cutLine]) = true ∧
    readAll (some (logText [Reference.cutLine])) = .ok [Reference.cutLine] ∧
    AuditLog.verify none (some (logText [Reference.cutLine])) = .panic ∧
    checkCheckpoint (some (logText [Reference.cutLine])) 1 "" = .panic ∧
    (⟨0, FixedBytes.zero 32, .default⟩ : AuditLog).resync (some (logText [Reference.cutLine])) = .panic ∧
    (AuditLog.loadOrInit.run { Reference.healthy with auditFile := some (logText [Reference.cutLine]) }).1 =
      .panic := by
  obtain ⟨hverify, hcheck, hresync, hload⟩ := @first_entry_panics _ _ _ Reference.cutLine rfl Reference.cutField_cuts
    Reference.cutField_cuts
  exact ⟨(readAll_eq_ok.mp (readAll_logText _)).1, readAll_logText _, hverify, hcheck, hresync _, hload _ rfl⟩

end SecretsVault
