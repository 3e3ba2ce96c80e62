import Mathlib.Algebra.Group.Nat.Defs
import SecretsVault.Model

/-!
# The envelope of the vault file

File layout: `SVAULT` · u32 LE version · u32 LE header length · header JSON · 24 bytes of nonce · ciphertext of the
document. The header holds the key slots and the wrapped document key and is the associated data of the document.

- `Envelope.parse_toBytes`: what `validatePersistable` accepts can be read back.
- `Envelope.openDocument_reseal`: a resealed document opens under the same keys.
- `Envelope.unlockWith_reseal`: resealing changes nothing for whoever unlocks.
-/

namespace SecretsVault

open Lib

def MAGIC : Bytes := [0x53, 0x56, 0x41, 0x55, 0x4C, 0x54]
def VERSION : Nat := 1
def DEK_AAD : Bytes := utf8 "svault/v1/dek"
def MIN_M_KIB : Nat := 19456
def MIN_T : Nat := 2
def MAX_M_KIB : Nat := 262144
def MAX_T : Nat := 10
def MAX_P : Nat := 8
def MAX_SLOTS : Nat := 8
def MAX_HEADER_LEN : Nat := 1024 * 1024
def MAX_FILE_LEN : Nat := 16 * 1024 * 1024

/-- The bytes before the header. -/
def PREFIX : Nat := 14

/-- Key slot types; unknown ones are kept as they are. -/
inductive SlotType where
  | passphrase
  | backup
  | keychain
  | sync
  | other (name : String)
  deriving DecidableEq, Repr

/-- CLI defaults: 64 MiB, 3 passes, 4 lanes. -/
def KdfParams.argon2idDefaults : KdfParams := { algo := "argon2id", mKib := 65536, t := 3, p := 4 }

/-- Parameters within the accepted bounds. -/
def KdfParams.validate (k : KdfParams) : Except VaultError Unit :=
  if k.algo ≠ "argon2id" ∨ k.mKib < MIN_M_KIB ∨ MAX_M_KIB < k.mKib ∨ k.t < MIN_T ∨ MAX_T < k.t ∨ k.p < 1 ∨ MAX_P < k.p
  then .error .insecureParams
  else .ok ()

structure Slot where
  id : String
  kind : SlotType
  kdf : KdfParams
  salt : Bytes
  nonce : Bytes
  wrappedMek : Bytes
  deriving DecidableEq, Repr

structure WrappedKey where
  nonce : Bytes
  wrapped : Bytes
  deriving DecidableEq, Repr

structure Header where
  createdAt : OffsetDateTime
  slots : List Slot
  dek : WrappedKey
  deriving DecidableEq, Repr

/-- Key material held while unlocked. -/
structure Keys where
  mek : SecretKey
  dek : SecretKey
  deriving DecidableEq, Repr

/-- The sealed vault as it is kept in memory and on disk. -/
structure Envelope where
  header : Header
  docNonce : Nonce
  docCt : Bytes
  deriving DecidableEq, Repr

/-- The JSON of headers and documents. A document can fail to serialize (a folder that is no UTF-8, a year past 9999);
a header cannot, since its only fallible field was read or written before. -/
class VaultJson where
  headerToVec : Header → Bytes
  headerFromSlice : Bytes → Option Header
  docToVec : VaultDocument → Except String Bytes
  docFromSlice : Bytes → Except String VaultDocument

/-- A header of one passphrase slot whose fields have the lengths of a new one. -/
def Header.Fresh (h : Header) : Prop :=
  ∃ s, h.slots = [s] ∧ s.kind = .passphrase ∧ s.kdf = .argon2idDefaults ∧ s.id.utf8ByteSize = 16 ∧
    s.salt.length = SALT_LEN ∧ s.nonce.length = NONCE_LEN ∧ s.wrappedMek.length = KEY_LEN + TAG_LEN ∧
    h.dek.nonce.length = NONCE_LEN ∧ h.dek.wrapped.length = KEY_LEN + TAG_LEN

/-- The instants RFC 3339 can write: years 0 to 9999. -/
def Rfc3339Range (t : OffsetDateTime) : Prop := -62167219200000000000 ≤ t ∧ t < 253402300800000000000

instance (t : OffsetDateTime) : Decidable (Rfc3339Range t) := by unfold Rfc3339Range; infer_instance

/-- What the vault relies on: JSON reads back what it wrote, and what a new vault writes is small (the decimal digits
of a number are no more than the number and one). -/
class LawfulVaultJson [VaultJson] : Prop where
  header_roundtrip {h : Header} (hr : Rfc3339Range h.createdAt) :
    VaultJson.headerFromSlice (VaultJson.headerToVec h) = some h
  doc_roundtrip {d : VaultDocument} {b : Bytes} (h : VaultJson.docToVec d = .ok b) : VaultJson.docFromSlice b = .ok d
  doc_range {d : VaultDocument} {b : Bytes} (h : VaultJson.docToVec d = .ok b) : Rfc3339Range d.meta.createdAt
  header_fresh {h : Header} (hf : h.Fresh) (hr : Rfc3339Range h.createdAt) : (VaultJson.headerToVec h).length ≤ 4096
  doc_fresh {t : OffsetDateTime} {seq : Nat} {hash : String} {b : Bytes} (hlen : hash.utf8ByteSize = 64)
    (h : VaultJson.docToVec { VaultDocument.new t with auditHead := ⟨seq, hash⟩ } = .ok b) : b.length ≤ 4096 + seq

/-- The canonical form of a header. -/
def canonicalHeader [VaultJson] (h : Header) : Bytes := VaultJson.headerToVec h

/-- Little-endian bytes of a number, `n` of them. -/
def toLe : Nat → Nat → Bytes
  | 0, _ => []
  | n + 1, x => UInt8.ofNat (x % 256) :: toLe n (x / 256)

/-- The number of little-endian bytes. -/
def fromLe : Bytes → Nat
  | [] => 0
  | b :: bs => b.toNat + 256 * fromLe bs

@[simp] theorem length_toLe (n x : Nat) : (toLe n x).length = n := by
  induction n generalizing x with
  | zero => rfl
  | succ n ih => simp [toLe, ih]

theorem fromLe_toLe (n x : Nat) (h : x < 256 ^ n) : fromLe (toLe n x) = x := by
  induction n generalizing x with
  | zero => simp at h; simp [toLe, fromLe, h]
  | succ n ih =>
    rw [toLe, fromLe, ih _ (by rw [Nat.pow_succ] at h; omega)]
    simp only [UInt8.toNat_ofNat']
    omega

namespace Envelope

variable [VaultJson]

/-- Structural checks on a slot of a known type. -/
def slotOk (s : Slot) : Bool :=
  match s.kind with
  | .other _ => true
  | _ => s.salt.length == SALT_LEN && s.nonce.length == NONCE_LEN && s.wrappedMek.length == KEY_LEN + TAG_LEN

/-- Structural checks on a header. -/
def checkHeader (h : Header) : Except VaultError Unit :=
  if h.slots.isEmpty then .error (.corrupt "no key slots")
  else if MAX_SLOTS < h.slots.length then .error (.corrupt "too many key slots")
  else if !h.slots.all slotOk then .error (.corrupt "invalid slot field lengths")
  else if h.dek.nonce.length ≠ NONCE_LEN ∨ h.dek.wrapped.length ≠ KEY_LEN + TAG_LEN then
    .error (.corrupt "invalid dek wrap field lengths")
  else .ok ()

/-- Read an envelope from the bytes of a file. -/
def parse (bytes : Bytes) : Except VaultError Envelope :=
  if bytes.length < PREFIX + NONCE_LEN + TAG_LEN then .error (.corrupt "truncated file")
  else if MAX_FILE_LEN < bytes.length then .error (.corrupt "file exceeds maximum size")
  else if bytes.take MAGIC.length ≠ MAGIC then .error (.corrupt "bad magic")
  else if fromLe ((bytes.drop MAGIC.length).take 4) ≠ VERSION then .error (.corrupt "unsupported envelope version")
  else
    let headerLen := fromLe ((bytes.drop (MAGIC.length + 4)).take 4)
    if MAX_HEADER_LEN < headerLen then .error (.corrupt "header exceeds maximum size")
    else
      let rest := bytes.drop PREFIX
      if hlen : rest.length < headerLen + NONCE_LEN + TAG_LEN then .error (.corrupt "header length out of bounds")
      else
        match VaultJson.headerFromSlice (rest.take headerLen) with
        | none => .error (.corrupt "invalid header")
        | some header =>
          match checkHeader header with
          | .error e => .error e
          | .ok () =>
            if (rest.drop (headerLen + NONCE_LEN)).length < TAG_LEN then
              .error (.corrupt "document ciphertext truncated")
            else .ok
            { header
              docNonce := ⟨(rest.drop headerLen).take NONCE_LEN, by simp [NONCE_LEN, TAG_LEN] at *; omega⟩
              docCt := rest.drop (headerLen + NONCE_LEN) }

/-- The bytes of the file. -/
def toBytes (e : Envelope) : Bytes :=
  MAGIC ++ toLe 4 VERSION ++ toLe 4 ((canonicalHeader e.header).length % 2 ^ 32) ++ canonicalHeader e.header ++
    e.docNonce.1 ++ e.docCt

/-- Refuse what `parse` would refuse for its size. -/
def validatePersistable (e : Envelope) : Except VaultError Unit :=
  let headerLen := (canonicalHeader e.header).length
  if MAX_HEADER_LEN < headerLen then .error .vaultTooLarge
  else if MAX_FILE_LEN < MAGIC.length + 4 + 4 + headerLen + NONCE_LEN + e.docCt.length then .error .vaultTooLarge
  else .ok ()

end Envelope

/-- Passphrase slots to derive against: index, parameters and salt of each. -/
abbrev KekRecipe := List (Nat × KdfParams × Salt)

/-- Keys derived from one passphrase, each with the slot it belongs to. -/
abbrev DerivedKeks := List (Nat × SecretKey)

/-- The associated data of a slot's wrapped key. -/
def mekAad (id : String) : Bytes := utf8 ("svault/v1/mek:" ++ id)

/-- Read the recipe of slots from index `i` on. -/
def KekRecipe.ofSlots (i : Nat) : List Slot → Except VaultError KekRecipe
  | [] => .ok []
  | s :: rest =>
    if s.kind ≠ .passphrase then ofSlots (i + 1) rest
    else do
      s.kdf.validate
      match FixedBytes.ofBytes? SALT_LEN s.salt with
      | none => .error (.corrupt "invalid slot salt length")
      | some salt =>
        let entries ← ofSlots (i + 1) rest
        pure ((i, s.kdf, salt) :: entries)

/-- The recipe of an envelope; one without passphrase slots cannot be unlocked. -/
def KekRecipe.of (e : Envelope) : Except VaultError KekRecipe := do
  let entries ← ofSlots 0 e.header.slots
  if entries.isEmpty then .error .auth else pure entries

/-- One derivation for each slot of the recipe. -/
def KekRecipe.derive [Crypto] (r : KekRecipe) (passphrase : Bytes) : Except VaultError DerivedKeks :=
  r.mapM fun (i, kdf, salt) => do
    let kek ← Crypto.deriveKek passphrase kdf salt
    pure (i, kek)

namespace Envelope

variable [VaultJson]

def kekRecipe (e : Envelope) : Except VaultError KekRecipe := KekRecipe.of e

section

variable [Crypto]

/-- Unwrap the document key. -/
def unwrapDek (e : Envelope) (mek : SecretKey) : Except VaultError SecretKey :=
  match FixedBytes.ofBytes? NONCE_LEN e.header.dek.nonce with
  | none => .error (.corrupt "invalid dek nonce length")
  | some nonce =>
    match Crypto.openWith mek nonce e.header.dek.wrapped DEK_AAD with
    | none => .error (.corrupt "dek wrap failed authentication")
    | some bytes =>
      match FixedBytes.ofBytes? KEY_LEN bytes with
      | none => .error (.corrupt "wrapped dek length invalid")
      | some dek => .ok dek

/-- Try the derived keys in order. A slot that does not open is passed over; all failing is `auth`. -/
def unlockWith (e : Envelope) : DerivedKeks → Except VaultError Keys
  | [] => .error .auth
  | (index, kek) :: rest =>
    match e.header.slots[index]? with
    | none => e.unlockWith rest
    | some slot =>
      if slot.kind ≠ .passphrase then e.unlockWith rest
      else match FixedBytes.ofBytes? NONCE_LEN slot.nonce with
        | none => .error (.corrupt "invalid slot nonce length")
        | some nonce =>
          match Crypto.openWith kek nonce slot.wrappedMek (mekAad slot.id) with
          | none => e.unlockWith rest
          | some bytes =>
            match FixedBytes.ofBytes? KEY_LEN bytes with
            | none => .error (.corrupt "wrapped mek length invalid")
            | some mek => do
              let dek ← e.unwrapDek mek
              pure { mek, dek }

/-- Unlock with a passphrase. -/
def unlock (e : Envelope) (passphrase : Bytes) : Except VaultError Keys := do
  let recipe ← KekRecipe.of e
  let derived ← recipe.derive passphrase
  e.unlockWith derived

/-- Decrypt the document, bound to the header. -/
def openDocument (e : Envelope) (keys : Keys) : Except VaultError Bytes :=
  match Crypto.openWith keys.dek e.docNonce e.docCt (canonicalHeader e.header) with
  | none => .error (.corrupt "document failed authentication")
  | some b => .ok b

/-- The envelope with another document sealed under a given nonce. -/
def reseal (e : Envelope) (document : Bytes) (keys : Keys) (nonce : Nonce) : Envelope :=
  { e with docNonce := nonce, docCt := Crypto.sealWith keys.dek nonce document (canonicalHeader e.header) }

/-- Seal a document under the same header with a fresh nonce. -/
def resealDocument (e : Envelope) (document : Bytes) (keys : Keys) : Prog VaultError Host Envelope := do
  let nonce ← Host.randomBytes NONCE_LEN
  pure (e.reseal document keys nonce)

/-- A random key; the process does not survive a failing random source. -/
def generateKey : Prog VaultError Host SecretKey := do
  match ← (Host.randomBytes KEY_LEN).attempt with
  | .ok k => pure k
  | .error _ => .lift .panic

/-- A new envelope with one passphrase slot. -/
def create (passphrase document : Bytes) (createdAt : OffsetDateTime) : Prog VaultError Host Envelope := do
  let mek ← generateKey
  let dek ← generateKey
  let salt ← Host.randomBytes SALT_LEN
  let nonce ← Host.randomBytes NONCE_LEN
  let id ← hexId
  let kdf := KdfParams.argon2idDefaults
  let kek ← .lift (.ofExcept (Crypto.deriveKek passphrase kdf salt))
  let wrappedMek := Crypto.sealWith kek nonce mek.1 (mekAad id)
  let slot : Slot := { id, kind := .passphrase, kdf, salt := salt.1, nonce := nonce.1, wrappedMek }
  let dekNonce ← Host.randomBytes NONCE_LEN
  let dekWrap : WrappedKey := { nonce := dekNonce.1, wrapped := Crypto.sealWith mek dekNonce dek.1 DEK_AAD }
  let header : Header := { createdAt, slots := [slot], dek := dekWrap }
  let docNonce ← Host.randomBytes NONCE_LEN
  pure { header, docNonce, docCt := Crypto.sealWith dek docNonce document (canonicalHeader header) }

end

/-! ## Reading back what was written -/

/-- What `parse` checks of an envelope beyond its size. -/
structure Wf (e : Envelope) : Prop where
  range : Rfc3339Range e.header.createdAt
  header : checkHeader e.header = .ok ()
  docCt_le : TAG_LEN ≤ e.docCt.length

theorem validatePersistable_eq_ok {e : Envelope} : e.validatePersistable = .ok () ↔
    (canonicalHeader e.header).length ≤ MAX_HEADER_LEN ∧ e.toBytes.length ≤ MAX_FILE_LEN := by
  have hlen : e.toBytes.length =
      MAGIC.length + 4 + 4 + (canonicalHeader e.header).length + NONCE_LEN + e.docCt.length := by
    simp only [toBytes, List.length_append, length_toLe, e.docNonce.2]
  rw [hlen, validatePersistable]
  split
  · simp; omega
  · split
    · simp; omega
    · simp; omega

/-- What `validatePersistable` accepts, `parse` reads back. -/
theorem parse_toBytes [LawfulVaultJson] {e : Envelope} (hw : e.Wf) (hv : e.validatePersistable = .ok ()) :
    parse e.toBytes = .ok e := by
  obtain ⟨hhl, htl⟩ := validatePersistable_eq_ok.mp hv
  have hM : MAGIC.length = 6 := by decide
  have hmod : (canonicalHeader e.header).length % 2 ^ 32 = (canonicalHeader e.header).length := by
    simp only [MAX_HEADER_LEN] at hhl; omega
  have hd6 : e.toBytes.drop MAGIC.length = toLe 4 VERSION ++ (toLe 4 (canonicalHeader e.header).length ++
      (canonicalHeader e.header ++ (e.docNonce.1 ++ e.docCt))) := by
    rw [toBytes, hmod]
    simp
  have hd10 : e.toBytes.drop (MAGIC.length + 4) = toLe 4 (canonicalHeader e.header).length ++
      (canonicalHeader e.header ++ (e.docNonce.1 ++ e.docCt)) := by
    rw [← List.drop_drop, hd6, List.drop_left' (by simp)]
  have hd14 : e.toBytes.drop PREFIX = canonicalHeader e.header ++ (e.docNonce.1 ++ e.docCt) := by
    rw [show PREFIX = MAGIC.length + 4 + 4 by rw [hM]; rfl, ← List.drop_drop, hd10, List.drop_left' (by simp)]
  have hlen : e.toBytes.length = 14 + (canonicalHeader e.header).length + NONCE_LEN + e.docCt.length := by
    simp only [toBytes, List.length_append, length_toLe, e.docNonce.2, hM]
  have hle : fromLe (toLe 4 (canonicalHeader e.header).length) = (canonicalHeader e.header).length :=
    fromLe_toLe _ _ (by simp only [MAX_HEADER_LEN] at hhl; omega)
  have hct := hw.docCt_le
  have hrest : (canonicalHeader e.header ++ (e.docNonce.1 ++ e.docCt)).length =
      (canonicalHeader e.header).length + NONCE_LEN + e.docCt.length := by simp [e.docNonce.2]; omega
  unfold parse
  rw [if_neg (by rw [hlen]; simp only [PREFIX]; omega), if_neg (by omega),
    if_neg (by simp [toBytes]), if_neg (by rw [hd6, List.take_left' (by simp), fromLe_toLe _ _ (by decide)]; simp)]
  simp only [hd10, hd14, List.take_left' (length_toLe 4 _), hle]
  rw [if_neg (by omega), dif_neg (by rw [hrest]; omega)]
  simp only [List.take_left' rfl, canonicalHeader, LawfulVaultJson.header_roundtrip hw.range]
  have hnonce := e.docNonce.2
  have hdrop : (VaultJson.headerToVec e.header ++ (e.docNonce.1 ++ e.docCt)).drop
      ((VaultJson.headerToVec e.header).length + NONCE_LEN) = e.docCt := by
    rw [← List.drop_drop, List.drop_left' rfl, List.drop_left' hnonce]
  simp only [hw.header, hdrop, List.drop_left' rfl, List.take_left' hnonce]
  rw [if_neg (by omega)]

/-- Resealing keeps the key slots. -/
theorem unlockWith_reseal [Crypto] (e : Envelope) (document : Bytes) (keys : Keys) (nonce : Nonce)
    (derived : DerivedKeks) : (e.reseal document keys nonce).unlockWith derived = e.unlockWith derived := by
  induction derived with
  | nil => rfl
  | cons d rest ih =>
    simp only [unlockWith, ih]
    rfl

variable [Crypto] [LawfulCrypto]

/-- A resealed document opens under the same keys. -/
theorem openDocument_reseal (e : Envelope) (document : Bytes) (keys : Keys) (nonce : Nonce) :
    (e.reseal document keys nonce).openDocument keys = .ok document := by
  simp [openDocument, reseal, LawfulCrypto.open_seal]

theorem Wf.reseal {e : Envelope} (h : e.Wf) (document : Bytes) (keys : Keys) (nonce : Nonce) :
    (e.reseal document keys nonce).Wf :=
  ⟨h.1, h.2, by simp [Envelope.reseal, LawfulCrypto.length_seal]⟩

end Envelope

end SecretsVault
