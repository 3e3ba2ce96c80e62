import SecretsVault.Error
import SecretsVault.Lib.Prog
import SecretsVault.Lib.Text

/-!
# Keys, digests and hex

Byte strings of a fixed length carry it: `Digest`, `SecretKey`, `Nonce` and `Salt` are `FixedBytes`. `Crypto` is what
the vault takes from outside: SHA-256, HMAC, HKDF, Argon2id, XChaCha20-Poly1305 and base64url; `LawfulCrypto` says that
opening inverts sealing and that sealing adds the tag.

`unhex` reads the hex fields of an audit line the way the log does, slicing the string at every second byte: `unhex_hex`
is the round trip on what `hex` writes.
-/

namespace SecretsVault

open Lib

/-- Byte strings of length `n`. -/
abbrev FixedBytes (n : Nat) := { b : Bytes // b.length = n }

namespace FixedBytes

/-- The bytes, if there are `n` of them. -/
def ofBytes? (n : Nat) (b : Bytes) : Option (FixedBytes n) := if h : b.length = n then some ⟨b, h⟩ else none

/-- `n` zero bytes. -/
def zero (n : Nat) : FixedBytes n := ⟨List.replicate n 0, by simp⟩

def ofFn {n : Nat} (f : Fin n → UInt8) : FixedBytes n := ⟨List.ofFn f, List.length_ofFn⟩

theorem ofBytes?_val {n : Nat} (b : FixedBytes n) : ofBytes? n b.1 = some b := dif_pos b.2

end FixedBytes

def KEY_LEN : Nat := 32
def NONCE_LEN : Nat := 24
def SALT_LEN : Nat := 16
def TAG_LEN : Nat := 16

abbrev Digest := FixedBytes 32
abbrev SecretKey := FixedBytes KEY_LEN
abbrev Nonce := FixedBytes NONCE_LEN
abbrev Salt := FixedBytes SALT_LEN

/-- Parameters of the passphrase derivation; `mKib` is the memory cost in KiB. -/
structure KdfParams where
  algo : String
  mKib : Nat
  t : Nat
  p : Nat
  deriving DecidableEq, Repr

/-- The cryptographic functions the vault is built on. -/
class Crypto where
  sha256 : Bytes → Digest
  hmacSha256 : SecretKey → Bytes → Digest
  /-- HKDF-SHA256 of a key under an info label. -/
  hkdf : SecretKey → String → SecretKey
  /-- AEAD seal of a message under key, nonce and associated data. -/
  sealWith : SecretKey → Nonce → Bytes → Bytes → Bytes
  /-- AEAD open of a ciphertext; `none` is the opaque mismatch. -/
  openWith : SecretKey → Nonce → Bytes → Bytes → Option Bytes
  deriveKek : Bytes → KdfParams → Salt → Except VaultError SecretKey
  base64Url : Bytes → String

/-- What the vault relies on. -/
class LawfulCrypto [Crypto] : Prop where
  open_seal (k : SecretKey) (n : Nonce) (m aad : Bytes) : Crypto.openWith k n (Crypto.sealWith k n m aad) aad = some m
  length_seal (k : SecretKey) (n : Nonce) (m aad : Bytes) : (Crypto.sealWith k n m aad).length = m.length + TAG_LEN

/-- The bytes of a string. -/
def utf8 (s : String) : Bytes := s.toUTF8.data.toList

/-- SHA-256 digest used for tokens, lease and session credentials. -/
def tokenDigest [Crypto] (token : String) : Digest := Crypto.sha256 (utf8 token)

/-! ## Hex -/

/-- The lowercase hex digit of a number below 16. -/
def hexDigit (n : Nat) : Char := if n < 10 then Char.ofNat (48 + n) else Char.ofNat (87 + n)

/-- Two digits for each byte. -/
def hexChars (b : Bytes) : List Char := b.flatMap fun x => [hexDigit (x.toNat / 16), hexDigit (x.toNat % 16)]

/-- Lowercase hex of a byte string. -/
def hex (b : Bytes) : String := String.ofList (hexChars b)

/-- Value of a hex digit, either case. -/
def hexVal (c : Char) : Option Nat :=
  if '0' ≤ c ∧ c ≤ '9' then some (c.toNat - 48)
  else if 'a' ≤ c ∧ c ≤ 'f' then some (c.toNat - 87)
  else if 'A' ≤ c ∧ c ≤ 'F' then some (c.toNat - 55)
  else none

/-- `u8::from_str_radix` at radix 16 on a string of two ASCII characters: a leading `+` is accepted. -/
def fromStrRadix16 (a b : Char) : Option UInt8 :=
  if a = '+' then (hexVal b).map UInt8.ofNat
  else match hexVal a, hexVal b with
    | some x, some y => some (UInt8.ofNat (16 * x + y))
    | _, _ => none

/-- The loop of `unhex`: each pass slices the next two bytes. A slice that would cut a character panics. -/
def unhexChars : List Char → Outcome VaultError Bytes
  | [] => .ok []
  | a :: rest =>
    if a.utf8Size = 1 then
      match rest with
      | [] => .panic
      | b :: rest =>
        if b.utf8Size = 1 then do
          let x ← .ofOption (.corrupt "audit hex field") (fromStrRadix16 a b)
          let xs ← unhexChars rest
          pure (x :: xs)
        else .panic
    else if a.utf8Size = 2 then .error (.corrupt "audit hex field")
    else .panic

/-- Read a 32-byte hex field of an audit line. -/
def unhex (s : String) : Outcome VaultError Digest :=
  if s.utf8ByteSize ≠ 2 * 32 then .error (.corrupt "audit hex field length")
  else do
    let b ← unhexChars s.toList
    .ofOption (.corrupt "audit hex field length") (FixedBytes.ofBytes? 32 b)

theorem hexDigit_spec : ∀ n < 16, hexVal (hexDigit n) = some n ∧ (hexDigit n).utf8Size = 1 ∧ hexDigit n ≠ '+' := by
  decide

theorem unhexChars_hexChars (b : Bytes) : unhexChars (hexChars b) = .ok b := by
  induction b with
  | nil => rfl
  | cons x xs ih =>
    have hx : x.toNat < 256 := x.toNat_lt
    obtain ⟨h1, s1, p1⟩ := hexDigit_spec (x.toNat / 16) (by omega)
    obtain ⟨h2, s2, -⟩ := hexDigit_spec (x.toNat % 16) (by omega)
    have hval : 16 * (x.toNat / 16) + x.toNat % 16 = x.toNat := by omega
    rw [hexChars, List.flatMap_cons]
    change unhexChars (_ :: _ :: hexChars xs) = _
    rw [unhexChars, if_pos s1]
    simp only [if_pos s2, fromStrRadix16, if_neg p1, h1, h2, hval, ih, UInt8.ofNat_toNat, Outcome.ofOption_some,
      Outcome.ok_bind, Outcome.pure_eq]

theorem utf8ByteSize_hex (b : Bytes) : (hex b).utf8ByteSize = 2 * b.length := by
  induction b with
  | nil => rfl
  | cons x xs ih =>
    have hx : x.toNat < 256 := x.toNat_lt
    obtain ⟨-, s1, -⟩ := hexDigit_spec (x.toNat / 16) (by omega)
    obtain ⟨-, s2, -⟩ := hexDigit_spec (x.toNat % 16) (by omega)
    have hsplit : hex (x :: xs) = String.ofList [hexDigit (x.toNat / 16), hexDigit (x.toNat % 16)] ++ hex xs := by
      rw [hex, hexChars, List.flatMap_cons, String.ofList_append]
      rfl
    rw [hsplit, String.utf8ByteSize_append, ih]
    simp [s1, s2]
    omega

/-- Reading back what `hex` wrote. -/
theorem unhex_hex (d : Digest) : unhex (hex d.1) = .ok d := by
  rw [unhex, if_neg (by rw [utf8ByteSize_hex, d.2]; simp)]
  simp only [hex, String.toList_ofList, unhexChars_hexChars, Outcome.ok_bind, FixedBytes.ofBytes?_val,
    Outcome.ofOption_some]

end SecretsVault
