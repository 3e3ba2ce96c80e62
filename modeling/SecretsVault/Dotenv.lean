import SecretsVault.Model

/-!
# Dotenv serialization

The file an injection writes: entries sorted by key, one `KEY=value` line each, values quoted where they could be
misread.
-/

namespace SecretsVault

open Lib

structure DotenvEntry where
  key : String
  value : String
  deriving DecidableEq, Repr

/-- Unicode control characters. -/
def isControl (c : Char) : Bool := c.toNat < 0x20 || (0x7F ≤ c.toNat && c.toNat ≤ 0x9F)

/-- Unicode white space. -/
def isUnicodeWhitespace (c : Char) : Bool :=
  (0x09 ≤ c.toNat && c.toNat ≤ 0x0D) || c.toNat = 0x20 || c.toNat = 0x85 || c.toNat = 0xA0 || c.toNat = 0x1680 ||
    (0x2000 ≤ c.toNat && c.toNat ≤ 0x200A) || c.toNat = 0x2028 || c.toNat = 0x2029 || c.toNat = 0x202F ||
    c.toNat = 0x205F || c.toNat = 0x3000

/-- Values must not hold control characters other than newline, carriage return and tab. -/
def validateValue (value : String) : Except VaultError Unit :=
  if value.toList.any fun c => isControl c && !(c == '\n' || c == '\r' || c == '\t') then
    .error (.invalidInput "secret value contains control characters not representable in dotenv")
  else .ok ()

/-- Quote a value where it could be misread. -/
def escapeValue (value : String) : String :=
  let special := ['"', '\'', '$', Char.ofNat 0x60, '#', '=', '\\']
  if value.isEmpty || value.toList.any fun c => isUnicodeWhitespace c || special.contains c || isControl c then
    "\"" ++ String.ofList (value.toList.flatMap fun c =>
      if c = '\\' then ['\\', '\\'] else if c = '"' then ['\\', '"'] else if c = '$' then ['\\', '$'] else [c]) ++ "\""
  else value

/-- Whether two neighbours of a list share their key. -/
def duplicateKeys : List DotenvEntry → Bool
  | a :: b :: rest => a.key == b.key || duplicateKeys (b :: rest)
  | _ => false

/-- The lines of sorted entries. -/
def dotenvLines : List DotenvEntry → Except VaultError String
  | [] => .ok ""
  | e :: rest =>
    if !validKey e.key then .error (.invalidInput "invalid key name")
    else do
      validateValue e.value
      let out ← dotenvLines rest
      pure (e.key ++ "=" ++ escapeValue e.value ++ "\n" ++ out)

/-- Serialize entries, sorted by key; a duplicate key is refused. -/
def serializeDotenv (entries : List DotenvEntry) : Except VaultError Bytes := do
  let sorted := entries.mergeSort fun a b => a.key ≤ b.key
  if duplicateKeys sorted then .error (.invalidInput "duplicate keys in injection")
  else
    let out ← dotenvLines sorted
    pure (utf8 out)

end SecretsVault
