import SecretsVault.Audit
import SecretsVault.Lib.Code

/-!
# A reference environment

One concrete choice of the cryptography and of the JSON of the vault, on which runs can be evaluated: checksums for
digests, an authenticated text for a ciphertext, and prefix codes for JSON. `LawfulCrypto`, `LawfulVaultJson` and
`LawfulAuditJson` hold of it.
-/

namespace SecretsVault

open Lib

namespace Reference

/-! ## Cryptography -/

/-- A checksum of `n` bytes. -/
def checksum (n : Nat) (b : Bytes) : FixedBytes n :=
  ⟨toLe n (b.foldl (fun acc x => (acc * 257 + x.toNat + 1) % 256 ^ 32) 0), length_toLe n _⟩

/-- The tag of a message. -/
def tag (k : SecretKey) (n : Nonce) (m aad : Bytes) : Bytes := (checksum TAG_LEN (k.1 ++ n.1 ++ m ++ aad)).1

theorem length_tag (k : SecretKey) (n : Nonce) (m aad : Bytes) : (tag k n m aad).length = TAG_LEN :=
  (checksum TAG_LEN _).2

instance crypto : Crypto where
  sha256 b := checksum 32 b
  hmacSha256 k b := checksum 32 (k.1 ++ b)
  hkdf k label := checksum 32 (k.1 ++ utf8 label)
  sealWith k n m aad := m ++ tag k n m aad
  openWith k n ct aad :=
    let m := ct.take (ct.length - TAG_LEN)
    if m ++ tag k n m aad = ct then some m else none
  deriveKek pass _ salt := .ok (checksum 32 (pass ++ salt.1))
  base64Url b := hex b

instance : LawfulCrypto where
  open_seal k n m aad := by
    have h : (m ++ tag k n m aad).take ((m ++ tag k n m aad).length - TAG_LEN) = m := by
      rw [List.length_append, length_tag, Nat.add_sub_cancel, List.take_left' rfl]
    simp only [Crypto.openWith, Crypto.sealWith, h, if_true]
  length_seal k n m aad := by
    change (m ++ tag k n m aad).length = _
    rw [List.length_append, length_tag]

/-! ## Codes of the records -/

open Code

def op : Code Op := nat.imap
  (fun | 0 => .read | 1 => .inject | 2 => .run | 3 => .reveal | _ => .manage)
  (fun | .read => 0 | .inject => 1 | .run => 2 | .reveal => 3 | .manage => 4) fun o => by cases o <;> rfl

def agentStatus : Code AgentStatus := nat.imap (fun | 0 => .active | _ => .revoked)
  (fun | .active => 0 | .revoked => 1) fun o => by cases o <;> rfl

def approvalStatus : Code ApprovalStatus := nat.imap
  (fun | 0 => .pending | 1 => .approved | 2 => .denied | _ => .consumed)
  (fun | .pending => 0 | .approved => 1 | .denied => 2 | .consumed => 3) fun o => by cases o <;> rfl

def decision : Code Decision := nat.imap (fun | 0 => .allowed | _ => .denied)
  (fun | .allowed => 0 | .denied => 1) fun o => by cases o <;> rfl

def project : Code Project := (pair string (pair string (pair (list string) int))).imap
  (fun (id, name, paths, createdAt) => ⟨id, name, paths, createdAt⟩)
  (fun p => (p.id, p.name, p.paths, p.createdAt)) fun _ => rfl

def secret : Code Secret := (pair string (pair string (pair bytes (pair int int)))).imap
  (fun (projectId, key, value, createdAt, updatedAt) => ⟨projectId, key, value, createdAt, updatedAt⟩)
  (fun s => (s.projectId, s.key, s.value, s.createdAt, s.updatedAt)) fun _ => rfl

def agent : Code AgentRecord :=
  (pair string (pair string (pair agentStatus (pair bytes (pair string (pair int (option int))))))).imap
    (fun (id, name, status, tokenHash, tokenPrefix, createdAt, lastSeen) =>
      ⟨id, name, status, tokenHash, tokenPrefix, createdAt, lastSeen⟩)
    (fun a => (a.id, a.name, a.status, a.tokenHash, a.tokenPrefix, a.createdAt, a.lastSeen)) fun _ => rfl

def grant : Code Grant := (pair string (pair string (pair (list op) (pair int (option int))))).imap
  (fun (agentId, projectId, ops, createdAt, revokedAt) => ⟨agentId, projectId, ops, createdAt, revokedAt⟩)
  (fun g => (g.agentId, g.projectId, g.ops, g.createdAt, g.revokedAt)) fun _ => rfl

def lease : Code Lease :=
  (pair string (pair string (pair string (pair (list op) (pair bytes (pair string
    (pair int (pair int (option int))))))))).imap
    (fun (id, agentId, projectId, ops, credentialHash, credentialPrefix, createdAt, expiresAt, revokedAt) =>
      ⟨id, agentId, projectId, ops, credentialHash, credentialPrefix, createdAt, expiresAt, revokedAt⟩)
    (fun l => (l.id, l.agentId, l.projectId, l.ops, l.credentialHash, l.credentialPrefix, l.createdAt, l.expiresAt,
      l.revokedAt)) fun _ => rfl

def approval : Code Approval :=
  (pair string (pair string (pair string (pair string (pair approvalStatus (pair int
    (pair int (pair (option int) (option int))))))))).imap
    (fun (id, agentId, projectId, key, status, createdAt, pendingExpiresAt, approvedAt, claimExpiresAt) =>
      ⟨id, agentId, projectId, key, status, createdAt, pendingExpiresAt, approvedAt, claimExpiresAt⟩)
    (fun a => (a.id, a.agentId, a.projectId, a.key, a.status, a.createdAt, a.pendingExpiresAt, a.approvedAt,
      a.claimExpiresAt)) fun _ => rfl

def auditHead : Code AuditHead := (pair nat string).imap (fun (seq, hash) => ⟨seq, hash⟩) (fun h => (h.seq, h.hash))
  fun _ => rfl

def document : Code VaultDocument :=
  (pair (pair nat int) (pair auditHead (pair (list project) (pair (list secret) (pair (list agent) (pair (list grant)
    (pair (list lease) (list approval)))))))).imap
    (fun ((v, createdAt), auditHead, projects, secrets, agents, grants, leases, approvals) =>
      ⟨v, ⟨createdAt⟩, projects, secrets, agents, grants, leases, approvals, auditHead⟩)
    (fun d => ((d.v, d.meta.createdAt), d.auditHead, d.projects, d.secrets, d.agents, d.grants, d.leases, d.approvals))
    fun _ => rfl

def kdfParams : Code KdfParams := (pair string (pair nat (pair nat nat))).imap
  (fun (algo, mKib, t, p) => ⟨algo, mKib, t, p⟩) (fun k => (k.algo, k.mKib, k.t, k.p)) fun _ => rfl

def slotType : Code SlotType := (pair nat string).imap
  (fun | (0, _) => .passphrase | (1, _) => .backup | (2, _) => .keychain | (3, _) => .sync | (_, s) => .other s)
  (fun | .passphrase => (0, "") | .backup => (1, "") | .keychain => (2, "") | .sync => (3, "") | .other s => (4, s))
  fun t => by cases t <;> rfl

def slot : Code Slot := (pair string (pair slotType (pair kdfParams (pair bytes (pair bytes bytes))))).imap
  (fun (id, kind, kdf, salt, nonce, wrappedMek) => ⟨id, kind, kdf, salt, nonce, wrappedMek⟩)
  (fun s => (s.id, s.kind, s.kdf, s.salt, s.nonce, s.wrappedMek)) fun _ => rfl

def header : Code Header := (pair int (pair (list slot) (pair bytes bytes))).imap
  (fun (createdAt, slots, nonce, wrapped) => ⟨createdAt, slots, ⟨nonce, wrapped⟩⟩)
  (fun h => (h.createdAt, h.slots, h.dek.nonce, h.dek.wrapped)) fun _ => rfl

def event : Code AuditEvent :=
  (pair (pair string (pair nat (pair string (pair string (pair string (pair (option string) (pair (list string)
    (option string)))))))) (pair decision (pair (option string) (pair (option string) (pair (option string)
    (pair (option nat) (pair (option string) (pair (option string) (pair (option int) (option string)))))))))).imap
    (fun ((ts, seq, prevHash, actor, op, project, keys, target), decision, reason, runId, executable, argCount, cwd,
      result, exitCode, signal) => ⟨ts, seq, prevHash, actor, op, project, keys, target, decision, reason, runId,
        executable, argCount, cwd, result, exitCode, signal⟩)
    (fun e => ((e.ts, e.seq, e.prevHash, e.actor, e.op, e.project, e.keys, e.target), e.decision, e.reason, e.runId,
      e.executable, e.argCount, e.cwd, e.result, e.exitCode, e.signal)) fun _ => rfl

def line : Code AuditLine := (pair event (pair string (option string))).imap
  (fun (event, hash, mac) => ⟨event, hash, mac⟩) (fun l => (l.event, l.hash, l.mac)) fun _ => rfl

/-! ## JSON -/

/-- The instants of a document. -/
def instants (d : VaultDocument) : List OffsetDateTime :=
  d.meta.createdAt :: d.projects.map (·.createdAt) ++ d.secrets.flatMap (fun s => [s.createdAt, s.updatedAt]) ++
    d.agents.map (·.createdAt) ++ d.grants.flatMap (fun g => g.createdAt :: g.revokedAt.toList) ++
    d.leases.flatMap (fun l => l.createdAt :: l.expiresAt :: l.revokedAt.toList) ++
    d.approvals.flatMap (fun a => a.createdAt :: a.pendingExpiresAt :: (a.approvedAt.toList ++ a.claimExpiresAt.toList))

instance vaultJson : VaultJson where
  headerToVec := header.enc
  headerFromSlice b := (header.read b).filter fun h => Rfc3339Range h.createdAt
  docToVec d :=
    if ∀ t ∈ instants d, Rfc3339Range t then .ok (document.enc d) else .error "The year component cannot be formatted"
  docFromSlice b :=
    match document.read b with
    | some d => .ok d
    | none => .error "invalid document"

theorem natAbs_lt {t : Int} (h : Rfc3339Range t) : t.natAbs < 16 ^ 17 := by
  have h1 : (-62167219200000000000 : Int) ≤ t := h.1
  have h2 : (t : Int) < 253402300800000000000 := h.2
  omega

theorem length_header {h : Header} (hf : h.Fresh) (hr : Rfc3339Range h.createdAt) : (header.enc h).length ≤ 4096 := by
  obtain ⟨s, hs, hkind, hkdf, hid, hsalt, hnonce, hmek, hdn, hdw⟩ := hf
  have h1 := length_int 17 _ (natAbs_lt hr)
  have h2 := length_string s.id
  have h3 := length_bytes s.salt
  have h4 := length_bytes s.nonce
  have h5 := length_bytes s.wrappedMek
  have h6 := length_bytes h.dek.nonce
  have h7 := length_bytes h.dek.wrapped
  have h8 : (slotType.enc s.kind).length = 2 := by rw [hkind]; decide
  have h9 : (kdfParams.enc s.kdf).length ≤ 64 := by rw [hkdf]; decide
  have hslot : (slot.enc s).length ≤ 2048 := by
    change (string.enc s.id ++ (slotType.enc s.kind ++ (kdfParams.enc s.kdf ++ (bytes.enc s.salt ++
      (bytes.enc s.nonce ++ bytes.enc s.wrappedMek))))).length ≤ _
    simp only [List.length_append, SALT_LEN, NONCE_LEN, KEY_LEN, TAG_LEN] at *
    omega
  have hslots := length_list (c := slot) (m := 2048) h.slots fun a ha => by
    rw [hs, List.mem_singleton] at ha
    rw [ha]; exact hslot
  change (int.enc h.createdAt ++
    ((list slot).enc h.slots ++ (bytes.enc h.dek.nonce ++ bytes.enc h.dek.wrapped))).length ≤ _
  rw [hs, List.length_singleton] at hslots
  rw [hs]
  simp only [List.length_append, NONCE_LEN, KEY_LEN, TAG_LEN] at *
  omega

theorem length_document {t : OffsetDateTime} (hr : Rfc3339Range t) (seq : Nat) {hash : String}
    (hlen : hash.utf8ByteSize = 64) :
    (document.enc { VaultDocument.new t with auditHead := ⟨seq, hash⟩ }).length ≤ 4096 + seq := by
  have h1 := length_int 17 _ (natAbs_lt hr)
  have h2 := length_string hash
  have h3 := length_nat_le seq
  have h4 : (nat.enc 1).length = 2 := by decide
  have h5 : (nat.enc 0).length = 1 := by decide
  change ((nat.enc 1 ++ int.enc t) ++ ((nat.enc seq ++ string.enc hash) ++ ((nat.enc 0 ++ []) ++ ((nat.enc 0 ++ []) ++
    ((nat.enc 0 ++ []) ++ ((nat.enc 0 ++ []) ++ ((nat.enc 0 ++ []) ++ (nat.enc 0 ++ [])))))))).length ≤ _
  simp only [List.length_append, List.length_nil]
  omega

instance : LawfulVaultJson where
  header_roundtrip hr := by simp [VaultJson.headerFromSlice, VaultJson.headerToVec, read_write, Option.filter, hr]
  doc_roundtrip {d b} h := by
    simp only [VaultJson.docToVec] at h
    split at h <;> cases h
    simp [VaultJson.docFromSlice, read_write]
  doc_range {d b} h := by
    simp only [VaultJson.docToVec] at h
    split at h
    · exact ‹∀ t ∈ instants d, Rfc3339Range t› _ (by simp [instants])
    · cases h
  header_fresh := length_header
  doc_fresh {t seq hash b} hlen h := by
    simp only [VaultJson.docToVec] at h
    split at h <;> cases h
    exact length_document (‹∀ t' ∈ instants _, Rfc3339Range t'› t (by simp [instants, VaultDocument.new])) seq hlen

instance auditJson : AuditJson where
  eventToVec := event.enc
  lineToString := line.enc
  lineFromStr := line.read
  rfc3339 t :=
    if t = 0 then .ok "1970-01-01T00:00:00Z"
    else if Rfc3339Range t then .ok (toString t) else .error "The year component cannot be formatted"

theorem line_ne_nil (l : AuditLine) : line.enc l ≠ [] := by
  intro h
  have h1 := line.dec_enc l [0x30]
  have h2 := line.dec_enc l []
  rw [h, List.nil_append] at h1 h2
  have h3 : line.dec [] = none := rfl
  rw [h3] at h2
  cases h2

instance : LawfulAuditJson where
  line_roundtrip := read_write line
  line_ne_nil := line_ne_nil
  line_utf8 l := utf8Valid_of_printable (line.printable l)
  line_printable l b hb := (line.printable l b hb).1
  line_cut l _ _ hk := read_cut line l hk
  line_behind {a l'} h l k hk := read_behind line h fun hnil => by
    rw [List.take_eq_nil_iff] at hnil
    rcases hnil with h0 | hnil
    · omega
    · exact line_ne_nil l hnil
  rfc3339_range {t} h := by
    simp only [AuditJson.rfc3339, if_pos h]
    split <;> exact ⟨_, rfl⟩

theorem eventToVec_injective : Function.Injective (AuditJson.eventToVec : AuditEvent → Bytes) := fun a b h => by
  have ha := read_write event a
  rw [show event.enc a = event.enc b from h, read_write event b] at ha
  exact (Option.some.inj ha).symm

/-! ## Sizes -/

/-- The record is small. -/
def Brief (r : Record) : Prop := (event.enc (r.event "" 0 "")).length ≤ 500

instance (r : Record) : Decidable (Brief r) := by unfold Brief; infer_instance

/-- The line of a small record, with a hash and perhaps a MAC. -/
theorem length_line {r : Record} (hr : Brief r) {ts prevHash hash : String} {mac : Option String} {seq n : Nat}
    (hts : ts.utf8ByteSize ≤ 32) (hp : prevHash.utf8ByteSize = 64) (hh : hash.utf8ByteSize = 64)
    (hm : ∀ m, mac = some m → m.utf8ByteSize = 64) (hseq : seq ≤ n) :
    (line.enc ⟨r.event ts seq prevHash, hash, mac⟩).length ≤ 2400 + n := by
  have h1 := length_string ts
  have h2 := length_string prevHash
  have h3 := length_string hash
  have h4 := length_nat_le seq
  have h5 : ((option string).enc mac).length ≤ 514 := by
    cases mac with
    | none => decide
    | some m =>
      have := length_string m
      rw [hm m rfl] at this
      simp only [option, List.length_cons]
      omega
  simp only [Brief, event, imap, pair, Record.event, List.length_append] at hr
  simp only [line, event, imap, pair, Record.event, List.length_append]
  omega

theorem length_epoch : "1970-01-01T00:00:00Z".utf8ByteSize ≤ 32 := by decide

/-! ## A host -/

/-- A host without a vault and with an empty log, on which every call succeeds. -/
def healthy : Host :=
  { vaultFile := none, auditFile := some [], vaultOwned := false, fs := { node := fun _ => none, cwd := [] }, wall := 0,
    mono := 0, rng := fun i => some fun j => UInt8.ofNat (i + j), appends := fun _ => .ok, saves := fun _ => none,
    syscalls := fun _ => none, patience := 1 }

end Reference

end SecretsVault
