import SecretsVault.Crypto
import SecretsVault.Mcp.Framing
import SecretsVault.Wire
import Mathlib.Tactic.Cases

/-!
# The first request and its descriptors

A request is one line of JSON. `readRequest` reads it from a buffered reader; `recvRequestWithFds` puts it together from
messages that may carry descriptors, and `sendRequestWithFds` writes it with the descriptors in its first call.

- `verdict`: what both readers say of a stream, and `readRequest_eq`, `recvLoop_clean`: they do.
- `recvLoop_eq_some`: which descriptors the receiver holds when it returns, and what it has read then.
- `sent_whole`: what the calls of the sender put on the stream.
- `request_framing`: the request and its descriptors arrive, the readers agree, nothing is leaked, nothing is read past.
-/

namespace SecretsVault.Fdpass

open Lib Mcp

/-- The version of the protocol that is spoken. -/
def VERSION : Nat := 1

def MAX_MESSAGE_LEN : Nat := 1024 * 1024

/-- What one `recvmsg` takes at most. -/
def DATA_CHUNK : Nat := 8192

def MAX_RECV_FDS : Nat := 32

/-- A request under the version it names. -/
structure WireRequest where
  v : Nat
  body : Request

/-- The JSON codec of requests. The text of a request is one line. -/
class RequestJson where
  toString : WireRequest → Option String
  fromSlice : Bytes → Option WireRequest
  oneLine : ∀ req text, toString req = some text → '\n' ∉ text.toList

/-! ## The buffered reader -/

/-- Read the rest of a line of which `buf` has been read. -/
def readLineBounded (buf : Bytes) : BufRead → Except VaultError Bytes × BufRead
  | [] => (.error (.protocol (if buf = [] then "connection closed" else "unterminated message")), [])
  | chunk :: rest =>
    match newlineAt chunk with
    | some pos =>
      let buf := buf ++ chunk.take pos
      (if MAX_MESSAGE_LEN < buf.length then .error .tooLarge else .ok buf, consume (pos + 1) (chunk :: rest))
    | none =>
      let buf := buf ++ chunk
      if MAX_MESSAGE_LEN < buf.length then (.error .tooLarge, rest) else readLineBounded buf rest

/-- The request on a line. -/
def parseRequest [RequestJson] (line : Bytes) : Except VaultError WireRequest :=
  match RequestJson.fromSlice line with
  | none => .error (.protocol "invalid request")
  | some req => if req.v ≠ VERSION then .error (.protocol "unsupported protocol version") else .ok req

def readRequest [RequestJson] (stream : BufRead) : Except VaultError WireRequest × BufRead :=
  let (line, rest) := readLineBounded [] stream
  (line.bind parseRequest, rest)

/-! ## The receiver -/

/-- The size of the header of a control message, of a descriptor in it, and of the control buffer. -/
def CMSG_HDR : Nat := 16

def FD_SIZE : Nat := 4

def CTRL_LEN : Nat := CMSG_HDR + MAX_RECV_FDS * FD_SIZE

/-- A control message: where its header is in the buffer, whether it is `SCM_RIGHTS`, its length, and what is behind its
header, read as descriptors. -/
structure Cmsg where
  off : Nat
  rights : Bool
  len : Nat
  slots : Nat → Int

/-- The header was not delivered, or its length does not even cover it. -/
def Cmsg.Broken (delivered : Nat) (c : Cmsg) : Prop := delivered < c.off + CMSG_HDR ∨ c.len < CMSG_HDR

/-- What one `recvmsg` delivers; the control messages are those that are found from header to header. -/
structure Received where
  data : Bytes
  msgTrunc : Bool
  cmsgTrunc : Bool
  controllen : Nat
  cmsgs : List Cmsg
  fits : data.length ≤ DATA_CHUNK
  /-- From a broken header no other is found. -/
  walks : cmsgs.Pairwise fun c _ => ¬c.Broken (min controllen CTRL_LEN)
  /-- A control message comes with a byte. -/
  bare : data = [] → cmsgs = []

def Received.delivered (m : Received) : Nat := min m.controllen CTRL_LEN

/-- The delivered slots of a control message. -/
def Cmsg.raws (delivered : Nat) (c : Cmsg) : List Int :=
  (List.range ((min c.len (delivered - c.off) - CMSG_HDR) / FD_SIZE)).map c.slots

/-- The descriptors that a control message hands over. -/
def Cmsg.descriptors (delivered : Nat) (c : Cmsg) : List Int :=
  if c.rights then (c.raws delivered).filter fun raw => decide (0 ≤ raw) else []

def Received.descriptors (m : Received) : List Int := m.cmsgs.flatMap (Cmsg.descriptors m.delivered)

/-- Collect the descriptors into `fds`; the first error is kept. -/
def walk (delivered : Nat) (trunc : Bool) : List Cmsg → List Int → Option VaultError → List Int × Option VaultError
  | [], fds, ancErr => (fds, ancErr)
  | c :: rest, fds, ancErr =>
    if delivered < c.off + CMSG_HDR then (fds, ancErr.or (some (.protocol "malformed ancillary")))
    else if c.len < CMSG_HDR then (fds, ancErr.or (some (.protocol "malformed ancillary")))
    else if c.rights = false then walk delivered trunc rest fds (ancErr.or (some (.protocol "unexpected ancillary")))
    else
      let avail := delivered - c.off
      let safeLen := min c.len avail
      if safeLen < CMSG_HDR then (fds, ancErr.or (some (.protocol "malformed ancillary")))
      else
        let raws := c.raws delivered
        let bad := (c.len - CMSG_HDR) % FD_SIZE ≠ 0 ∨ (avail < c.len ∧ trunc = false) ∨ ∃ raw ∈ raws, raw < 0
        let fds := fds ++ raws.filter fun raw => decide (0 ≤ raw)
        let ancErr := if bad then ancErr.or (some (.protocol "malformed ancillary")) else ancErr
        let ancErr :=
          if MAX_RECV_FDS < fds.length then ancErr.or (some (.protocol "too many file descriptors")) else ancErr
        walk delivered trunc rest fds ancErr

/-- What one call of `recvmsg` comes back with. -/
inductive RecvEvent where
  | interrupted
  | failed (e : VaultError)
  | received (m : Received)

/-- A request with its descriptors, or an error; the descriptors held then are dropped. -/
inductive RecvResult where
  | accepted (req : WireRequest) (fds : List Int)
  | failed (e : VaultError) (dropped : List Int)

/-- The bytes read end a line at `pos`. -/
def takeRequest [RequestJson] (acc : Bytes) (pos : Nat) (fds : List Int) : RecvResult :=
  if MAX_MESSAGE_LEN < pos then .failed .tooLarge fds
  else if acc.length ≠ pos + 1 then .failed (.protocol "trailing bytes after request") fds
  else
    match parseRequest (acc.take pos) with
    | .ok req => .accepted req fds
    | .error e => .failed e fds

/-- The loop of the receiver: what it returns, and the calls that are not made. -/
def recvLoop [RequestJson] (acc : Bytes) (fds : List Int) : List RecvEvent → Option (RecvResult × List RecvEvent)
  | [] => none
  | .interrupted :: es => recvLoop acc fds es
  | .failed e :: es => some (.failed e fds, es)
  | .received m :: es =>
    if m.data = [] then
      some (.failed (.protocol (if acc = [] then "connection closed" else "unterminated message")) fds, es)
    else
      let (fds, ancErr) := walk m.delivered m.cmsgTrunc m.cmsgs fds none
      if m.msgTrunc then some (.failed (.protocol "message truncated") fds, es)
      else if m.cmsgTrunc then some (.failed (.protocol "ancillary truncated") fds, es)
      else
        match ancErr with
        | some e => some (.failed e fds, es)
        | none =>
          let acc := acc ++ m.data
          match newlineAt acc with
          | some pos => some (takeRequest acc pos fds, es)
          | none => if MAX_MESSAGE_LEN < acc.length then some (.failed .tooLarge fds, es) else recvLoop acc fds es

def recvRequestWithFds [RequestJson] (es : List RecvEvent) : Option (RecvResult × List RecvEvent) := recvLoop [] [] es

/-! ## The sender -/

/-- What one call of `send` or `sendmsg` comes back with. -/
inductive SendEvent where
  | interrupted
  | failed (e : VaultError)
  | sent (n : Nat)

/-- What one call put on the stream. -/
structure Segment where
  data : Bytes
  fds : List Int
  deriving DecidableEq

/-- The plain stream write: its outcome, and what it put on the stream. -/
def sendPlain (bytes : Bytes) (off : Nat) : List SendEvent → Option (Except VaultError Unit × List Segment)
  | [] => if off < bytes.length then none else some (.ok (), [])
  | ev :: es =>
    if off < bytes.length then
      match ev with
      | .interrupted => sendPlain bytes off es
      | .failed e => some (.error e, [])
      | .sent n =>
        if n = 0 then some (.error (.io none "short send"), [])
        else (sendPlain bytes (off + n) es).map fun out => (out.1, ⟨(bytes.drop off).take n, []⟩ :: out.2)
    else some (.ok (), [])

/-- The write whose first call carries the descriptors. -/
def sendCarrying (bytes : Bytes) (fds : List Int) (sent : Nat) :
    List SendEvent → Option (Except VaultError Unit × List Segment)
  | [] => none
  | .interrupted :: es => sendCarrying bytes fds sent es
  | .failed e :: _ => some (.error e, [])
  | .sent n :: es =>
    if n = 0 then some (.error (.io none "short sendmsg"), [])
    else
      let segment : Segment := ⟨(bytes.drop sent).take n, if sent = 0 then fds else []⟩
      if bytes.length ≤ sent + n then some (.ok (), [segment])
      else (sendCarrying bytes fds (sent + n) es).map fun out => (out.1, segment :: out.2)

def sendRequestWithFds [RequestJson] (req : WireRequest) (fds : List Int) (es : List SendEvent) :
    Option (Except VaultError Unit × List Segment) :=
  match RequestJson.toString req with
  | none => some (.error (.protocol "invalid request"), [])
  | some text =>
    let bytes := utf8 text ++ [lf]
    if MAX_MESSAGE_LEN < bytes.length - 1 then some (.error .tooLarge, [])
    else if fds = [] then sendPlain bytes 0 es
    else sendCarrying bytes fds 0 es

/-! ## What a stream says -/

theorem long_of_not_mem {a : Bytes} (h : lf ∉ a) (hlen : MAX_MESSAGE_LEN < a.length) (b : Bytes) :
    MAX_MESSAGE_LEN < (firstLine (a ++ b)).length := by
  rw [firstLine_of_not_mem h, List.length_append]
  omega

section Verdict
variable [RequestJson]

/-- The request on the first line, if that is not too long and has an end. -/
def verdict (s : Bytes) : Except VaultError WireRequest :=
  if MAX_MESSAGE_LEN < (firstLine s).length then .error .tooLarge
  else if lf ∈ s then parseRequest (firstLine s)
  else .error (.protocol (if s = [] then "connection closed" else "unterminated message"))

theorem verdict_of_long {s : Bytes} (h : MAX_MESSAGE_LEN < (firstLine s).length) : verdict s = .error .tooLarge :=
  if_pos h

theorem verdict_line {line after : Bytes} (h : lf ∉ line) (hlen : line.length ≤ MAX_MESSAGE_LEN) :
    verdict (line ++ lf :: after) = parseRequest line := by
  have hfirst : firstLine (line ++ lf :: after) = line := by
    rw [firstLine_of_not_mem h, firstLine_lf, List.append_nil]
  have hmem : lf ∈ line ++ lf :: after := by simp
  rw [verdict, hfirst, if_neg (by omega), if_pos hmem]

theorem verdict_open {s : Bytes} (h : lf ∉ s) (hlen : s.length ≤ MAX_MESSAGE_LEN) :
    verdict s = .error (.protocol (if s = [] then "connection closed" else "unterminated message")) := by
  rw [verdict, firstLine_of_no_lf h, if_neg (by omega), if_neg h]

theorem parseRequest_ne_tooLarge (line : Bytes) : parseRequest line ≠ .error .tooLarge := by
  rw [parseRequest]
  cases RequestJson.fromSlice line with
  | none => simp
  | some req =>
    dsimp only
    split <;> simp

theorem parseRequest_eq_ok {line : Bytes} {req : WireRequest} (hslice : RequestJson.fromSlice line = some req)
    (hv : req.v = VERSION) : parseRequest line = .ok req := by
  rw [parseRequest, hslice]
  exact if_neg fun hne => hne hv

/-- Only a line that is too long is refused as too large. -/
theorem verdict_eq_tooLarge (s : Bytes) : verdict s = .error .tooLarge ↔ MAX_MESSAGE_LEN < (firstLine s).length := by
  constructor
  · intro h
    by_contra hshort
    rw [verdict, if_neg hshort] at h
    split at h
    · exact parseRequest_ne_tooLarge _ h
    · cases h
  · exact verdict_of_long

/-! ## The buffered reader -/

theorem readLineBounded_bind {buf : Bytes} {stream : BufRead} (hbuf : lf ∉ buf) (hlen : buf.length ≤ MAX_MESSAGE_LEN) :
    (readLineBounded buf stream).1.bind parseRequest = verdict (buf ++ stream.flatten) := by
  induction stream generalizing buf with
  | nil =>
    rw [readLineBounded, List.flatten_nil, List.append_nil, verdict_open hbuf hlen]
    rfl
  | cons chunk rest ih =>
    rw [readLineBounded, List.flatten_cons]
    cases hat : newlineAt chunk with
    | some pos =>
      obtain ⟨before, after, rfl, rfl, hbefore⟩ := newlineAt_eq_some hat
      have htake : (before ++ lf :: after).take before.length = before := by simp
      have hno : lf ∉ buf ++ before := List.not_mem_append hbuf hbefore
      have hbytes : buf ++ ((before ++ lf :: after) ++ rest.flatten) = (buf ++ before) ++ lf ::
        (after ++ rest.flatten) := by
        simp
      dsimp only
      rw [htake, hbytes]
      by_cases hlong : MAX_MESSAGE_LEN < (buf ++ before).length
      · rw [if_pos hlong, verdict_of_long (long_of_not_mem hno hlong _)]
        rfl
      · rw [if_neg hlong, verdict_line hno (by omega)]
        rfl
    | none =>
      have hno : lf ∉ buf ++ chunk := List.not_mem_append hbuf (newlineAt_eq_none.mp hat)
      rw [← List.append_assoc]
      dsimp only
      by_cases hlong : MAX_MESSAGE_LEN < (buf ++ chunk).length
      · rw [if_pos hlong, verdict_of_long (long_of_not_mem hno hlong _)]
        rfl
      · rw [if_neg hlong]
        exact ih hno (by omega)

/-- The buffered reader reads the stream, however it is split. -/
theorem readRequest_eq (stream : BufRead) : (readRequest stream).1 = verdict stream.flatten :=
  readLineBounded_bind List.not_mem_nil (Nat.zero_le _)

end Verdict

/-! ## The descriptors of a message -/

/-- A control message of the kernel: descriptors, whole. -/
structure Cmsg.WellFormed (delivered : Nat) (c : Cmsg) : Prop where
  rights : c.rights = true
  header : CMSG_HDR ≤ c.len
  whole : (c.len - CMSG_HDR) % FD_SIZE = 0
  within : c.off + c.len ≤ delivered
  slots : ∀ raw ∈ c.raws delivered, 0 ≤ raw

/-- The descriptors a message hands over are those that the walk collects. -/
theorem walk_fst {delivered : Nat} (trunc : Bool) {cmsgs : List Cmsg} {fds : List Int} {ancErr : Option VaultError}
    (h : cmsgs.Pairwise fun c _ => ¬c.Broken delivered) :
    (walk delivered trunc cmsgs fds ancErr).1 = fds ++ cmsgs.flatMap (Cmsg.descriptors delivered) := by
  induction cmsgs generalizing fds ancErr with
  | nil => simp [walk]
  | cons c rest ih =>
    obtain ⟨hc, hrest⟩ := List.pairwise_cons.mp h
    -- a broken header is the last one, and has no slots
    have hbroken : c.Broken delivered → fds = fds ++ (c :: rest).flatMap (Cmsg.descriptors delivered) := by
      intro hb
      have hnil : rest = [] := List.eq_nil_iff_forall_not_mem.mpr fun d hd => hc d hd hb
      have hraws : c.raws delivered = [] := by
        rcases hb with hb | hb <;> simp [Cmsg.raws, FD_SIZE] <;> omega
      simp [hnil, Cmsg.descriptors, hraws]
    rw [walk]
    by_cases hoff : delivered < c.off + CMSG_HDR
    · rw [if_pos hoff]
      exact hbroken (Or.inl hoff)
    rw [if_neg hoff]
    by_cases hlen : c.len < CMSG_HDR
    · rw [if_pos hlen]
      exact hbroken (Or.inr hlen)
    rw [if_neg hlen]
    by_cases hrights : c.rights = false
    · rw [if_pos hrights, ih hrest, List.flatMap_cons, Cmsg.descriptors, if_neg (by simp [hrights]), List.nil_append]
    · rw [if_neg hrights]
      dsimp only
      rw [if_neg (by omega), ih hrest, List.flatMap_cons, Cmsg.descriptors, if_pos (by simpa using hrights),
        List.append_assoc]

/-- Nothing is wrong with well-formed control messages. -/
theorem walk_snd {delivered : Nat} {cmsgs : List Cmsg} {fds : List Int} (h : ∀ c ∈ cmsgs, c.WellFormed delivered)
    (hfds : (fds ++ cmsgs.flatMap (Cmsg.descriptors delivered)).length ≤ MAX_RECV_FDS) :
    (walk delivered false cmsgs fds none).2 = none := by
  induction cmsgs generalizing fds with
  | nil => rfl
  | cons c rest ih =>
    have hc := h c List.mem_cons_self
    have hdesc : c.descriptors delivered = (c.raws delivered).filter fun raw => decide (0 ≤ raw) := if_pos hc.rights
    have hheader := hc.header
    have hwithin := hc.within
    have hbad : ¬((c.len - CMSG_HDR) % FD_SIZE ≠ 0 ∨ (delivered - c.off < c.len ∧ false = false) ∨
        ∃ raw ∈ c.raws delivered, raw < 0) := by
      rintro (hne | ⟨hlt, -⟩ | ⟨raw, hraw, hneg⟩)
      · exact hne hc.whole
      · omega
      · have hpos := hc.slots raw hraw
        omega
    rw [List.flatMap_cons, ← List.append_assoc, hdesc] at hfds
    have hcount : ¬MAX_RECV_FDS < (fds ++ (c.raws delivered).filter fun raw => decide (0 ≤ raw)).length := by
      rw [List.length_append] at hfds
      omega
    rw [walk, if_neg (by omega), if_neg (by omega), if_neg (by simp [hc.rights])]
    dsimp only
    rw [if_neg (by omega), if_neg hbad, if_neg hcount]
    exact ih (fun d hd => h d (List.mem_cons_of_mem _ hd)) hfds

/-! ## The receiver -/

def RecvEvent.data : RecvEvent → Bytes
  | .received m => m.data
  | _ => []

def RecvEvent.descriptors : RecvEvent → List Int
  | .received m => m.descriptors
  | _ => []

/-- The bytes and the descriptors that these calls deliver. -/
def recvData (es : List RecvEvent) : Bytes := es.flatMap RecvEvent.data

def recvFds (es : List RecvEvent) : List Int := es.flatMap RecvEvent.descriptors

theorem recvData_append (a b : List RecvEvent) : recvData (a ++ b) = recvData a ++ recvData b := List.flatMap_append

theorem recvFds_append (a b : List RecvEvent) : recvFds (a ++ b) = recvFds a ++ recvFds b := List.flatMap_append

theorem recvData_received (m : Received) (es : List RecvEvent) : recvData (.received m :: es) = m.data ++ recvData es :=
  rfl

theorem recvFds_received (m : Received) (es : List RecvEvent) :
    recvFds (.received m :: es) = m.descriptors ++ recvFds es := rfl

/-- The descriptors that the receiver returns or drops. -/
def RecvResult.fds : RecvResult → List Int
  | .accepted _ fds => fds
  | .failed _ dropped => dropped

def RecvResult.toExcept : RecvResult → Except VaultError WireRequest
  | .accepted req _ => .ok req
  | .failed e _ => .error e

/-- An interruption, or a whole message. -/
def RecvEvent.Clean : RecvEvent → Prop
  | .interrupted => True
  | .failed _ => False
  | .received m => m.data ≠ [] ∧ m.msgTrunc = false ∧ m.cmsgTrunc = false ∧ ∀ c ∈ m.cmsgs, c.WellFormed m.delivered

/-- Where all that is left to read is interruptions, no descriptors come with it. -/
theorem recvFds_of_no_data {es : List RecvEvent} (hclean : ∀ ev ∈ es, ev.Clean) (h : recvData es = []) :
    recvFds es = [] := by
  rw [recvData, List.flatMap_eq_nil_iff] at h
  rw [recvFds, List.flatMap_eq_nil_iff]
  intro ev hev
  cases ev with
  | interrupted => rfl
  | failed e => rfl
  | received m => exact absurd (h _ hev) (hclean _ hev).1

theorem eq_of_line {line line' more : Bytes} (h : lf ∉ line) (h' : lf ∉ line')
    (heq : line ++ [lf] = (line' ++ [lf]) ++ more) :
    line' = line ∧ more = [] := by
  have hfirst : firstLine (line ++ [lf]) = firstLine ((line' ++ [lf]) ++ more) := congrArg firstLine heq
  rw [firstLine_of_not_mem h, List.append_assoc, firstLine_of_not_mem h', List.singleton_append, firstLine_lf,
    firstLine_lf, List.append_nil, List.append_nil] at hfirst
  subst hfirst
  exact ⟨rfl, by simpa using heq⟩

section Receiver
variable [RequestJson]

theorem takeRequest_fds (acc : Bytes) (pos : Nat) (fds : List Int) : (takeRequest acc pos fds).fds = fds := by
  rw [takeRequest]
  split_ifs
  · rfl
  · rfl
  · cases parseRequest (acc.take pos) <;> rfl

theorem takeRequest_line {line : Bytes} (h : lf ∉ line) (fds : List Int) :
    (takeRequest (line ++ [lf]) line.length fds).toExcept = verdict (line ++ [lf]) := by
  rw [takeRequest]
  by_cases hlong : MAX_MESSAGE_LEN < line.length
  · rw [if_pos hlong, verdict_of_long (long_of_not_mem h hlong _)]
    rfl
  · have htake : (line ++ [lf]).take line.length = line := by simp
    rw [if_neg hlong, if_neg (by simp), htake, verdict_line h (by omega)]
    cases parseRequest line <;> rfl

/-- A request is taken from one line only, with nothing behind it. -/
theorem takeRequest_accepted {before after : Bytes} {fds got : List Int} {req : WireRequest}
    (h : takeRequest (before ++ lf :: after) before.length fds = .accepted req got) :
    after = [] ∧ before.length ≤ MAX_MESSAGE_LEN ∧ parseRequest before = .ok req := by
  have htake : (before ++ lf :: after).take before.length = before := by simp
  rw [takeRequest, htake] at h
  split_ifs at h with hlong htrailing
  refine ⟨?_, by omega, ?_⟩
  · simpa using htrailing
  · cases hparse : parseRequest before with
    | error e => simp [hparse] at h
    | ok r =>
      simp only [hparse, RecvResult.accepted.injEq] at h
      rw [h.1]

/-- **What the receiver has read when it returns.** It holds the descriptors of the messages it has read, each once and
in order, whether it returns them or drops them; and it accepts one line only. -/
theorem recvLoop_eq_some {acc : Bytes} {fds : List Int} {es rest : List RecvEvent} {out : RecvResult} (hacc : lf ∉ acc)
    (h : recvLoop acc fds es = some (out, rest)) :
    ∃ used, es = used ++ rest ∧ out.fds = fds ++ recvFds used ∧
      ∀ req got, out = .accepted req got →
        ∃ line, acc ++ recvData used = line ++ [lf] ∧ lf ∉ line ∧ line.length ≤ MAX_MESSAGE_LEN ∧
          parseRequest line = .ok req := by
  induction es generalizing acc fds with
  | nil => cases h
  | cons ev es ih =>
    cases ev with
    | interrupted =>
      obtain ⟨used, rfl, hfds, haccepted⟩ := ih hacc h
      exact ⟨.interrupted :: used, rfl, hfds, haccepted⟩
    | failed e =>
      cases h
      exact ⟨[.failed e], rfl, by simp [recvFds, RecvEvent.descriptors, RecvResult.fds], fun _ _ hne => by cases hne⟩
    | received m =>
      have hone : recvFds [.received m] = m.descriptors := List.append_nil _
      have hdata : recvData [.received m] = m.data := List.append_nil _
      -- the exits of the loop: an error with the descriptors collected so far
      have hfailed : ∀ e, (RecvResult.failed e (fds ++ m.descriptors), es) = (out, rest) →
          ∃ used, RecvEvent.received m :: es = used ++ rest ∧ out.fds = fds ++ recvFds used ∧
            ∀ req got, out = .accepted req got → ∃ line, acc ++ recvData used = line ++ [lf] ∧ lf ∉ line ∧
              line.length ≤ MAX_MESSAGE_LEN ∧ parseRequest line = .ok req := by
        rintro e ⟨⟩
        exact ⟨[.received m], rfl, by rw [hone]; rfl, fun _ _ hne => by cases hne⟩
      rw [recvLoop] at h
      by_cases hnil : m.data = []
      · have hnone : m.descriptors = [] := by rw [Received.descriptors, m.bare hnil, List.flatMap_nil]
        rw [if_pos hnil] at h
        rw [hnone, List.append_nil] at hfailed
        exact hfailed _ (Option.some.inj h)
      rw [if_neg hnil] at h
      have hwalk : (walk m.delivered m.cmsgTrunc m.cmsgs fds none).1 = fds ++ m.descriptors := walk_fst _ m.walks
      revert h
      generalize walk m.delivered m.cmsgTrunc m.cmsgs fds none = walked at hwalk
      obtain ⟨collected, ancErr⟩ := walked
      dsimp only at hwalk ⊢
      subst hwalk
      intro h
      by_cases htrunc : m.msgTrunc = true
      · rw [if_pos htrunc] at h
        exact hfailed _ (Option.some.inj h)
      rw [if_neg htrunc] at h
      by_cases hctrunc : m.cmsgTrunc = true
      · rw [if_pos hctrunc] at h
        exact hfailed _ (Option.some.inj h)
      rw [if_neg hctrunc] at h
      cases ancErr with
      | some e => exact hfailed _ (Option.some.inj h)
      | none =>
        dsimp only at h
        cases hat : newlineAt (acc ++ m.data) with
        | some pos =>
          obtain ⟨before, after, hsplit, rfl, hbefore⟩ := newlineAt_eq_some hat
          rw [hat, hsplit] at h
          cases h
          refine ⟨[.received m], rfl, by rw [takeRequest_fds, hone], fun req got haccept => ?_⟩
          obtain ⟨rfl, hlen, hparse⟩ := takeRequest_accepted haccept
          exact ⟨before, by rw [hdata, hsplit], hbefore, hlen, hparse⟩
        | none =>
          rw [hat] at h
          dsimp only at h
          by_cases hlong : MAX_MESSAGE_LEN < (acc ++ m.data).length
          · rw [if_pos hlong] at h
            exact hfailed _ (Option.some.inj h)
          rw [if_neg hlong] at h
          obtain ⟨used, rfl, hfds, haccepted⟩ := ih (newlineAt_eq_none.mp hat) h
          refine ⟨.received m :: used, rfl, ?_, ?_⟩
          · rw [hfds, recvFds_received, List.append_assoc]
          · rw [recvData_received, ← List.append_assoc]
            exact haccepted

/-- Where nothing is behind the first newline, whole messages make the receiver say what the stream says. Without a
newline it waits for more, unless the line is too long already. -/
theorem recvLoop_clean (acc : Bytes) (fds : List Int) {es : List RecvEvent} (tail : List RecvEvent)
    (hclean : ∀ ev ∈ es, ev.Clean) (hfds : (fds ++ recvFds es).length ≤ MAX_RECV_FDS) (hacc : lf ∉ acc)
    (hlen : acc.length ≤ MAX_MESSAGE_LEN) (hbehind : behindLine (acc ++ recvData es) = []) :
    (recvLoop acc fds (es ++ tail) = recvLoop (acc ++ recvData es) (fds ++ recvFds es) tail ∧
      lf ∉ acc ++ recvData es ∧ (acc ++ recvData es).length ≤ MAX_MESSAGE_LEN) ∨
    ∃ out rest, recvLoop acc fds (es ++ tail) = some (out, rest ++ tail) ∧
    out.toExcept = verdict (acc ++ recvData es) := by
  induction es generalizing acc fds with
  | nil =>
    refine Or.inl ⟨?_, ?_, ?_⟩
    · simp [recvData, recvFds]
    · simpa [recvData] using hacc
    · simpa [recvData] using hlen
  | cons ev es ih =>
    have hrest : ∀ ev ∈ es, ev.Clean := fun ev hev => hclean ev (List.mem_cons_of_mem _ hev)
    cases ev with
    | interrupted => exact ih _ _ hrest hfds hacc hlen hbehind
    | failed e => exact (hclean _ List.mem_cons_self).elim
    | received m =>
      obtain ⟨hdata, htrunc, hctrunc, hwell⟩ : RecvEvent.Clean (.received m) := hclean _ List.mem_cons_self
      rw [recvFds_received, ← List.append_assoc] at hfds ⊢
      rw [recvData_received, ← List.append_assoc] at hbehind ⊢
      have hcount : (fds ++ m.descriptors).length ≤ MAX_RECV_FDS := by
        rw [List.length_append] at hfds
        omega
      have hwalk : walk m.delivered false m.cmsgs fds none = (fds ++ m.descriptors, none) :=
        Prod.ext (walk_fst false m.walks) (walk_snd hwell hcount)
      rw [List.cons_append, recvLoop, if_neg hdata, hctrunc, hwalk]
      dsimp only
      rw [if_neg (by simp [htrunc]), if_neg Bool.false_ne_true]
      cases hat : newlineAt (acc ++ m.data) with
      | some pos =>
        obtain ⟨before, after, hsplit, rfl, hbefore⟩ := newlineAt_eq_some hat
        rw [hsplit, List.append_assoc, List.cons_append, behindLine_of_not_mem hbefore, behindLine_lf] at hbehind
        obtain ⟨rfl, hnone⟩ := List.append_eq_nil_iff.mp hbehind
        rw [hsplit, hnone, List.append_nil]
        exact Or.inr ⟨_, es, rfl, takeRequest_line hbefore _⟩
      | none =>
        have hno : lf ∉ acc ++ m.data := newlineAt_eq_none.mp hat
        dsimp only
        by_cases hlong : MAX_MESSAGE_LEN < (acc ++ m.data).length
        · rw [if_pos hlong, verdict_of_long (long_of_not_mem hno hlong _)]
          exact Or.inr ⟨_, es, rfl, rfl⟩
        · rw [if_neg hlong]
          exact ih _ _ hrest hfds hno (by omega) hbehind

/-- The two readers say the same of a stream that ends. -/
theorem recvRequestWithFds_eof {es : List RecvEvent} {eof : Received} (hclean : ∀ ev ∈ es, ev.Clean)
    (hfds : (recvFds es).length ≤ MAX_RECV_FDS) (hbehind : behindLine (recvData es) = []) (heof : eof.data = []) :
    ∃ out rest, recvRequestWithFds (es ++ [.received eof]) = some (out, rest) ∧
    out.toExcept = verdict (recvData es) := by
  rcases recvLoop_clean [] [] [.received eof] hclean hfds List.not_mem_nil (Nat.zero_le _) hbehind with
    ⟨hloop, hno, hlen⟩ | ⟨out, rest, hloop, hout⟩
  · have hlast : ∀ acc fds, recvLoop acc fds [.received eof] =
        some (.failed (.protocol (if acc = [] then "connection closed" else "unterminated message")) fds, []) := by
      intro acc fds
      rw [recvLoop, if_pos heof]
    refine ⟨_, _, hloop.trans (hlast _ _), ?_⟩
    rw [← List.nil_append (recvData es), verdict_open hno hlen]
    rfl
  · exact ⟨out, _, hloop, hout⟩

/-- A line and its descriptors, however they are split, are received. -/
theorem recvRequestWithFds_line {es : List RecvEvent} {line : Bytes} {req : WireRequest} (hclean : ∀ ev ∈ es, ev.Clean)
    (hfds : (recvFds es).length ≤ MAX_RECV_FDS) (hline : recvData es = line ++ [lf]) (hno : lf ∉ line)
    (hlen : line.length ≤ MAX_MESSAGE_LEN) (hparse : parseRequest line = .ok req) :
    ∃ rest, recvRequestWithFds es = some (.accepted req (recvFds es), rest) := by
  have hbehind : behindLine (recvData es) = [] := by
    rw [hline, behindLine_of_not_mem hno, behindLine_lf]
  rcases recvLoop_clean [] [] [] hclean hfds List.not_mem_nil (Nat.zero_le _) hbehind with
    ⟨-, hnever, -⟩ | ⟨out, rest, hloop, hout⟩
  · rw [List.nil_append, hline] at hnever
    simp at hnever
  · rw [List.append_nil, List.append_nil] at hloop
    rw [List.nil_append, hline, verdict_line hno hlen, hparse] at hout
    obtain ⟨used, rfl, hgot, haccepted⟩ := recvLoop_eq_some List.not_mem_nil hloop
    cases out with
    | failed e dropped => cases hout
    | accepted req' got =>
      cases hout
      obtain ⟨line', hused, hno', -, -⟩ := haccepted _ _ rfl
      rw [List.nil_append] at hused
      rw [recvData_append, hused] at hline
      have hrest := recvFds_of_no_data (fun ev hev => hclean ev (List.mem_append_right _ hev))
        (eq_of_line hno hno' hline.symm).2
      rw [RecvResult.fds, List.nil_append] at hgot
      rw [recvFds_append, hrest, List.append_nil, ← hgot]
      exact ⟨rest, hloop⟩

end Receiver

/-! ## The sender -/

theorem sendPlain_ok {bytes : Bytes} {off : Nat} {es : List SendEvent} {segs : List Segment}
    (h : sendPlain bytes off es = some (.ok (), segs)) :
    segs.flatMap Segment.data = bytes.drop off ∧ segs.flatMap Segment.fds = [] := by
  induction es generalizing off segs with
  | nil =>
    rw [sendPlain] at h
    split_ifs at h with hoff
    cases h
    exact ⟨(List.drop_eq_nil_of_le (by omega)).symm, rfl⟩
  | cons ev es ih =>
    by_cases hoff : off < bytes.length
    · cases ev with
      | interrupted =>
        rw [sendPlain, if_pos hoff] at h
        exact ih h
      | failed e =>
        rw [sendPlain, if_pos hoff] at h
        cases h
      | sent n =>
        rw [sendPlain, if_pos hoff] at h
        by_cases hn : n = 0
        · rw [if_pos hn] at h
          cases h
        · rw [if_neg hn] at h
          obtain ⟨⟨res, more⟩, hmore, hout⟩ := Option.map_eq_some_iff.mp h
          obtain ⟨rfl, rfl⟩ := Prod.mk.inj hout
          obtain ⟨hdata, hfds⟩ := ih hmore
          refine ⟨?_, by rw [List.flatMap_cons, hfds]; rfl⟩
          rw [List.flatMap_cons, hdata, ← List.drop_drop, List.take_append_drop]
    · have hdone : sendPlain bytes off (ev :: es) = some (.ok (), []) := by
        cases ev <;> rw [sendPlain, if_neg hoff]
      rw [hdone] at h
      cases h
      exact ⟨(List.drop_eq_nil_of_le (by omega)).symm, rfl⟩

/-- The descriptors go out with the first call that sends something. -/
theorem sendCarrying_ok {bytes : Bytes} {fds : List Int} {sent : Nat} {es : List SendEvent} {segs : List Segment}
    (h : sendCarrying bytes fds sent es = some (.ok (), segs)) :
    segs.flatMap Segment.data = bytes.drop sent ∧ segs.flatMap Segment.fds = if sent = 0 then fds else [] := by
  induction es generalizing sent segs with
  | nil => cases h
  | cons ev es ih =>
    cases ev with
    | interrupted => exact ih h
    | failed e => cases h
    | sent n =>
      rw [sendCarrying] at h
      by_cases hn : n = 0
      · simp [hn] at h
      simp only [if_neg hn] at h
      by_cases hlast : bytes.length ≤ sent + n
      · rw [if_pos hlast] at h
        cases h
        have htake : (bytes.drop sent).take n = bytes.drop sent :=
          List.take_of_length_le (by rw [List.length_drop]; omega)
        simp [htake]
      · rw [if_neg hlast] at h
        obtain ⟨⟨res, more⟩, hmore, hout⟩ := Option.map_eq_some_iff.mp h
        obtain ⟨rfl, rfl⟩ := Prod.mk.inj hout
        obtain ⟨hdata, hfds⟩ := ih hmore
        rw [if_neg (by omega)] at hfds
        rw [List.flatMap_cons, List.flatMap_cons, hdata, hfds, List.append_nil, ← List.drop_drop, List.take_append_drop]
        exact ⟨rfl, rfl⟩

/-- **What is on the stream when the sender succeeds**: the line once, and the descriptors once. -/
theorem sent_whole [RequestJson] {req : WireRequest} {text : String} {fds : List Int} {es : List SendEvent}
    {segs : List Segment} (htext : RequestJson.toString req = some text)
    (h : sendRequestWithFds req fds es = some (.ok (), segs)) :
    segs.flatMap Segment.data = utf8 text ++ [lf] ∧ segs.flatMap Segment.fds = fds ∧
    (utf8 text).length ≤ MAX_MESSAGE_LEN := by
  have hlength : (utf8 text ++ [lf]).length = (utf8 text).length + 1 := List.length_append
  simp only [sendRequestWithFds, htext] at h
  by_cases hlong : MAX_MESSAGE_LEN < (utf8 text ++ [lf]).length - 1
  · rw [if_pos hlong] at h
    cases h
  rw [if_neg hlong] at h
  by_cases hnil : fds = []
  · rw [if_pos hnil] at h
    obtain ⟨hdata, hfds⟩ := sendPlain_ok h
    exact ⟨hdata, hfds.trans hnil.symm, by omega⟩
  · rw [if_neg hnil] at h
    obtain ⟨hdata, hfds⟩ := sendCarrying_ok h
    exact ⟨hdata, hfds.trans (if_pos rfl), by omega⟩

/-! ## Over a socket -/

/-- What the sender put on the stream is delivered: whole messages with its bytes in order, and with its descriptors in
order, under numbers that refer to the same files. -/
structure Delivers {File : Type} (sender receiver : Int → File) (segs : List Segment) (es : List RecvEvent) : Prop where
  clean : ∀ ev ∈ es, ev.Clean
  bytes : recvData es = segs.flatMap Segment.data
  files : (recvFds es).map receiver = (segs.flatMap Segment.fds).map sender

section Socket
variable [RequestJson]

theorem received_of_sent {File : Type} {sender receiver : Int → File} {req : WireRequest} {text : String}
    {fds : List Int}
    {ses : List SendEvent} {segs : List Segment} {es : List RecvEvent} (htext : RequestJson.toString req = some text)
    (hslice : RequestJson.fromSlice (utf8 text) = some req) (hv : req.v = VERSION) (hfds : fds.length ≤ MAX_RECV_FDS)
    (hsend : sendRequestWithFds req fds ses = some (.ok (), segs)) (hdelivers : Delivers sender receiver segs es) :
    ∃ got rest, recvRequestWithFds es = some (.accepted req got, rest) ∧ got.map receiver = fds.map sender := by
  obtain ⟨hdata, hsent, hlen⟩ := sent_whole htext hsend
  have hfiles := hdelivers.files
  rw [hsent] at hfiles
  have hcount : (recvFds es).length = fds.length := by
    have h := congrArg List.length hfiles
    rwa [List.length_map, List.length_map] at h
  have hno : lf ∉ utf8 text := lf_not_mem_toUTF8 (RequestJson.oneLine req text htext)
  obtain ⟨rest, hrecv⟩ := recvRequestWithFds_line hdelivers.clean (by omega) (hdelivers.bytes.trans hdata) hno hlen
    (parseRequest_eq_ok hslice hv)
  exact ⟨_, rest, hrecv, hfiles⟩

/-- What is behind the newline in its chunk is refused. -/
theorem trailing_refused {before after rest : List RecvEvent} {m : Received} {line more : Bytes} {req : WireRequest}
    {got : List Int} (hbefore : lf ∉ recvData before) (hm : m.data = line ++ lf :: more) (hline : lf ∉ line)
    (hmore : more ≠ [])
    (h : recvRequestWithFds (before ++ .received m :: after) = some (.accepted req got, rest)) : False := by
  obtain ⟨used, hes, -, haccepted⟩ := recvLoop_eq_some List.not_mem_nil h
  obtain ⟨line', hused, hline', -, -⟩ := haccepted _ _ rfl
  rw [List.nil_append] at hused
  have hmem : lf ∈ recvData used := by simp [hused]
  rcases List.append_eq_append_iff.mp hes with ⟨l, rfl, hl⟩ | ⟨l, rfl, -⟩
  · cases l with
    | nil =>
      rw [List.append_nil] at hmem
      exact hbefore hmem
    | cons ev l =>
      obtain ⟨rfl, -⟩ := List.cons.inj hl
      rw [recvData_append, recvData_received, hm] at hused
      have hsplit : line' ++ [lf] = ((recvData before ++ line) ++ [lf]) ++ (more ++ recvData l) := by
        rw [← hused]
        simp
      have hnone := (eq_of_line hline' (List.not_mem_append hbefore hline) hsplit).2
      exact hmore (List.append_eq_nil_iff.mp hnone).1
  · rw [recvData_append] at hbefore
    exact hbefore (List.mem_append_left _ hmem)

/-- **Framing does not depend on the chunks, and loses no descriptor.** A request that is sent, of this version and with
a text that is read back as it was, is received with the files of its descriptors, in order; on a stream with nothing
behind its first newline the receiver says what the buffered reader says; where it fails it drops every descriptor it
was handed; and it accepts nothing where bytes are behind the newline. -/
theorem request_framing {File : Type} (sender receiver : Int → File) :
    (∀ req text fds ses segs es, RequestJson.toString req = some text → RequestJson.fromSlice (utf8 text) = some req →
      req.v = VERSION → fds.length ≤ MAX_RECV_FDS → sendRequestWithFds req fds ses = some (.ok (), segs) →
      Delivers sender receiver segs es →
      ∃ got rest, recvRequestWithFds es = some (.accepted req got, rest) ∧ got.map receiver = fds.map sender) ∧
    (∀ (es : List RecvEvent) (eof : Received) (stream : BufRead), (∀ ev ∈ es, ev.Clean) →
      (recvFds es).length ≤ MAX_RECV_FDS → behindLine (recvData es) = [] → eof.data = [] →
      stream.flatten = recvData es → (∃ out rest, recvRequestWithFds (es ++ [.received eof]) = some (out, rest) ∧
        out.toExcept = (readRequest stream).1) ∧
      ((readRequest stream).1 = .error .tooLarge ↔ MAX_MESSAGE_LEN < (firstLine (recvData es)).length)) ∧
    (∀ es e dropped rest, recvRequestWithFds es = some (.failed e dropped, rest) →
      ∃ used, es = used ++ rest ∧ dropped = recvFds used) ∧
    (∀ before after m line more, lf ∉ recvData before → Received.data m = line ++ lf :: more → lf ∉ line → more ≠ [] →
      ∀ req got rest, recvRequestWithFds (before ++ .received m :: after) ≠ some (.accepted req got, rest)) := by
  refine ⟨?_, ?_, ?_, ?_⟩
  · intro req text fds ses segs es htext hslice hv hfds hsend hdelivers
    exact received_of_sent htext hslice hv hfds hsend hdelivers
  · intro es eof stream hclean hfds hbehind heof hstream
    rw [readRequest_eq, hstream]
    exact ⟨recvRequestWithFds_eof hclean hfds hbehind heof, verdict_eq_tooLarge _⟩
  · intro es e dropped rest h
    obtain ⟨used, hes, hfds, -⟩ := recvLoop_eq_some List.not_mem_nil h
    exact ⟨used, hes, hfds⟩
  · intro before after m line more hbefore hm hline hmore req got rest h
    exact trailing_refused hbefore hm hline hmore h

end Socket

/-! ## Requests for the status -/

def statusRequest (v : Nat) : WireRequest := ⟨v, ⟨"1", "vault.status", none, .null⟩⟩

def statusText : String := "\x7b\"v\":1,\"id\":\"1\",\"op\":\"vault.status\",\"auth\":null,\"params\":null\x7d"

def statusTextOfTwo : String := "\x7b\"v\":2,\"id\":\"1\",\"op\":\"vault.status\",\"auth\":null,\"params\":null\x7d"

/-- The texts of these requests. -/
@[reducible] def statusJson : RequestJson where
  toString req := some (if req.v = 2 then statusTextOfTwo else statusText)
  fromSlice line :=
    if line = utf8 statusTextOfTwo then some (statusRequest 2)
    else if line = utf8 statusText then some (statusRequest 1)
    else none
  oneLine := by
    rintro req text ⟨⟩
    split <;> decide +kernel

/-- A message with these bytes and at most one control message. -/
def message (bytes : Bytes) (cmsgs : List Cmsg) (hfits : bytes.length ≤ DATA_CHUNK) (hbare : bytes ≠ [])
    (hone : cmsgs.length ≤ 1) : Received where
  data := bytes
  msgTrunc := false
  cmsgTrunc := false
  controllen := 32
  cmsgs := cmsgs
  fits := hfits
  walks := by
    match cmsgs with
    | [] => exact List.Pairwise.nil
    | [c] => exact List.pairwise_singleton _ _
  bare h := absurd h hbare

def statusLine (text : String) : Bytes := utf8 text ++ [lf]

/-- Three descriptors, under the numbers 5, 6 and 7. -/
def threeFiles : Cmsg := ⟨0, true, 28, fun i => 5 + i⟩

/-- The request for the status in two messages, the first with the descriptors. -/
def statusMessages : List RecvEvent :=
  [.received (message ((statusLine statusText).take 10) [threeFiles] (by decide +kernel) (by decide +kernel)
    (by decide)), .interrupted,
    .received (message ((statusLine statusText).drop 10) [] (by decide +kernel) (by decide +kernel) (by decide))]

theorem statusMessages_clean : ∀ ev ∈ statusMessages, ev.Clean := by
  have hfiles : threeFiles.WellFormed 32 :=
    { rights := rfl
      header := by decide
      whole := by decide
      within := by decide
      slots := by decide }
  intro ev hev
  simp only [statusMessages, List.mem_cons, List.not_mem_nil, or_false] at hev
  rcases hev with rfl | rfl | rfl
  · refine ⟨by decide +kernel, rfl, rfl, fun c hc => ?_⟩
    rw [List.mem_singleton.mp hc]
    exact hfiles
  · trivial
  · exact ⟨by decide +kernel, rfl, rfl, fun c hc => absurd hc List.not_mem_nil⟩

/-- Sent in two parts around interruptions and received in other messages, a request for the status arrives with its
three descriptors. -/
theorem request_framing_status :
    letI := statusJson
    ∃ got rest, recvRequestWithFds statusMessages = some (.accepted (statusRequest 1) got, rest) ∧
      got.map (fun fd => fd - 5) = [0, 1, 2] := by
  let := statusJson
  exact (request_framing id fun fd => fd - 5).1 (statusRequest 1) statusText [0, 1, 2]
    [.interrupted, .sent 4, .interrupted, .sent 100] [⟨(statusLine statusText).take 4, [0, 1, 2]⟩,
      ⟨(statusLine statusText).drop 4, []⟩] statusMessages rfl
    ((if_neg (by decide +kernel)).trans (if_pos rfl)) rfl (by decide) (by decide +kernel)
    { clean := statusMessages_clean
      bytes := by decide +kernel
      files := by decide }

def newerMessages : List RecvEvent :=
  [.received (message (statusLine statusTextOfTwo) [] (by decide +kernel) (by decide +kernel) (by decide))]

/-- The sender does not look at the version; the receiver does. -/
theorem request_framing_newer :
    letI := statusJson
    RequestJson.fromSlice (utf8 statusTextOfTwo) = some (statusRequest 2) ∧
    sendRequestWithFds (statusRequest 2) [] [.sent 100] = some (.ok (), [⟨statusLine statusTextOfTwo, []⟩]) ∧
    Delivers id id [⟨statusLine statusTextOfTwo, []⟩] newerMessages ∧
    recvRequestWithFds newerMessages = some (.failed (.protocol "unsupported protocol version") [], []) ∧
    ¬∃ got rest, recvRequestWithFds newerMessages = some (.accepted (statusRequest 2) got, rest) := by
  let := statusJson
  have hslice : RequestJson.fromSlice (utf8 statusTextOfTwo) = some (statusRequest 2) := if_pos rfl
  have hno : lf ∉ utf8 statusTextOfTwo := by decide +kernel
  have hclean : ∀ ev ∈ newerMessages, ev.Clean := by
    intro ev hev
    rw [List.mem_singleton.mp hev]
    exact ⟨by decide +kernel, rfl, rfl, fun c hc => absurd hc List.not_mem_nil⟩
  have hparse : parseRequest (utf8 statusTextOfTwo) = .error (.protocol "unsupported protocol version") := by
    rw [parseRequest, hslice]
    exact if_pos (by decide)
  have hrecv : recvRequestWithFds newerMessages = some (.failed (.protocol "unsupported protocol version") [], []) := by
    have hat : newlineAt (statusLine statusTextOfTwo) = some (utf8 statusTextOfTwo).length := by decide +kernel
    have htake : (statusLine statusTextOfTwo).take (utf8 statusTextOfTwo).length = utf8 statusTextOfTwo := by
      decide +kernel
    rw [recvRequestWithFds, newerMessages, recvLoop, if_neg (hclean _ List.mem_cons_self).1]
    simp only [message, walk, List.nil_append, hat, takeRequest, htake, hparse]
    rw [if_neg Bool.false_ne_true, if_neg Bool.false_ne_true, if_neg (by decide +kernel), if_neg (by decide +kernel)]
  refine ⟨hslice, by decide +kernel, ⟨hclean, by decide +kernel, by decide⟩, hrecv, ?_⟩
  rintro ⟨got, rest, h⟩
  rw [hrecv] at h
  cases h

end SecretsVault.Fdpass
