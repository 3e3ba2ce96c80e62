import SecretsVault.DotenvReader
import SecretsVault.Mcp.Credentials

/-!
# What the adapter answers

A JSON-RPC message with an id is a request and is answered; one without an id is a notification and is not. The adapter
asks for the id only where it does not know the method.

- `IsResponse id r`: a response carries the id, and a result or an error.
- `Due f lines`: what is to be written for a frame.
- `frame_due_iff`: that is what is written, but for the messages that slip through.
- `payloads_lines`: every line that is written is one value.
- `answers_requests_iff`: over a whole session.
-/

namespace SecretsVault.Mcp

open Lib Value

/-! ## Responses -/

/-- A response carries the id, and a result or an error but not both. -/
def IsResponse (id r : Value) : Prop :=
  r.get? "id" = some id ∧ ((r.get? "result").isSome = true ↔ r.get? "error" = none)

/-- An error in the framing, which has no id to carry. -/
def ParseError (r : Value) : Prop :=
  IsResponse .null r ∧ ∃ e, r.get? "error" = some e ∧ e.get? "code" = some (.negInt (-32700))

theorem get?_insert (key k : String) (v : Value) (entries : List (String × Value)) :
    (Value.object (insertEntry k v entries)).get? key =
      if key = k then some v else (Value.object entries).get? key := by
  by_cases h : key = k
  · subst h
    rw [if_pos rfl, Value.get?, find?_insertEntry_self]
    rfl
  · rw [if_neg h, Value.get?, Value.get?, find?_insertEntry_ne h]

@[simp] theorem get?_empty (key : String) : (Value.object []).get? key = none := rfl

theorem isResponse_rpcResult (id result : Value) : IsResponse id (rpcResult id result) := by
  simp [IsResponse, rpcResult, json, get?_insert]

theorem isResponse_rpcError (id : Value) (code : Int) (message : String) :
    IsResponse id (rpcError id code message) := by
  simp [IsResponse, rpcError, json, get?_insert]

theorem parseError_rpcError (message : String) : ParseError (rpcError .null (-32700) message) := by
  refine ⟨isResponse_rpcError _ _ _, json [("code", .negInt (-32700)), ("message", .string message)], ?_, ?_⟩
  · simp [rpcError, json, get?_insert]
  · simp [json, get?_insert]

/-! ## One message -/

/-- The methods that are answered without a look at the id, and those that are not answered at all. -/
def answeredMethods : List String := ["initialize", "ping", "tools/list", "tools/call"]

def silentMethods : List String := ["notifications/initialized", "notifications/cancelled"]

/-- The message is answered. -/
def Answers (msg : Value) : Prop :=
  methodOf msg ∈ answeredMethods ∨ methodOf msg ∉ silentMethods ∧ msg.present "id" = true

/-- What is answered to the message. -/
def Replies (msg : Value) (resp : Option Value) : Prop :=
  Answers msg ∧ (∃ r, resp = some r ∧ IsResponse (msg.index "id") r) ∨ ¬Answers msg ∧ resp = none

theorem replies_some {msg r : Value} (h : methodOf msg ∈ answeredMethods) (hr : IsResponse (msg.index "id") r) :
    Replies msg (some r) := Or.inl ⟨Or.inl h, r, rfl, hr⟩

theorem replies_none {msg : Value} (h : methodOf msg ∉ answeredMethods) (hs : methodOf msg ∈ silentMethods) :
    Replies msg none :=
  Or.inr ⟨fun ha => ha.elim h fun hm => hm.1 hs, rfl⟩

theorem replies_ite {msg : Value} (h : methodOf msg ∉ answeredMethods) (hs : methodOf msg ∉ silentMethods) (code : Int)
    (message : String) :
    Replies msg (if msg.present "id" then some (rpcError (msg.index "id") code message) else none) := by
  by_cases hid : msg.present "id" = true
  · rw [if_pos hid]
    exact Or.inl ⟨Or.inr ⟨hs, hid⟩, _, rfl, isResponse_rpcError _ _ _⟩
  · rw [if_neg hid]
    refine Or.inr ⟨?_, rfl⟩
    rintro (hm | ⟨-, hp⟩)
    · exact h hm
    · exact hid hp

section Messages

variable [Json] {σ : Type}

/-- A call of a tool is answered, whatever the broker answers. -/
theorem toolsCall_replies (a : Adapter) {msg : Value} (h : methodOf msg ∈ answeredMethods) :
    (∃ resp, toolsCall a (msg.index "id") msg = .done resp a ∧ Replies msg resp) ∨
    ∃ sent k, toolsCall a (msg.index "id") msg = .ask sent k ∧ ∀ answer, Replies msg (k answer).1 := by
  have hanswered : ∀ answer, Replies msg (answered a (msg.index "id") (toolName msg) answer).1 := by
    intro answer
    cases answer with
    | ok result => exact replies_some h (isResponse_rpcResult _ _)
    | error e => exact replies_some h (isResponse_rpcResult _ _)
  rw [toolsCall]
  cases toolOp (toolName msg) with
  | none => exact Or.inl ⟨_, rfl, replies_some h (isResponse_rpcError _ _ _)⟩
  | some op =>
    dsimp only
    cases callArgs a msg with
    | error refusal => exact Or.inl ⟨_, rfl, replies_some h (isResponse_rpcResult _ _)⟩
    | ok args =>
      dsimp only
      cases a.auth with
      | session credential =>
        exact Or.inl ⟨_, rfl, hanswered (.error (.of "E_PROTOCOL" "human sessions are not available to agent tools"))⟩
      | none => exact Or.inr ⟨_, _, rfl, hanswered⟩
      | agentToken token => exact Or.inr ⟨_, _, rfl, hanswered⟩
      | passphrase passphrase => exact Or.inr ⟨_, _, rfl, hanswered⟩

/-- How a message is answered depends on its method and its id only. -/
theorem handleMessage_replies (a : Adapter) (msg : Value) :
    (∃ resp, handleMessage a msg = .done resp a ∧ Replies msg resp) ∨
    ∃ sent k, handleMessage a msg = .ask sent k ∧ ∀ answer, Replies msg (k answer).1 := by
  by_cases hcall : methodOf msg = "tools/call"
  · rw [handleMessage_call a hcall]
    exact toolsCall_replies a (by rw [hcall]; decide)
  · refine Or.inl ?_
    unfold handleMessage
    dsimp only
    split
    · rename_i hm
      exact ⟨_, rfl, replies_some (by rw [hm]; decide) (isResponse_rpcResult _ _)⟩
    · rename_i hm
      exact ⟨_, rfl, replies_some (by rw [hm]; decide) (isResponse_rpcResult _ _)⟩
    · rename_i hm
      exact ⟨_, rfl, replies_some (by rw [hm]; decide) (isResponse_rpcResult _ _)⟩
    · rename_i hm
      exact absurd hm hcall
    · rename_i hm
      exact ⟨_, rfl, replies_none (by rw [hm]; decide) (by rw [hm]; decide)⟩
    · rename_i hm
      exact ⟨_, rfl, replies_none (by rw [hm]; decide) (by rw [hm]; decide)⟩
    · rename_i hm
      exact ⟨_, rfl, replies_ite (by rw [hm]; decide) (by rw [hm]; decide) _ _⟩
    · rename_i h1 h2 h3 h4 h5 h6 h7
      refine ⟨_, rfl, replies_ite ?_ ?_ _ _⟩
      · simp only [answeredMethods, List.mem_cons, List.not_mem_nil, or_false, not_or]
        exact ⟨h1, h2, h3, h4⟩
      · simp only [silentMethods, List.mem_cons, List.not_mem_nil, or_false, not_or]
        exact ⟨h5, h6⟩

/-- What a message writes. -/
theorem message_out (broker : Broker σ) (t : Serving σ) (msg : Value) :
    ∃ resp : Option Value, (t.message broker msg).out = t.out ++ resp.elim [] line ∧ Replies msg resp := by
  rcases handleMessage_replies t.adapter msg with ⟨resp, hdone, hreplies⟩ | ⟨sent, k, hask, hreplies⟩
  · exact ⟨resp, by rw [Serving.message, hdone], hreplies⟩
  · exact ⟨(k (broker t.broker sent).1).1, by rw [Serving.message, hask], hreplies _⟩

end Messages

/-! ## One frame -/

/-- A message that is a request: it has a method, and an id that is not null. -/
def IsRequest (msg : Value) : Prop := msg.get? "method" ≠ none ∧ msg.present "id" = true

/-- A message that is a notification: an object without an id. -/
def IsNotification (msg : Value) : Prop := msg.isObject = true ∧ msg.get? "id" = none

/-- A notification of a method that is answered, or a request of one that is not. -/
def Slips (msg : Value) : Prop :=
  IsNotification msg ∧ methodOf msg ∈ answeredMethods ∨ IsRequest msg ∧ methodOf msg ∈ silentMethods

/-- No message is a request and a notification. -/
theorem not_present_of_notification {msg : Value} (h : IsNotification msg) : ¬msg.present "id" = true := by
  rw [Value.present, h.2]
  exact Bool.false_ne_true

section Frames

variable [Json] {σ : Type} {raw : Bytes} {msg : Value}

/-- The payload is white space. -/
def Blank (raw : Bytes) : Prop := ∃ text, fromUtf8 raw = some text ∧ trim text.toList = []

/-- The payload is a message. -/
def Reads (raw : Bytes) (msg : Value) : Prop :=
  ∃ text, fromUtf8 raw = some text ∧ trim text.toList ≠ [] ∧ Json.parse text = some msg

/-- The payload is not UTF-8 or not JSON. -/
def Unreadable (raw : Bytes) : Prop := ∀ text, fromUtf8 raw = some text → trim text.toList ≠ [] ∧ Json.parse text = none

/-- What is to be written for a frame. Nothing is said of a message that is neither a request nor a notification. -/
inductive Due : Frame → List Value → Prop
  | eof : Due .eof []
  | oversize {resynced : Bool} {r : Value} : ParseError r → Due (.oversize resynced) [r]
  | unreadable {raw : Bytes} {r : Value} : Unreadable raw → ParseError r → Due (.line raw) [r]
  | blank {raw : Bytes} : Blank raw → Due (.line raw) []
  | request {raw : Bytes} {msg r : Value} : Reads raw msg → IsRequest msg → IsResponse (msg.index "id") r →
      Due (.line raw) [r]
  | notification {raw : Bytes} {msg : Value} : Reads raw msg → IsNotification msg → Due (.line raw) []
  | other {raw : Bytes} {msg : Value} {lines : List Value} : Reads raw msg → ¬IsRequest msg → ¬IsNotification msg →
      Due (.line raw) lines

def Frame.Slips (f : Frame) : Prop := ∃ raw msg, f = .line raw ∧ Reads raw msg ∧ Mcp.Slips msg

theorem Reads.unique {msg' : Value} (h : Reads raw msg) (h' : Reads raw msg') : msg' = msg := by
  obtain ⟨text, htext, -, hparse⟩ := h
  obtain ⟨text', htext', -, hparse'⟩ := h'
  rw [htext] at htext'
  cases htext'
  rw [hparse] at hparse'
  cases hparse'
  rfl

theorem Reads.not_blank (h : Reads raw msg) : ¬Blank raw := by
  rintro ⟨text, htext, hblank⟩
  obtain ⟨text', htext', hne, -⟩ := h
  rw [htext] at htext'
  cases htext'
  exact hne hblank

theorem Reads.readable (h : Reads raw msg) : ¬Unreadable raw := by
  intro hno
  obtain ⟨text, htext, -, hparse⟩ := h
  have hnone := (hno text htext).2
  rw [hparse] at hnone
  cases hnone

/-- What is due for a message. -/
theorem Due.of_reads {lines : List Value} (hreads : Reads raw msg) (h : Due (.line raw) lines) :
    (IsRequest msg → ∃ r, lines = [r]) ∧ (IsNotification msg → lines = []) := by
  cases h with
  | unreadable hno => exact absurd hno hreads.readable
  | blank hblank => exact absurd hblank hreads.not_blank
  | request hreads' hrequest =>
    rw [hreads.unique hreads'] at hrequest
    exact ⟨fun _ => ⟨_, rfl⟩, fun hn => absurd hrequest.2 (not_present_of_notification hn)⟩
  | notification hreads' hn =>
    rw [hreads.unique hreads'] at hn
    exact ⟨fun hr => absurd hr.2 (not_present_of_notification hn), fun _ => rfl⟩
  | other hreads' hr hn =>
    rw [hreads.unique hreads'] at hr hn
    exact ⟨fun h => absurd h hr, fun h => absurd h hn⟩

/-- What is answered is due, unless the message slips through. -/
theorem due_of_replies {resp : Option Value} (hreads : Reads raw msg) (h : Replies msg resp) (hs : ¬Slips msg) :
    Due (.line raw) resp.toList := by
  by_cases hr : IsRequest msg
  · have hanswers : Answers msg := Or.inr ⟨fun hm => hs (Or.inr ⟨hr, hm⟩), hr.2⟩
    rcases h with ⟨-, r, rfl, hresponse⟩ | ⟨hno, -⟩
    · exact .request hreads hr hresponse
    · exact absurd hanswers hno
  · by_cases hn : IsNotification msg
    · rcases h with ⟨hm | ⟨-, hp⟩, -⟩ | ⟨-, rfl⟩
      · exact absurd (Or.inl ⟨hn, hm⟩) hs
      · exact absurd hp (not_present_of_notification hn)
      · exact .notification hreads hn
    · exact .other hreads hr hn

/-- A message that slips through is answered with a line where none is due, or not where one is. -/
theorem not_due_of_slips {resp : Option Value} (hreads : Reads raw msg) (h : Replies msg resp) (hs : Slips msg)
    {lines : List Value} (hlines : resp.elim [] line = lines.flatMap line) : ¬Due (.line raw) lines := by
  intro hdue
  obtain ⟨hrequest, hnotification⟩ := hdue.of_reads hreads
  rcases hs with ⟨hn, hm⟩ | ⟨hr, hm⟩
  · rw [hnotification hn] at hlines
    rcases h with ⟨-, r, rfl, -⟩ | ⟨hno, -⟩
    · simp [line] at hlines
    · exact hno (Or.inl hm)
  · obtain ⟨r, rfl⟩ := hrequest hr
    rcases h with ⟨hm' | ⟨hm', -⟩, -⟩ | ⟨-, rfl⟩
    · revert hm hm'
      simp only [silentMethods, answeredMethods, List.mem_cons, List.not_mem_nil, or_false]
      rintro (hm | hm) <;> rw [hm] <;> decide
    · exact hm' hm
    · simp [line] at hlines

/-- What a payload writes. -/
theorem line_out (broker : Broker σ) (t : Serving σ) (raw : Bytes) :
    ∃ resp : Option Value, (t.line broker raw).out = t.out ++ resp.elim [] line ∧
      ((∃ msg, Reads raw msg ∧ Replies msg resp) ∨ (∀ msg, ¬Reads raw msg) ∧ Due (.line raw) resp.toList) := by
  rw [Serving.line]
  cases hutf : fromUtf8 raw with
  | none =>
    have hno : Unreadable raw := by
      intro text htext
      rw [hutf] at htext
      cases htext
    exact ⟨some _, rfl, Or.inr ⟨fun msg hreads => hreads.readable hno, .unreadable hno (parseError_rpcError _)⟩⟩
  | some text =>
    dsimp only
    by_cases hblank : trim text.toList = []
    · have hb : Blank raw := ⟨text, hutf, hblank⟩
      rw [hblank, List.isEmpty_nil, if_pos rfl]
      exact ⟨none, (List.append_nil _).symm, Or.inr ⟨fun msg hreads => hreads.not_blank hb, .blank hb⟩⟩
    · rw [if_neg (by simpa using hblank)]
      cases hparse : Json.parse text with
      | none =>
        have hno : Unreadable raw := by
          intro text' htext
          rw [hutf] at htext
          cases htext
          exact ⟨hblank, hparse⟩
        exact ⟨some _, rfl, Or.inr ⟨fun msg hreads => hreads.readable hno, .unreadable hno (parseError_rpcError _)⟩⟩
      | some msg =>
        obtain ⟨resp, hout, hreplies⟩ := message_out broker t msg
        exact ⟨resp, hout, Or.inl ⟨msg, ⟨text, hutf, hblank, hparse⟩, hreplies⟩⟩

/-- What a frame writes: whole lines, and those that are due unless its message slips through. -/
theorem frame_out (broker : Broker σ) (t : Serving σ) (f : Frame) :
    ∃ lines : List Value, (serveFrames broker t [f]).out = t.out ++ lines.flatMap line ∧ (¬f.Slips → Due f lines) := by
  cases f with
  | eof => exact ⟨[], (List.append_nil _).symm, fun _ => .eof⟩
  | oversize resynced =>
    refine ⟨[_], ?_, fun _ => .oversize (parseError_rpcError "parse error: message too large")⟩
    rw [List.flatMap_singleton, serveFrames]
    cases resynced <;> rfl
  | line raw =>
    obtain ⟨resp, hout, hwhat⟩ := line_out broker t raw
    refine ⟨resp.toList, ?_, fun hs => ?_⟩
    · rw [serveFrames, serveFrames, hout]
      cases resp <;> simp
    · rcases hwhat with ⟨msg, hreads, hreplies⟩ | ⟨-, hdue⟩
      · exact due_of_replies hreads hreplies fun h => hs ⟨raw, msg, rfl, hreads, h⟩
      · exact hdue

/-- **What is due for a frame is written, but where its message slips through.** -/
theorem frame_due_iff (broker : Broker σ) (t : Serving σ) (f : Frame) :
    (∃ lines : List Value, (serveFrames broker t [f]).out = t.out ++ lines.flatMap line ∧ Due f lines) ↔ ¬f.Slips := by
  constructor
  · rintro ⟨lines, hlines, hdue⟩ ⟨raw, msg, rfl, hreads, hs⟩
    obtain ⟨resp, hout, hwhat⟩ := line_out broker t raw
    rw [serveFrames, serveFrames, hout, List.append_cancel_left_eq] at hlines
    rcases hwhat with ⟨msg', hreads', hreplies⟩ | ⟨hno, -⟩
    · rw [hreads.unique hreads'] at hreplies
      exact not_due_of_slips hreads hreplies hs hlines hdue
    · exact hno msg hreads
  · intro hs
    obtain ⟨lines, hout, hdue⟩ := frame_out broker t f
    exact ⟨lines, hout, hdue hs⟩

end Frames

/-! ## Sessions -/

/-- A session ends with its last frame only. -/
theorem frames_split (r : BufRead) : ∀ before f after, frames r = before ++ f :: after →
    (∀ x ∈ before, ¬x.ends) ∧ (f.ends ↔ after = []) := by
  intro before f after heq
  by_cases hends : (readFrame r).frame.ends
  · rw [frames, session_of_ends hends, List.map_singleton] at heq
    cases before with
    | nil =>
      obtain ⟨rfl, rfl⟩ := List.cons.inj heq
      exact ⟨fun x hx => absurd hx List.not_mem_nil, iff_of_true hends rfl⟩
    | cons x before =>
      have hlen := congrArg List.length heq
      simp at hlen
  · have hlt := size_readFrame_lt hends
    have hrest : frames r = (readFrame r).frame :: frames (readFrame r).rest := by
      rw [frames, session_of_not_ends hends]
      rfl
    rw [hrest] at heq
    cases before with
    | nil =>
      obtain ⟨rfl, rfl⟩ := List.cons.inj heq
      refine ⟨fun x hx => absurd hx List.not_mem_nil, iff_of_false hends fun hnil => ?_⟩
      rw [frames, List.map_eq_nil_iff] at hnil
      by_cases h : (readFrame (readFrame r).rest).frame.ends
      · rw [session_of_ends h] at hnil
        cases hnil
      · rw [session_of_not_ends h] at hnil
        cases hnil
    | cons x before =>
      obtain ⟨hx, heq⟩ := List.cons.inj heq
      obtain ⟨hbefore, hlast⟩ := frames_split (readFrame r).rest before f after heq
      refine ⟨fun y hy => ?_, hlast⟩
      rcases List.mem_cons.mp hy with rfl | hy
      · rw [← hx]
        exact hends
      · exact hbefore y hy
termination_by size r

/-- A short line is the one frame of a session. -/
theorem frames_line {x : Bytes} (hlf : lf ∉ x) (hne : x ≠ []) (hcap : x.length ≤ FRAME_CAP) :
    frames [x] = [.line x, .eof] := by
  have hsplit : Split x.length [x] := by
    intro chunk hchunk
    rw [List.mem_singleton.mp hchunk]
    exact ⟨hne, Nat.le_refl _⟩
  have hpayloads : payloads [x].flatten = [x] := by
    rw [List.flatten_singleton, payloads_last hlf hne]
  have hframes := (framed [x] hsplit).eq_map (by
    intro payload hp
    rw [hpayloads, List.mem_singleton] at hp
    rw [hp]
    omega)
  rw [hframes, hpayloads, List.map_singleton, frameOf, if_pos hcap]
  rfl

section Sessions

variable [Json] {σ : Type}

/-- The loop goes on behind frames that do not end the session. -/
theorem serveFrames_append (broker : Broker σ) : ∀ (before : List Frame) (t : Serving σ) (rest : List Frame),
    (∀ x ∈ before, ¬x.ends) →
    serveFrames broker t (before ++ rest) = serveFrames broker (serveFrames broker t before) rest
  | [], _, _, _ => rfl
  | f :: before, t, rest, h => by
    have hf := h f List.mem_cons_self
    have hbefore := fun t' => serveFrames_append broker before t' rest fun x hx => h x (List.mem_cons_of_mem _ hx)
    cases f with
    | eof => exact absurd (Or.inl rfl) hf
    | oversize resynced =>
      cases resynced with
      | false => exact absurd (Or.inr rfl) hf
      | true => exact hbefore _
    | line raw => exact hbefore _

/-- What is written to a line is read from it. -/
theorem payloads_lines (hrender : ∀ v, lf ∉ utf8 (Json.render v)) (rs : List Value) :
    payloads (rs.flatMap line) = rs.map fun r => utf8 (Json.render r) := by
  induction rs with
  | nil => exact payloads_nil
  | cons r rs ih =>
    rw [List.flatMap_cons, line, List.append_assoc, List.singleton_append, payloads_line (hrender r), ih, List.map_cons]

/-- What the frames of a session write. -/
theorem serveFrames_out (broker : Broker σ) : ∀ (fs : List Frame) (t : Serving σ),
    (∀ before f after, fs = before ++ f :: after → f.ends → after = []) →
    ∃ ls : List (List Value), List.Forall₂ (fun f lines => ¬f.Slips → Due f lines) fs ls ∧
      (serveFrames broker t fs).out = t.out ++ ls.flatten.flatMap line
  | [], t, _ => ⟨[], .nil, (List.append_nil _).symm⟩
  | f :: rest, t, h => by
    obtain ⟨lines, hout, hdue⟩ := frame_out broker t f
    by_cases hends : f.ends
    · obtain rfl := h [] f rest rfl hends
      refine ⟨[lines], .cons hdue .nil, ?_⟩
      rw [hout, List.flatten_singleton]
    · obtain ⟨ls, hls, hrest⟩ := serveFrames_out broker rest (serveFrames broker t [f]) fun before g after heq =>
        h (f :: before) g after (by rw [heq, List.cons_append])
      refine ⟨lines :: ls, .cons hdue hls, ?_⟩
      have hstep := serveFrames_append broker [f] t rest (by simpa using hends)
      rw [List.singleton_append] at hstep
      rw [hstep, hrest, hout, List.flatten_cons, List.flatMap_append, List.append_assoc]

/-- **The adapter answers what is due, frame by frame, if and only if no message of the session is a notification of a
method that it answers, or a request of one that it does not.** Whatever the frames are, every line that is written is
one value, and the session goes on behind each but the end and a line that is given up. -/
theorem answers_requests_iff (hrender : ∀ v, '\n' ∉ (Json.render v).toList) (broker : Broker σ) (token : Option String)
    (s : σ) (stdin : BufRead) : ((∀ before f after, frames stdin = before ++ f :: after →
        ∃ lines : List Value, (serveFrames broker (serveStart token s) (before ++ [f])).out =
          (serveFrames broker (serveStart token s) before).out ++ lines.flatMap line ∧ Due f lines) ↔
      ∀ f ∈ frames stdin, ¬f.Slips) ∧
    (∃ ls : List (List Value), List.Forall₂ (fun f lines => ¬f.Slips → Due f lines) (frames stdin) ls ∧
      payloads (serve broker token s stdin).out = ls.flatten.map fun r => utf8 (Json.render r)) ∧
    ∀ before f after, frames stdin = before ++ f :: after → (after = [] ↔ f = .eof ∨ f = .oversize false) := by
  refine ⟨⟨fun h f hf => ?_, fun h before f after heq => ?_⟩, ?_, fun before f after heq =>
    (frames_split stdin before f after heq).2.symm⟩
  · obtain ⟨before, after, heq⟩ := List.append_of_mem hf
    have hdue := h before f after heq
    rw [serveFrames_append broker before _ [f] (frames_split stdin before f after heq).1] at hdue
    exact (frame_due_iff broker _ f).mp hdue
  · rw [serveFrames_append broker before _ [f] (frames_split stdin before f after heq).1]
    exact (frame_due_iff broker _ f).mpr (h f (by rw [heq]; simp))
  · obtain ⟨ls, hls, hout⟩ := serveFrames_out broker (frames stdin) (serveStart token s)
      fun before f after heq => (frames_split stdin before f after heq).2.mp
    refine ⟨ls, hls, ?_⟩
    rw [serve, hout]
    exact payloads_lines (fun v => lf_not_mem_toUTF8 (hrender v)) _

end Sessions

/-! ## Pings -/

/-- A ping with an id, and one without. -/
def pingRequest : Value := json [("id", .posInt 1), ("method", .string "ping")]

def pingNotification : Value := json [("method", .string "ping")]

/-- The texts of these values, on one line. -/
@[reducible] def pings : Json where
  parse text := [pingRequest, pingNotification].find? fun v => compact v = text
  render v := String.ofList ((compact v).toList.filter fun c => c != '\n')

theorem pings_render (v : Value) : '\n' ∉ (pings.render v).toList := by
  simp [Json.render]

theorem pings_reads :
    letI := pings
    Reads (utf8 (compact pingNotification)) pingNotification := by
  let := pings
  exact ⟨compact pingNotification, fromUtf8_utf8 _, by decide +kernel, rfl⟩

/-- A broker that refuses everything. -/
def refusing : Broker Unit := fun _ _ => (.error (.of "E_AUTH" "authentication failed"), ())

/-- A ping is answered. -/
theorem answers_requests_ping :
    letI := pings
    (∃ ls : List (List Value), List.Forall₂ (fun f lines => ¬Frame.Slips f → Due f lines)
      (frames [utf8 (compact pingRequest)]) ls ∧
      payloads (serve refusing none () [utf8 (compact pingRequest)]).out = ls.flatten.map fun r =>
        utf8 (Json.render r)) :=
  letI := pings
  (answers_requests_iff pings_render refusing none () [utf8 (compact pingRequest)]).2.1

/-- A ping that is a notification is answered too. -/
theorem answers_notification :
    letI := pings
    frames [utf8 (compact pingNotification)] = [.line (utf8 (compact pingNotification)), .eof] ∧
    Reads (utf8 (compact pingNotification)) pingNotification ∧ IsNotification pingNotification ∧
    (serve refusing none () [utf8 (compact pingNotification)]).out = line (rpcResult .null (json [])) ∧
    ¬∃ lines : List Value, (serveFrames refusing (serveStart none ()) [.line (utf8 (compact pingNotification))]).out =
      (serveFrames refusing (serveStart none ()) []).out ++ lines.flatMap line ∧
      Due (.line (utf8 (compact pingNotification))) lines := by
  let := pings
  have hframes : frames [utf8 (compact pingNotification)] = [.line (utf8 (compact pingNotification)), .eof] := by
    apply frames_line (lf_not_mem_toUTF8 (by decide +kernel)) <;> decide +kernel
  have hnotification : IsNotification pingNotification := ⟨rfl, rfl⟩
  refine ⟨hframes, pings_reads, hnotification, ?_, fun h => ?_⟩
  · have hparse : Json.parse (compact pingNotification) = some pingNotification := rfl
    rw [serve, hframes, serveFrames, serveFrames, Serving.line, fromUtf8_utf8]
    dsimp only
    rw [if_neg (by decide +kernel), hparse]
    rfl
  · exact (frame_due_iff refusing _ _).mp h ⟨_, _, rfl, pings_reads, Or.inl ⟨hnotification, by decide +kernel⟩⟩

end SecretsVault.Mcp
