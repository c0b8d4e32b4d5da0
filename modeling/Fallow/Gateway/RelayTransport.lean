import Fallow.Gateway.SiteRoute
import Fallow.Lib.PyText
import Fallow.Relay.Stream

/-! One gateway request with its bytes: the attempt loop of `gateway/proxy.py` over the relay.

    A request is cut at its awaits. What it does next is a function of the broker, of one bit, whether
    its claim is flagged as not to be retried, and of what the outside answers: a timer, a direct
    replica, the policy's next pick. The bit is read in one place only, when an attempt over the relay
    fails before the client has seen a byte.

        attempting ─▶ waiting ─▶ draining ───────────────▶ answered
            ▲            │   └─▶ firstByte ─▶ streaming ─▶ answered
            │            │           └─▶ errorBody ─┐
            │            ▼                          │
            └──────── failed ◀──────────────────────┘          (one repick) -/

namespace Fallow.Gateway.Transport
open Registry Relay Option

/-- The verbatim request the gateway replays to a replica. -/
structure ProxyRequest where
  method : String := "POST"
  path : String := "/v1/chat/completions"
  body : Bytes := []
  contentType : String := "application/json"
  deriving DecidableEq, Repr

/-- A fully buffered upstream response. -/
structure PassThrough where
  statusCode : ℕ
  body : Bytes
  mediaType : String
  deriving DecidableEq, Repr

def defaultMedia : String := "application/json"

/-- `_SITE_RELAY_DEADLINE_S`, in microseconds. -/
def siteRelayDeadline : ℤ := 30 * 1000000

/-! ### What the client gets -/

structure Response where
  status : ℕ
  body : Bytes
  mediaType : String
  deriving DecidableEq, Repr

def utf8 (text : List Char) : Bytes := text.flatMap String.utf8EncodeChar

def openaiError (status : ℕ) (errorType message : String) : Response where
  status := status
  body :=
    utf8 ("\x7b\"error\":".toList ++
      Lib.Json.render [("message".toList, .str message.toList), ("type".toList, .str errorType.toList)] ++
      "\x7d".toList)
  mediaType := defaultMedia

def typeUpstream : String := "upstream_error"

/-- The raw body of a failed backend never reaches the client. -/
def sanitizedUpstreamError : Response :=
  openaiError 502 typeUpstream "the upstream model server failed to serve the request"

def noUpstream : Response := openaiError 502 typeUpstream "no replica could serve the request"

/-- `_buffered`. -/
def respond (served : PassThrough) : Response :=
  if serverError ≤ served.statusCode then sanitizedUpstreamError
  else ⟨served.statusCode, served.body, served.mediaType⟩

/-! ### The loop -/

inductive Mode where | buffered | stream
  deriving DecidableEq, Repr

/-- What `_run_attempts` carries from one attempt to the next. -/
structure Loop where
  mode : Mode
  request : ProxyRequest
  candidates : List ReplicaEndpoint
  tried : List (String × ℕ) := []
  attempts : ℕ := 1
  last5xx : Option PassThrough := none
  deriving DecidableEq, Repr

/-- Where an attempt stands. -/
inductive Phase where
  | attempting (endpoint : ReplicaEndpoint)
  | dialing (endpoint : ReplicaEndpoint)
  | waiting (endpoint : ReplicaEndpoint) (claim : ℕ)
  | draining (endpoint : ReplicaEndpoint) (claim status : ℕ) (contentType : String) (body : Bytes)
  | firstByte (endpoint : ReplicaEndpoint) (claim status : ℕ) (contentType : String)
  | errorBody (endpoint : ReplicaEndpoint) (claim status : ℕ) (contentType : String) (body : Bytes)
  deriving DecidableEq, Repr

/-- A request; once its first byte is out the loop's variables are gone. -/
inductive Request where
  | running (loop : Loop) (phase : Phase)
  | streaming (source : Option ℕ) (status : ℕ) (mediaType : String) (sent : Bytes) (retried : Bool)
  | answered (response : Response) (retried : Bool)
  deriving DecidableEq, Repr

/-- What the client and the log see: the status, the bytes so far, the end, and a retry. -/
structure Seen where
  status : Option ℕ
  bytes : Bytes
  ended : Bool
  retried : Bool
  deriving DecidableEq, Repr

def Request.seen : Request → Seen
  | .running l _ => ⟨none, [], false, 1 < l.attempts⟩
  | .streaming _ status _ sent retried => ⟨some status, sent, false, retried⟩
  | .answered r retried => ⟨some r.status, r.body, true, retried⟩

/-- The claim a request holds an exchange of. -/
def Request.exchange : Request → Option ℕ
  | .running _ (.waiting _ c) | .running _ (.draining _ c _ _ _) | .running _ (.firstByte _ c _ _)
  | .running _ (.errorBody _ c _ _ _) => some c
  | .streaming source _ _ _ _ => source
  | _ => none

/-- The claim whose failure would still be asked for its flag. -/
def Request.undecided : Request → Option ℕ
  | .running _ (.waiting _ c) | .running _ (.draining _ c _ _ _)
  | .running _ (.firstByte _ c _ _) => some c
  | _ => none

namespace Loop

def retried (l : Loop) : Bool := 1 < l.attempts

/-- The loop's exit once the attempts are spent. -/
def finish (l : Loop) : Request :=
  match l.last5xx with
  | some passthrough => .answered (respond passthrough) l.retried
  | none => .answered noUpstream l.retried

/-- After a failed attempt: note a 5xx, repick once among the addresses not tried. -/
def retry (l : Loop) (e : ReplicaEndpoint) (passthrough : Option PassThrough)
    (pick : Option ReplicaEndpoint) : Request :=
  let l := { l with last5xx := passthrough.or l.last5xx, tried := l.tried ++ [address e] }
  if l.attempts < maxAttempts then
    match pick.filter (· ∈ remaining l.candidates l.tried) with
    | some e' => .running { l with attempts := l.attempts + 1 } (.attempting e')
    | none => l.finish
  else l.finish

def succeed (l : Loop) (served : PassThrough) : Request := .answered (respond served) l.retried

/-- `_on_failure`: a flagged claim surfaces an error, any other is retried. -/
def onFailure (l : Loop) (e : ReplicaEndpoint) (flagged : Bool) (pick : Option ReplicaEndpoint) :
    Request :=
  if flagged then l.succeed ⟨serverError, [], defaultMedia⟩ else l.retry e none pick

/-- The end of `try_buffered`, shared with the direct path. -/
def buffered (l : Loop) (e : ReplicaEndpoint) (served : PassThrough) (pick : Option ReplicaEndpoint) :
    Request :=
  if serverError ≤ served.statusCode then l.retry e (some served) pick else l.succeed served

/-- `try_stream` once the first chunk is read. -/
def opened (l : Loop) (e : ReplicaEndpoint) (c status : ℕ) (contentType : String)
    (first : Option Bytes) : Request :=
  if serverError ≤ status then .running l (.errorBody e c status contentType (first.getD []))
  else .streaming (some c) status contentType (first.getD []) l.retried

end Loop

/-! ### One resumption -/

/-- How a direct replica answers an attempt. -/
inductive Direct where
  | passThrough (served : PassThrough)
  | unreachable
  | stream (status : ℕ) (mediaType : String) (first : Option Bytes)
  deriving DecidableEq, Repr

/-- What a request is resumed with; `pick` is the policy's answer should it be asked. -/
inductive Input where
  | attempt (siteRoute : Bool) (now : ℤ) (pick : Option ReplicaEndpoint)
  | dialed (reply : Direct) (pick : Option ReplicaEndpoint)
  | resume (pick : Option ReplicaEndpoint)
  | timeout (pick : Option ReplicaEndpoint)
  | chunk (bytes : Bytes)
  | close
  deriving DecidableEq, Repr

/-- A parameterised JSON media type is collapsed to the bare one. -/
def normalizeJsonMedia (contentType : String) : String :=
  let base := (Lib.strip (contentType.toList.takeWhile (· ≠ ';'))).map Char.toLower
  if base = defaultMedia.toList then defaultMedia else contentType

def relayRequest (r : ProxyRequest) : RelayRequest where
  method := r.method
  path := r.path
  contentType := normalizeJsonMedia r.contentType
  body := r.body

/-- The answer to a resumption: the broker, the request, and whether the claim's flag was taken. -/
structure Answer where
  broker : Broker
  request : Request
  took : Bool := false

/-- `aclose`, then `_on_failure`. -/
def failed (b : Broker) (l : Loop) (e : ReplicaEndpoint) (c : ℕ) (flagged : Bool)
    (pick : Option ReplicaEndpoint) : Answer :=
  ⟨b.disconnect c, l.onFailure e flagged pick, true⟩

/-- What the exchange reads next. -/
def readNext (b : Broker) (c : ℕ) : Option Item := (b.heap[c]?).bind (·.stream.next)

/-- `wait_response` has raised: the claim ended before any byte was buffered. -/
def raises (w : Work) : Bool :=
  (w.state = .failed ∨ w.state = .invalid) ∧ ¬ w.stream.firstByte

/-- An attempt goes on from its await. -/
def resume (b : Broker) (flagged : Bool) (l : Loop) (pick : Option ReplicaEndpoint) :
    Phase → Answer
  | .attempting e => ⟨b, .running l (.attempting e), false⟩
  | .dialing e => ⟨b, .running l (.dialing e), false⟩
  | .waiting e c => match b.heap[c]? with
    | none => ⟨b, .running l (.waiting e c), false⟩
    | some w =>
      if ¬ w.started then ⟨b, .running l (.waiting e c), false⟩
      else if raises w then failed b l e c flagged pick
      else match l.mode with
        | .buffered => ⟨b, .running l (.draining e c w.status w.contentType []), false⟩
        | .stream => ⟨b, .running l (.firstByte e c w.status w.contentType), false⟩
  | .draining e c status contentType body => match readNext b c with
    | none => ⟨b, .running l (.draining e c status contentType body), false⟩
    | some (.chunk bytes) =>
      ⟨b.read c, .running l (.draining e c status contentType (body ++ bytes)), false⟩
    | some (.terminal reason) =>
      if reason = "eof" then ⟨b, l.buffered e ⟨status, body, contentType⟩ pick, false⟩
      else failed b l e c flagged pick
  | .firstByte e c status contentType => match readNext b c with
    | none => ⟨b, .running l (.firstByte e c status contentType), false⟩
    | some (.chunk bytes) => ⟨b.read c, l.opened e c status contentType (some bytes), false⟩
    | some (.terminal reason) =>
      if reason = "eof" then ⟨b, l.opened e c status contentType none, false⟩
      else failed b l e c flagged pick
  | .errorBody e c status contentType body => match readNext b c with
    | none => ⟨b, .running l (.errorBody e c status contentType body), false⟩
    | some (.chunk bytes) =>
      ⟨b.read c, .running l (.errorBody e c status contentType (body ++ bytes)), false⟩
    | some (.terminal _) =>
      ⟨b.disconnect c, l.retry e (some ⟨status, body, contentType⟩) pick, false⟩

/-- `wait_for` gives up; the body of a 5xx is read without a timer. -/
def timeout (b : Broker) (flagged : Bool) (l : Loop) (pick : Option ReplicaEndpoint) :
    Phase → Answer
  | .waiting e c | .draining e c _ _ _ | .firstByte e c _ _ => failed b l e c flagged pick
  | phase => ⟨b, .running l phase, false⟩

/-- `SiteAwareTransport` starts an attempt on the path the agent's route names. -/
def attempt (b : Broker) (l : Loop) (e : ReplicaEndpoint) (siteRoute : Bool) (now : ℤ)
    (pick : Option ReplicaEndpoint) : Answer :=
  if siteRoute then
    match b.offer e.agentId e.port (relayRequest l.request) (now + siteRelayDeadline) with
    | (b, .ok c) => ⟨b, .running l (.waiting e c), false⟩
    | (b, .error _) => ⟨b, l.retry e none pick, false⟩
  else ⟨b, .running l (.dialing e), false⟩

/-- The direct path: `_try_buffered` or `_try_stream` has returned. -/
def dialed (l : Loop) (e : ReplicaEndpoint) (pick : Option ReplicaEndpoint) : Direct → Request
  | .passThrough served => l.buffered e served pick
  | .unreachable => l.retry e none pick
  | .stream status mediaType first => .streaming none status mediaType (first.getD []) l.retried

/-- The body's iterator ends: the exchange is closed and nothing is replayed. -/
def endStream (b : Broker) (source : Option ℕ) (status : ℕ) (mediaType : String) (sent : Bytes)
    (retried : Bool) : Answer :=
  ⟨match source with
    | some c => b.disconnect c
    | none => b, .answered ⟨status, sent, mediaType⟩ retried, false⟩

/-- `relay_stream_body` goes on. -/
def stream (b : Broker) (c status : ℕ) (mediaType : String) (sent : Bytes) (retried : Bool) : Answer :=
  match readNext b c with
  | none => ⟨b, .streaming (some c) status mediaType sent retried, false⟩
  | some (.chunk bytes) => ⟨b.read c, .streaming (some c) status mediaType (sent ++ bytes) retried, false⟩
  | some (.terminal _) => endStream b (some c) status mediaType sent retried

def advance (b : Broker) (flagged : Bool) (r : Request) (input : Input) : Answer :=
  match r, input with
  | .running l phase, .resume pick => resume b flagged l pick phase
  | .running l phase, .timeout pick => timeout b flagged l pick phase
  | .running l (.attempting e), .attempt siteRoute now pick => attempt b l e siteRoute now pick
  | .running l (.dialing e), .dialed reply pick => ⟨b, dialed l e pick reply, false⟩
  | .streaming (some c) status mediaType sent retried, .resume _ =>
    stream b c status mediaType sent retried
  | .streaming none status mediaType sent retried, .chunk bytes =>
    ⟨b, .streaming none status mediaType (sent ++ bytes) retried, false⟩
  -- a timer between two chunks, the client hanging up, or the direct replica's end
  | .streaming source status mediaType sent retried, .timeout _ =>
    endStream b source status mediaType sent retried
  | .streaming source status mediaType sent retried, .close =>
    endStream b source status mediaType sent retried
  | r, _ => ⟨b, r, false⟩

/-! ### What an answer can be -/

section
variable {b : Broker} {l : Loop} {e : ReplicaEndpoint} {r : Request} {c : ℕ}

theorem undecided_finish : l.finish.undecided = none := by
  unfold Loop.finish
  split <;> rfl

variable {pick : Option ReplicaEndpoint}

@[simp] theorem undecided_retry : (l.retry e p pick).undecided = none := by
  unfold Loop.retry
  dsimp only
  split
  · split
    · rfl
    · exact undecided_finish
  · exact undecided_finish

variable {flagged : Bool} {input : Input} {b' : Broker}

@[simp] theorem undecided_onFailure : (l.onFailure e flagged pick).undecided = none := by
  unfold Loop.onFailure
  split
  · rfl
  · exact undecided_retry

@[simp] theorem undecided_buffered : (l.buffered e served pick).undecided = none := by
  unfold Loop.buffered
  split
  · exact undecided_retry
  · rfl

@[simp] theorem undecided_opened : (l.opened e c status contentType first).undecided = none := by
  unfold Loop.opened
  split <;> rfl

/-- An attempt over the relay whose answer is still open. -/
inductive Open (l : Loop) (e : ReplicaEndpoint) (c : ℕ) : Request → Prop where
  | waiting : Open l e c (.running l (.waiting e c))
  | draining (status : ℕ) (contentType : String) (body : Bytes) :
      Open l e c (.running l (.draining e c status contentType body))
  | firstByte (status : ℕ) (contentType : String) :
      Open l e c (.running l (.firstByte e c status contentType))

theorem Open.exchange (ho : Open l e c r) : r.exchange = some c := by cases ho <;> rfl

theorem Open.unique (ho : Open l e c r) (ho' : Open l' e' c' r) : l = l' ∧ e = e' ∧ c = c' := by
  cases ho <;> cases ho' <;> exact ⟨rfl, rfl, rfl⟩

theorem undecided_iff : r.undecided = some c ↔ ∃ l e, Open l e c r := by
  constructor
  · intro h
    unfold Request.undecided at h
    split at h
    · cases h; exact ⟨_, _, .waiting⟩
    · cases h; exact ⟨_, _, .draining ..⟩
    · cases h; exact ⟨_, _, .firstByte ..⟩
    · cases h
  · rintro ⟨l, e, ho⟩
    cases ho <;> rfl

/-- To the broker a resumption is nothing, or one step. -/
def Stepped (b b' : Broker) : Prop := b' = b ∨ ∃ act, b' = Relay.step b act

theorem Stepped.refl (b : Broker) : Stepped b b := .inl rfl

theorem Stepped.step (b : Broker) (act : Relay.Act) : Stepped b (Relay.step b act) := .inr ⟨act, rfl⟩

theorem Stepped.heap_le (h : Stepped b b') : b.heap.length ≤ b'.heap.length := by
  rcases h with rfl | ⟨act, rfl⟩
  · exact Nat.le_refl _
  · exact heap_le_step

/-- Resumed, an open attempt stays open, ends without asking for the flag, or fails. -/
theorem Open.advance (ho : Open l e c r) (b : Broker) (input : Input) :
    (∃ b' r', Open l e c r' ∧ Stepped b b' ∧
      ∀ flagged, advance b flagged r input = ⟨b', r', false⟩) ∨
    (∃ b' r', r'.undecided = none ∧ Stepped b b' ∧
      ∀ flagged, advance b flagged r input = ⟨b', r', false⟩) ∨
    (∃ pick, ∀ flagged, advance b flagged r input = failed b l e c flagged pick) := by
  cases input with
  | attempt | dialed | chunk | close => exact .inl ⟨b, r, ho, .refl b, fun _ => by cases ho <;> rfl⟩
  | timeout pick => exact .inr (.inr ⟨pick, fun _ => by cases ho <;> rfl⟩)
  | resume pick =>
    cases ho with
    | waiting =>
      simp only [Transport.advance, Transport.resume]
      cases b.heap[c]? with
      | none => exact .inl ⟨_, _, .waiting, .refl b, fun _ => rfl⟩
      | some w =>
        dsimp only
        split
        · exact .inl ⟨_, _, .waiting, .refl b, fun _ => rfl⟩
        split
        · exact .inr (.inr ⟨pick, fun _ => rfl⟩)
        · cases l.mode with
          | buffered => exact .inl ⟨_, _, .draining .., .refl b, fun _ => rfl⟩
          | stream => exact .inl ⟨_, _, .firstByte .., .refl b, fun _ => rfl⟩
    | draining status contentType body =>
      simp only [Transport.advance, Transport.resume]
      cases readNext b c with
      | none => exact .inl ⟨_, _, .draining .., .refl b, fun _ => rfl⟩
      | some item =>
        cases item with
        | chunk bytes => exact .inl ⟨_, _, .draining .., .step b (.read c), fun _ => rfl⟩
        | terminal reason =>
          dsimp only
          split
          · exact .inr (.inl ⟨_, _, undecided_buffered, .refl b, fun _ => rfl⟩)
          · exact .inr (.inr ⟨pick, fun _ => rfl⟩)
    | firstByte status contentType =>
      simp only [Transport.advance, Transport.resume]
      cases readNext b c with
      | none => exact .inl ⟨_, _, .firstByte .., .refl b, fun _ => rfl⟩
      | some item =>
        cases item with
        | chunk bytes =>
          exact .inr (.inl ⟨_, _, undecided_opened, .step b (.read c), fun _ => rfl⟩)
        | terminal reason =>
          dsimp only
          split
          · exact .inr (.inl ⟨_, _, undecided_opened, .refl b, fun _ => rfl⟩)
          · exact .inr (.inr ⟨pick, fun _ => rfl⟩)

/-- An accepted offer makes a new claim. -/
theorem offer_ok (h : b.offer a port request deadline = (b', .ok c)) : c = b.heap.length := by
  unfold Broker.offer at h
  split at h
  · cases h
  split at h
  · cases h
  split at h
  · cases h
  dsimp only at h
  split at h
  · cases h
  · cases h; rfl

theorem undecided_dialed : (dialed l e pick reply).undecided = none := by
  cases reply with
  | passThrough served => exact undecided_buffered
  | unreachable => exact undecided_retry
  | stream status mediaType first => rfl

/-- FRAME: the flag means nothing to a request without an open attempt over the relay, and the next
    such attempt is on a new claim. -/
theorem advance_of_decided (h : r.undecided = none) :
    ∃ b' r', (∀ flagged, advance b flagged r input = ⟨b', r', false⟩) ∧ Stepped b b' ∧
      ∀ d, r'.undecided = some d → d = b.heap.length := by
  have goes : ∀ {b'} {r'}, Stepped b b' → r'.undecided = none → ∃ b'' r'',
      (∀ _ : Bool, (⟨b', r', false⟩ : Answer) = ⟨b'', r'', false⟩) ∧ Stepped b b'' ∧
        ∀ d, r''.undecided = some d → d = b.heap.length :=
    fun hb hr => ⟨_, _, fun _ => rfl, hb, fun d hd => by rw [hr] at hd; cases hd⟩
  have stays := goes (.refl b) h
  cases r with
  | answered response retried => cases input <;> exact stays
  | streaming source status mediaType sent retried =>
    have ends : ∃ b' r', (∀ _ : Bool, endStream b source status mediaType sent retried = ⟨b', r', false⟩) ∧
        Stepped b b' ∧ ∀ d, r'.undecided = some d → d = b.heap.length := by
      cases source with
      | none => exact goes (.refl b) rfl
      | some c => exact goes (.step b (.disconnect c)) rfl
    cases input with
    | attempt siteRoute now pick | dialed reply pick => cases source <;> exact stays
    | timeout pick | close => cases source <;> exact ends
    | chunk bytes =>
      cases source with
      | none => exact goes (.refl b) rfl
      | some c => exact stays
    | resume pick =>
      cases source with
      | none => exact stays
      | some c =>
        simp only [advance, stream]
        cases readNext b c with
        | none => exact stays
        | some item =>
          cases item with
          | chunk bytes => exact goes (.step b (.read c)) rfl
          | terminal reason => exact ends
  | running l phase =>
    cases phase with
    | waiting e c => cases h
    | draining e c status contentType body => cases h
    | firstByte e c status contentType => cases h
    | dialing e =>
      cases input with
      | dialed reply pick => exact goes (.refl b) undecided_dialed
      | _ => exact stays
    | errorBody e c status contentType body =>
      cases input with
      | resume pick =>
        simp only [advance, resume]
        cases readNext b c with
        | none => exact stays
        | some item =>
          cases item with
          | chunk bytes => exact goes (.step b (.read c)) rfl
          | terminal reason => exact goes (.step b (.disconnect c)) undecided_retry
      | _ => exact stays
    | attempting e =>
      cases input with
      | attempt siteRoute now pick =>
        simp only [advance, attempt]
        cases siteRoute with
        | false => exact goes (.refl b) rfl
        | true =>
          have hoffer : Stepped b (b.offer e.agentId e.port (relayRequest l.request)
              (now + siteRelayDeadline)).1 := .step b (.offer ..)
          cases ho : b.offer e.agentId e.port (relayRequest l.request) (now + siteRelayDeadline) with
          | mk b' answer =>
            rw [ho] at hoffer
            cases answer with
            | error err => exact goes hoffer undecided_retry
            | ok c =>
              refine ⟨b', .running l (.waiting e c), fun _ => rfl, hoffer, ?_⟩
              rintro d ⟨⟩
              exact offer_ok ho
      | _ => exact stays

/-! ### When the flag changes nothing -/

/-- No attempt is left and a 5xx is kept: the client gets the same error either way. -/
def Loop.Spent (l : Loop) (e : ReplicaEndpoint) : Prop :=
  l.last5xx.any (serverError ≤ ·.statusCode) = true ∧
    (maxAttempts ≤ l.attempts ∨ remaining l.candidates (l.tried ++ [address e]) = [])

/-- With no attempt left a retry is the loop's exit. -/
theorem retry_eq_finish
    (h : maxAttempts ≤ l.attempts ∨ remaining l.candidates (l.tried ++ [address e]) = []) :
    l.retry e none pick = { l with tried := l.tried ++ [address e] }.finish := by
  unfold Loop.retry
  dsimp only
  split
  · rename_i hlt
    have hnone : remaining l.candidates (l.tried ++ [address e]) = [] :=
      h.resolve_left (Nat.not_le.mpr hlt)
    rw [hnone]
    cases pick <;> rfl
  · rfl

theorem onFailure_of_spent (h : l.Spent e) :
    l.onFailure e flagged pick = .answered sanitizedUpstreamError l.retried := by
  obtain ⟨hkept, hspent⟩ := h
  cases flagged with
  | true => rfl
  | false =>
    cases hlast : l.last5xx with
    | none => rw [hlast] at hkept; cases hkept
    | some served =>
      rw [hlast] at hkept
      have hstatus : serverError ≤ served.statusCode := of_decide_eq_true hkept
      change l.retry e none pick = _
      rw [retry_eq_finish hspent]
      simp only [Loop.finish, hlast, Loop.retried, respond, if_pos hstatus]

/-- Otherwise some pick of the policy tells the two apart. -/
theorem onFailure_differs (h : ¬ l.Spent e) :
    ∃ pick, (l.onFailure e true pick).seen ≠ (l.onFailure e false pick).seen := by
  have hbodies : sanitizedUpstreamError.body ≠ noUpstream.body := by decide
  refine ⟨(remaining l.candidates (l.tried ++ [address e])).head?, fun heq => ?_⟩
  change (Request.answered sanitizedUpstreamError l.retried).seen = (l.retry e none _).seen at heq
  by_cases hspent : maxAttempts ≤ l.attempts ∨ remaining l.candidates (l.tried ++ [address e]) = []
  · rw [retry_eq_finish hspent] at heq
    cases hlast : l.last5xx with
    | none =>
      simp only [Loop.finish, hlast, Request.seen, Seen.mk.injEq] at heq
      exact hbodies heq.2.1
    | some served =>
      -- a kept answer below 500 is not the 502 of an error
      have hlow : ¬ serverError ≤ served.statusCode := by
        intro hle
        refine h ⟨?_, hspent⟩
        rw [hlast]
        exact decide_eq_true hle
      simp only [Loop.finish, hlast, respond, if_neg hlow, Request.seen, Seen.mk.injEq] at heq
      have h502 : (502 : ℕ) = served.statusCode := some.inj heq.1
      rw [← h502] at hlow
      exact hlow (by decide)
  · obtain ⟨hlt, hne⟩ := not_or.mp hspent
    obtain ⟨e', es, hes⟩ := List.exists_cons_of_ne_nil hne
    have hpick : (some e').filter (· ∈ e' :: es) = some e' := by simp
    simp only [Loop.retry, none_or, hes, List.head?_cons, if_pos (Nat.not_le.mp hlt), hpick,
      Request.seen, Seen.mk.injEq] at heq
    cases heq.1

/-- REFINES: a request drives the broker by broker steps. -/
theorem stepped_advance : Stepped b (advance b flagged r input).broker := by
  cases hu : r.undecided with
  | none =>
    obtain ⟨b', r', heq, hb, -⟩ := advance_of_decided hu
    rw [heq]; exact hb
  | some c =>
    obtain ⟨l, e, ho⟩ := undecided_iff.mp hu
    rcases ho.advance b input with ⟨b', r', -, hb, heq⟩ | ⟨b', r', -, hb, heq⟩ | ⟨pick, heq⟩
    · rw [heq]; exact hb
    · rw [heq]; exact hb
    · rw [heq]; exact .step b (.disconnect c)

end

end Fallow.Gateway.Transport
