import Fallow.Gateway.RelayTransport

/-! The whole life of gateway requests: admission, attempts, the streamed body, the slots they hold
    and the log entry they leave.

    Many requests share one tracker and one log. A request is cut at its awaits; what an await gives,
    a value, an exception or a cancellation, is an `Answer` from outside. All code between two awaits
    is one step.

        admitting ─▶ attempting ─▶ … ─▶ answered
           │             │ ▲  └─▶ opened ─▶ iterating ─▶ closing ─▶ answered
           ▼             ▼ └── repick, once
          shed         raised

    A slot is taken before each attempt. It is given back after a failed attempt, after a buffered
    answer, and at the very end of the body's generator; the entry of a streamed answer is written
    there too. An exception that leaves the loop passes neither place, nor does a body that is never
    iterated, nor one whose close raises. -/

namespace Fallow.Gateway.Lifecycle
open Registry Lib

export Transport (Mode)

/-! ### What an await gives -/

/-- The exceptions of the HTTP client. -/
inductive HttpError where
  | connectError | connectTimeout | readTimeout | writeTimeout | poolTimeout
  | readError | writeError | closeError | localProtocolError | remoteProtocolError | proxyError
  | unsupportedProtocol | decodingError | tooManyRedirects
  | invalidUrl | streamError
  deriving DecidableEq, Repr

/-- `_RETRYABLE_ERRORS`. -/
def HttpError.retryable : HttpError → Bool
  | .connectError | .connectTimeout | .readTimeout | .writeTimeout | .poolTimeout => true
  | _ => false

/-- A subclass of `httpx.HTTPError`. -/
def HttpError.isHttpError : HttpError → Bool
  | .invalidUrl | .streamError => false
  | _ => true

inductive Answer where
  /-- a probe found a replica among its candidates -/
  | admitted (endpoint : ReplicaEndpoint) (candidates : List ReplicaEndpoint)
  /-- overflow, or a timeout, of the waiting room -/
  | refused
  | probeRaised
  /-- the persisted transport of the agent -/
  | route (site : Bool)
  | noClaimant
  | status (code : ℕ)
  | done
  | error (e : HttpError)
  /-- `wait_for` gave up -/
  | timeout
  /-- a relay failure before the first byte, with the agent's word that it is final -/
  | relayFailed (nonretryable : Bool)
  | cancelled
  /-- the server drops a response without asking for its body -/
  | dropped
  deriving DecidableEq, Repr

/-! ### One attempt -/

/-- The awaits of one attempt, on either transport. -/
inductive Stage where
  | routing
  | requesting
  | sending
  | readingError (status : ℕ)
  | closingError (status : ℕ)
  | awaitingFirst (status : ℕ)
  | closingFirst
  | draining
  | awaitingRelay
  | drainingError (status : ℕ)
  deriving DecidableEq, Repr

/-- What `try_once` returns. -/
inductive Outcome where
  | passThrough (status : ℕ)
  | stream (via : Via) (status : ℕ)
  | retry (passthrough : Option ℕ)
  deriving DecidableEq, Repr

/-- Where an answer leads: to the next await, out of the attempt, or out of the loop. -/
inductive Verdict where
  | next (stage : Stage)
  | outcome (o : Outcome)
  | raised
  /-- an answer this await cannot get -/
  | none
  deriving DecidableEq, Repr

def directStage : Mode → Stage
  | .buffered => .requesting
  | .stream => .sending

def relayStage : Mode → Stage
  | .buffered => .draining
  | .stream => .awaitingRelay

/-- `_on_failure`. -/
def onFailure (nonretryable : Bool) : Outcome :=
  if nonretryable then .passThrough serverError else .retry none

/-- `_try_buffered`, `_try_stream`, `_first_chunk` and their counterparts over the relay. -/
def Stage.answer (mode : Mode) : Stage → Answer → Verdict
  | .routing, .route site => .next (if site then relayStage mode else directStage mode)
  | .routing, .noClaimant => .outcome (.retry none)
  | .routing, .error _ | .routing, .cancelled => .raised
  | .requesting, .status code =>
    .outcome (if serverError ≤ code then .retry (some code) else .passThrough code)
  | .requesting, .error e | .sending, .error e =>
    if e.retryable then .outcome (.retry none) else .raised
  | .requesting, .cancelled | .sending, .cancelled => .raised
  | .sending, .status code =>
    .next (if serverError ≤ code then .readingError code else .awaitingFirst code)
  | .readingError code, .done => .next (.closingError code)
  | .readingError _, .error _ | .readingError _, .cancelled => .raised
  | .closingError code, .done => .outcome (.retry (some code))
  | .closingError _, .error _ | .closingError _, .cancelled => .raised
  -- a chunk, or the end of an empty body
  | .awaitingFirst code, .done => .outcome (.stream .direct code)
  | .awaitingFirst _, .timeout => .next .closingFirst
  | .awaitingFirst _, .error e => if e.isHttpError then .next .closingFirst else .raised
  | .awaitingFirst _, .cancelled => .raised
  | .closingFirst, .done => .outcome (.retry none)
  | .closingFirst, .error _ | .closingFirst, .cancelled => .raised
  | .draining, .status code =>
    .outcome (if serverError ≤ code then .retry (some code) else .passThrough code)
  | .draining, .relayFailed f | .awaitingRelay, .relayFailed f => .outcome (onFailure f)
  | .awaitingRelay, .status code =>
    if serverError ≤ code then .next (.drainingError code) else .outcome (.stream .relay code)
  | .drainingError code, .done => .outcome (.retry (some code))
  | .draining, .cancelled | .awaitingRelay, .cancelled | .drainingError _, .cancelled => .raised
  | _, _ => .none

/-! ### Requests, slots and entries -/

inductive LogStatus where | served | shed | error | cancelled
  deriving DecidableEq, Repr

/-- The disposition of a request, as far as it depends on its way through the gateway. -/
structure GatewayLogEntry where
  agentId : Option String
  status : LogStatus
  retried : Bool := false
  deriving DecidableEq, Repr

/-- `InflightHold`, with the number of times it gave its slot back. -/
structure InflightHold where
  key : String × ℕ
  releases : ℕ := 0
  deriving DecidableEq, Repr

inductive BodyStage where | opened | iterating | closing
  deriving DecidableEq, Repr

inductive Phase where
  | admitting
  | attempting (endpoint : ReplicaEndpoint) (stage : Stage)
  | streaming (endpoint : ReplicaEndpoint) (via : Via) (stage : BodyStage)
  | ended
  deriving DecidableEq, Repr

/-- A request with what its loop carries and every slot it took, newest first. -/
structure Request where
  mode : Mode
  candidates : List ReplicaEndpoint := []
  tried : List (String × ℕ) := []
  attempts : ℕ := 0
  last5xx : Option (ReplicaEndpoint × ℕ) := none
  holds : List InflightHold := []
  phase : Phase := .admitting
  deriving DecidableEq, Repr

structure Config where
  /-- Site Mode: the transport asks for the agent's route first -/
  siteMode : Bool := false
  /-- `admission_timeout_s` is 0: one probe, no waiting room -/
  immediate : Bool := false
  deriving DecidableEq, Repr

def Config.firstStage (cfg : Config) (mode : Mode) : Stage :=
  if cfg.siteMode then .routing else directStage mode

/-- What one step of a request does to the tracker and the log. -/
structure Effect where
  request : Request
  tracker : Tracker
  entries : List GatewayLogEntry := []

namespace Request

def retried (r : Request) : Bool := 1 < r.attempts

/-- `InflightHold.release` of the newest slot; a second release does nothing. -/
def release (r : Request) (t : Tracker) : Request × Tracker :=
  match r.holds with
  | [] => (r, t)
  | h :: hs =>
    if h.releases = 0 then ({ r with holds := { h with releases := 1 } :: hs }, t.release h.key)
    else (r, t)

/-- `tracker.hold`, then the attempt. -/
def attempt (cfg : Config) (r : Request) (t : Tracker) (e : ReplicaEndpoint) : Effect where
  request := { r with
    attempts := r.attempts + 1
    holds := ⟨address e, 0⟩ :: r.holds
    phase := .attempting e (cfg.firstStage r.mode) }
  tracker := t.hold (address e)

/-- The request has an answer, and its entry is written. -/
def respond (r : Request) (t : Tracker) (entry : GatewayLogEntry) : Effect :=
  ⟨{ r with phase := .ended }, t, [entry]⟩

/-- `_buffered`. -/
def buffered (r : Request) (t : Tracker) (e : ReplicaEndpoint) (status : ℕ) : Effect :=
  r.respond t ⟨some e.agentId, if serverError ≤ status then .error else .served, r.retried⟩

/-- The loop's exit once the attempts are spent. -/
def exhausted (r : Request) (t : Tracker) : Effect :=
  match r.last5xx with
  | some (e, status) => r.buffered t e status
  | none => r.respond t ⟨none, .error, r.retried⟩

/-- The endpoint of a failed attempt is noted, with its 5xx if it gave one. -/
def failed (r : Request) (e : ReplicaEndpoint) (passthrough : Option ℕ) : Request :=
  { r with last5xx := (passthrough.map (e, ·)).or r.last5xx, tried := r.tried ++ [address e] }

/-- The loop goes on with the scheduler's pick among the untried, while attempts are left. -/
def repick (cfg : Config) (r : Request) (t : Tracker) (pick : Option ReplicaEndpoint) : Effect :=
  if r.attempts < maxAttempts then
    match pick.filter (· ∈ remaining r.candidates r.tried) with
    | some e => r.attempt cfg t e
    | none => r.exhausted t
  else r.exhausted t

/-- `_run_attempts` once `try_once` has returned, with `_as_success` and `_respond`. -/
def returned (cfg : Config) (r : Request) (t : Tracker) (e : ReplicaEndpoint)
    (pick : Option ReplicaEndpoint) : Outcome → Effect
  | .retry passthrough =>
    ((r.release t).1.failed e passthrough).repick cfg (r.release t).2 pick
  | .passThrough status => (r.release t).1.buffered (r.release t).2 e status
  | .stream via _ => ⟨{ r with phase := .streaming e via .opened }, t, []⟩

/-- An exception leaves the request: neither slot nor entry. -/
def raised (r : Request) (t : Tracker) : Effect := ⟨{ r with phase := .ended }, t, []⟩

/-- The last lines of the body's generator. -/
def finalized (r : Request) (t : Tracker) (e : ReplicaEndpoint) : Effect :=
  (r.release t).1.respond (r.release t).2 ⟨some e.agentId, .served, r.retried⟩

/-- The generator is left, by its end, an error, a timer or the client: `finally`. The exchange of a
    relayed body closes without an await. -/
def leave (r : Request) (t : Tracker) (e : ReplicaEndpoint) : Via → Effect
  | .direct => ⟨{ r with phase := .streaming e .direct .closing }, t, []⟩
  | .relay => r.finalized t e

def body (r : Request) (t : Tracker) (e : ReplicaEndpoint) (via : Via) : BodyStage → Answer → Effect
  | .opened, .done => ⟨{ r with phase := .streaming e via .iterating }, t, []⟩
  | .opened, .dropped | .opened, .cancelled => r.raised t
  | .iterating, .done | .iterating, .timeout | .iterating, .error _ | .iterating, .cancelled
  | .iterating, .dropped => r.leave t e via
  | .closing, .done => r.finalized t e
  | .closing, .error _ | .closing, .cancelled => r.raised t
  | _, _ => ⟨r, t, []⟩

/-- `_route` up to the first attempt. -/
def admission (cfg : Config) (r : Request) (t : Tracker) : Answer → Effect
  | .admitted e candidates => { r with candidates := candidates }.attempt cfg t e
  | .refused => r.respond t ⟨none, .shed, false⟩
  | .probeRaised => r.raised t
  -- only the waiting room turns a cancellation into one that is logged
  | .cancelled => if cfg.immediate then r.raised t else r.respond t ⟨none, .cancelled, false⟩
  | _ => ⟨r, t, []⟩

/-- A request goes on with an answer. -/
def resume (cfg : Config) (r : Request) (t : Tracker) (a : Answer) (pick : Option ReplicaEndpoint) :
    Effect :=
  match r.phase with
  | .admitting => r.admission cfg t a
  | .attempting e stage => match stage.answer r.mode a with
    | .next stage' => ⟨{ r with phase := .attempting e stage' }, t, []⟩
    | .outcome o => r.returned cfg t e pick o
    | .raised => r.raised t
    | .none => ⟨r, t, []⟩
  | .streaming e via stage => r.body t e via stage a
  | .ended => ⟨r, t, []⟩

end Request

/-! ### The gateway -/

structure State where
  tracker : Tracker := fun _ => 0
  requests : List Request := []
  /-- entries in order, each with the request it is of -/
  log : List (ℕ × GatewayLogEntry) := []

inductive Act where
  | arrive (mode : Mode)
  | resume (i : ℕ) (a : Answer) (pick : Option ReplicaEndpoint)
  deriving DecidableEq, Repr

/-- What a step of request `i` does to the gateway. -/
def State.apply (s : State) (i : ℕ) (e : Effect) : State where
  tracker := e.tracker
  requests := s.requests.set i e.request
  log := s.log ++ e.entries.map (i, ·)

def step (cfg : Config) (s : State) : Act → State
  | .arrive mode => { s with requests := s.requests ++ [{ mode := mode }] }
  | .resume i a pick => match s.requests[i]? with
    | none => s
    | some r => s.apply i (r.resume cfg s.tracker a pick)

/-! ### What one answer can do

    `Request.leaks` and `Request.lost` are read off the sources' `except` clauses; `resume_cases`
    says that every other answer moves the request in one of six ways. -/

/-- The exceptions that no clause of `try_once` catches at this await. -/
def Stage.uncaught : Stage → Answer → Bool
  | _, .cancelled => true
  | .requesting, .error e | .sending, .error e => !e.retryable
  | .awaitingFirst _, .error e => !e.isHttpError
  | .routing, .error _ | .readingError _, .error _ | .closingError _, .error _
  | .closingFirst, .error _ => true
  | _, _ => false

theorem Stage.answer_raised_iff {stage : Stage} :
    stage.answer mode a = .raised ↔ stage.uncaught a = true := by
  cases stage <;> cases a <;> simp [Stage.answer, Stage.uncaught]
  all_goals split <;> simp_all

namespace Request

/-- The answer ends the request while it holds a slot, and nothing gives the slot back. -/
def leaks (r : Request) (a : Answer) : Bool :=
  match r.phase, a with
  | .attempting _ stage, a => stage.uncaught a
  | .streaming _ _ .opened, .dropped | .streaming _ _ .opened, .cancelled
  | .streaming _ _ .closing, .error _ | .streaming _ _ .closing, .cancelled => true
  | _, _ => false

/-- The answer ends the request in admission, past the entry. -/
def lost (cfg : Config) (r : Request) (a : Answer) : Bool :=
  match r.phase, a with
  | .admitting, .probeRaised => true
  | .admitting, .cancelled => cfg.immediate
  | _, _ => false

end Request

/-- The endpoint a request has an unfinished attempt or stream on. -/
def Phase.occupied : Phase → Option (String × ℕ)
  | .attempting e _ | .streaming e _ _ => some (address e)
  | .admitting | .ended => none

theorem Phase.ne_ended_of_occupied {p : Phase} (hk : p.occupied = some k) : p ≠ .ended := by
  rintro rfl
  cases hk

/-- What an answer that neither leaks nor is lost does. -/
inductive Move (r : Request) (t : Tracker) : Effect → Prop where
  | idle : Move r t ⟨r, t, []⟩
  | goes {k : String × ℕ} {phase : Phase} (hk : r.phase.occupied = some k)
      (hp : phase.occupied = some k) : Move r t ⟨{ r with phase := phase }, t, []⟩
  | admits {r' : Request} {k : String × ℕ} (ha : r.phase = .admitting)
      (hh : r'.holds = ⟨k, 0⟩ :: r.holds) (hp : r'.phase.occupied = some k) :
      Move r t ⟨r', t.hold k, []⟩
  | refuses {entry : GatewayLogEntry} (ha : r.phase = .admitting) : Move r t (r.respond t entry)
  | repicks {r' : Request} {k k' : String × ℕ} (hk : r.phase.occupied = some k)
      (hh : r'.holds = ⟨k', 0⟩ :: (r.release t).1.holds) (hp : r'.phase.occupied = some k') :
      Move r t ⟨r', (r.release t).2.hold k', []⟩
  | settles {r' : Request} {k : String × ℕ} {entry : GatewayLogEntry}
      (hk : r.phase.occupied = some k) (hh : r'.holds = (r.release t).1.holds)
      (hp : r'.phase = .ended) : Move r t ⟨r', (r.release t).2, [entry]⟩

namespace Request

variable {cfg : Config} {r : Request} {t : Tracker} {a : Answer} {pick : Option ReplicaEndpoint}

theorem exhausted_eq : ∃ entry, r.exhausted t = r.respond t entry := by
  unfold exhausted
  split
  · exact ⟨_, rfl⟩
  · exact ⟨_, rfl⟩

/-- A failed attempt with its slot back: another attempt, or the entry. -/
theorem repick_cases (cfg : Config) (r : Request) (t : Tracker) (pick : Option ReplicaEndpoint) :
    (∃ e, r.repick cfg t pick = r.attempt cfg t e) ∨
      ∃ entry, r.repick cfg t pick = r.respond t entry := by
  unfold repick
  split
  · split
    · exact .inl ⟨_, rfl⟩
    · exact .inr exhausted_eq
  · exact .inr exhausted_eq

variable {e : ReplicaEndpoint} {via : Via}

section
variable (hk : r.phase.occupied = some (address e))
include hk

theorem returned_moves (o : Outcome) : Move r t (r.returned cfg t e pick o) := by
  cases o with
  | passThrough status => exact .settles hk rfl rfl
  | stream via status => exact .goes hk rfl
  | retry passthrough =>
    obtain ⟨e', h⟩ | ⟨entry, h⟩ :=
      repick_cases cfg ((r.release t).1.failed e passthrough) (r.release t).2 pick
    · simp only [returned, h]
      exact .repicks hk rfl rfl
    · simp only [returned, h]
      exact .settles hk rfl rfl

theorem finalized_moves : Move r t (r.finalized t e) := .settles hk rfl rfl

theorem leave_moves : Move r t (r.leave t e via) := by
  cases via with
  | direct => exact .goes hk rfl
  | relay => exact finalized_moves hk

end

theorem body_moves (hp : r.phase = .streaming e via stage) (hl : r.leaks a = false) :
    Move r t (r.body t e via stage a) := by
  have hk : r.phase.occupied = some (address e) := by rw [hp]; rfl
  cases stage with
  | opened =>
    cases a
    case done => exact .goes hk rfl
    case dropped | cancelled => simp [leaks, hp] at hl
    all_goals exact .idle
  | iterating =>
    cases a
    case done | timeout | error | cancelled | dropped => exact leave_moves hk
    all_goals exact .idle
  | closing =>
    cases a
    case done => exact finalized_moves hk
    case error | cancelled => simp [leaks, hp] at hl
    all_goals exact .idle

theorem admission_moves (hp : r.phase = .admitting) (hl : r.lost cfg a = false) :
    Move r t (r.admission cfg t a) := by
  cases a
  case admitted e candidates => exact .admits hp rfl rfl
  case refused => exact .refuses hp
  case probeRaised => simp [lost, hp] at hl
  case cancelled =>
    have hi : cfg.immediate = false := by simpa [lost, hp] using hl
    simp only [admission, hi]
    exact .refuses hp
  all_goals exact .idle

/-- INVERSION: an answer that neither leaks nor is lost makes one of the moves. -/
theorem resume_cases (hl : r.leaks a = false) (hf : r.lost cfg a = false) :
    Move r t (r.resume cfg t a pick) := by
  unfold resume
  split
  case h_1 hp => exact admission_moves hp hf
  case h_2 e stage hp =>
    have hk : r.phase.occupied = some (address e) := by rw [hp]; rfl
    split
    · exact .goes hk rfl
    · exact returned_moves hk _
    · next h =>
      rw [Stage.answer_raised_iff] at h
      simp [leaks, hp, h] at hl
    · exact .idle
  case h_3 hp => exact body_moves hp hl
  case h_4 => exact .idle

theorem resume_of_leaks (hl : r.leaks a = true) : r.resume cfg t a pick = r.raised t := by
  unfold leaks at hl
  split at hl
  · next e stage hp => simp only [resume, hp, Stage.answer_raised_iff.2 hl]
  all_goals first | (next hp => simp only [resume, hp, body]) | cases hl

theorem resume_of_lost (hl : r.lost cfg a = true) : r.resume cfg t a pick = r.raised t := by
  unfold lost at hl
  split at hl
  · next hp => simp only [resume, hp, admission]
  · next hp => simp only [resume, hp, admission, hl, if_true]
  · cases hl

/-- Only a request with a slot can leak it. -/
theorem occupied_of_leaks (hl : r.leaks a = true) : ∃ k, r.phase.occupied = some k := by
  cases hp : r.phase with
  | attempting e stage | streaming e via stage => exact ⟨_, rfl⟩
  | admitting | ended => simp [leaks, hp] at hl

theorem admitting_of_lost (hl : r.lost cfg a = true) : r.phase = .admitting := by
  unfold lost at hl
  split at hl
  all_goals first | assumption | cases hl

end Request

end Fallow.Gateway.Lifecycle
