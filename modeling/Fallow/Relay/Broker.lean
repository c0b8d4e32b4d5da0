import Mathlib

/-! The relay broker of `site_relay/broker.py`: rendezvous of offers and claims, and the response
    streams between them.

    No body under the broker's lock awaits, so each locked section is one step. What follows a section
    outside the lock, a blocked stream write or the closing of terminated streams, is a task of its
    own that runs later. Futures and works are numbered in the order they are made; a work stays in
    `heap` after it left `works`, because its exchange still holds it.

        offer ──▶ works ──▶ start_response, write*, finish | fail
          ▲                          │
        claim (waiters)              └─▶ terminate ─▶ close -/

namespace Fallow.Relay
open Function

abbrev Bytes := List UInt8

def maxRequestBytes : ℕ := 2 * 1024 * 1024

def maxResponseChunkBytes : ℕ := 32 * 1024

def maxResponseBufferBytes : ℕ := 256 * 1024

def allowedPaths : List String := ["/v1/chat/completions", "/v1/embeddings"]

def failCodes : List String :=
  ["became_active", "reclaimed", "connect_failed", "timeout", "cancelled", "upstream_error"]

def deadlineExpired : String := "deadline_expired"

def terminalHistory : ℕ := 4096

def lastClaimHistory : ℕ := 1024

/-- Why a late upload is refused. -/
inductive Code where | duplicate | gone | unknown | conflict
  deriving DecidableEq, Repr

inductive RelayError where
  | requestTooLarge
  | state (message : String) (code : Option Code)
  deriving DecidableEq, Repr

structure RelayRequest where
  method : String := "POST"
  path : String := "/v1/chat/completions"
  contentType : String := "application/json"
  body : Bytes := []
  deriving DecidableEq, Repr

/-! ### Response streams -/

structure ResponseStream where
  maxBytes : ℕ
  chunks : List Bytes := []
  buffered : ℕ := 0
  terminal : Option String := none
  firstByte : Bool := false
  deriving DecidableEq, Repr

def ResponseStream.new (maxBytes : ℕ) : ResponseStream :=
  { maxBytes := max maxBytes maxResponseChunkBytes }

/-- A chunk has to wait while others are buffered and it does not fit. -/
def ResponseStream.full (st : ResponseStream) (chunk : Bytes) : Bool :=
  ¬ st.chunks.isEmpty ∧ st.maxBytes < st.buffered + chunk.length

def ResponseStream.push (st : ResponseStream) (chunk : Bytes) : ResponseStream :=
  { st with
    chunks := st.chunks ++ [chunk]
    buffered := st.buffered + chunk.length
    firstByte := true }

def ResponseStream.pop (st : ResponseStream) : ResponseStream :=
  match st.chunks with
  | [] => st
  | chunk :: rest => { st with chunks := rest, buffered := st.buffered - chunk.length }

def ResponseStream.close (st : ResponseStream) (terminal : String) : ResponseStream :=
  match st.terminal with
  | some _ => st
  | none => { st with terminal := some terminal }

/-! ### Works, claims, tasks -/

inductive WorkState where | claimed | responding | finished | failed | invalid
  deriving DecidableEq, Repr

def WorkState.terminal : WorkState → Bool
  | .claimed | .responding => false
  | .finished | .failed | .invalid => true

structure Work where
  agentId : String
  replicaPort : ℕ
  request : RelayRequest
  deadline : ℤ
  generation : ℤ
  state : WorkState := .claimed
  status : ℕ := 200
  contentType : String := "application/json"
  reason : Option String := none
  started : Bool := false
  stream : ResponseStream
  deriving DecidableEq, Repr

inductive Fut where
  | pending
  | result (claim : ℕ)
  | cancelled
  deriving DecidableEq, Repr

def Fut.done : Fut → Bool
  | .pending => false
  | _ => true

def Fut.cancel : Fut → Fut
  | .pending => .cancelled
  | f => f

inductive ClaimPhase where
  | waiting
  | abandoning
  | returned (claim : Option ℕ)
  deriving DecidableEq, Repr

/-- One call of `claim` that passed the fence, with its future. -/
structure ClaimCall where
  agentId : String
  presenceGeneration : ℤ
  fut : Fut := .pending
  phase : ClaimPhase := .waiting
  deriving DecidableEq, Repr

/-- How an agent's most recent claim ended. -/
structure ClaimOutcome where
  outcome : WorkState
  code : Option String
  deriving DecidableEq, Repr

/-- What is left to do outside the lock. -/
inductive Task where
  | write (claim : ℕ) (chunk : Bytes) (deadline : ℤ)
  | expire (claim : ℕ)
  | close (claims : List ℕ) (reason : String) (fence : Option (String × ℤ))
  deriving DecidableEq, Repr

structure Broker where
  maxBuffer : ℕ := maxResponseBufferBytes
  waiters : String → List (ℕ × ℤ) := fun _ => []
  claims : List ClaimCall := []
  heap : List Work := []
  works : List ℕ := []
  generation : String → Option ℤ := fun _ => none
  terminalClass : List (ℕ × Code) := []
  lastClaim : List (String × ClaimOutcome) := []
  tasks : List Task := []
  /-- invalidations that have returned -/
  completed : List (String × ℤ) := []

/-- Set a key, move it to the end and evict the oldest beyond `cap`. -/
def recordLast {κ ν : Type} [DecidableEq κ] (cap : ℕ) (k : κ) (v : ν) (l : List (κ × ν)) :
    List (κ × ν) :=
  let l' := l.filter (·.1 ≠ k) ++ [(k, v)]
  l'.drop (l'.length - cap)

namespace Broker

def modifyFut (b : Broker) (k : ℕ) (f : Fut → Fut) : Broker :=
  { b with claims := b.claims.modify k fun c => { c with fut := f c.fut } }

def setPhase (b : Broker) (k : ℕ) (p : ClaimPhase) : Broker :=
  { b with claims := b.claims.modify k fun c => { c with phase := p } }

def modifyWork (b : Broker) (c : ℕ) (f : Work → Work) : Broker := { b with heap := b.heap.modify c f }

def futDone (b : Broker) (k : ℕ) : Bool := (b.claims[k]?).all (·.fut.done)

/-- Close these streams one by one, then return; with nothing to close the call returns at once. -/
def settle (b : Broker) (claims : List ℕ) (reason : String) (fence : Option (String × ℤ)) : Broker :=
  if claims.isEmpty then { b with completed := b.completed ++ fence.toList }
  else { b with tasks := b.tasks ++ [.close claims reason fence] }

/-- `_terminate`, with the stream to close afterwards. -/
def terminate (b : Broker) (c : ℕ) (state : WorkState) (reason : Option String) : Broker × List ℕ :=
  match b.heap[c]? with
  | none => (b, [])
  | some w =>
    if w.state.terminal then (b, [])
    else
      ({ b with
         heap := b.heap.modify c fun w => { w with state := state, reason := reason, started := true }
         works := b.works.filter (· ≠ c)
         terminalClass := recordLast terminalHistory c
           (if state = .finished then .duplicate else .gone) b.terminalClass
         lastClaim := recordLast lastClaimHistory w.agentId ⟨state, reason⟩ b.lastClaim }, [c])

/-! ### Offers and claims -/

def admissible (request : RelayRequest) : Bool :=
  request.method = "POST" ∧ request.path ∈ allowedPaths ∧ request.contentType = "application/json"

/-- A waiter is stale below the agent's fence. -/
def stale (b : Broker) (agentId : String) (g : ℤ) : Bool := (b.generation agentId).any (g < ·)

def offer (b : Broker) (agentId : String) (replicaPort : ℕ) (request : RelayRequest) (deadline : ℤ) :
    Broker × Except RelayError ℕ :=
  if maxRequestBytes < request.body.length then (b, .error .requestTooLarge)
  else if ¬ admissible request then (b, .error (.state "invalid request" none))
  else match (b.waiters agentId).dropWhile (b.futDone ·.1) with
    | [] => ({ b with waiters := update b.waiters agentId [] },
             .error (.state "no claimant" none))
    | (k, g) :: slots =>
      let b := { b with waiters := update b.waiters agentId slots }
      if b.stale agentId g then (b.modifyFut k Fut.cancel, .error (.state "stale claimant" none))
      else
        let c := b.heap.length
        let w : Work :=
          { agentId := agentId, replicaPort := replicaPort, request := request, deadline := deadline,
            generation := g, stream := .new b.maxBuffer }
        ({ b with heap := b.heap ++ [w], works := b.works ++ [c] }.modifyFut k fun _ => .result c,
         .ok c)

/-- The locked section of `claim`; the answer is the call's future. -/
def claim (b : Broker) (agentId : String) (presenceGeneration : ℤ) : Broker × Except RelayError ℕ :=
  let fence := (b.generation agentId).getD 0
  if presenceGeneration < fence then (b, .error (.state "stale generation" none))
  else
    let k := b.claims.length
    ({ b with
       generation := update b.generation agentId (some (max fence presenceGeneration))
       waiters := update b.waiters agentId
         (b.waiters agentId ++ [(k, presenceGeneration)])
       claims := b.claims ++ [{ agentId := agentId, presenceGeneration := presenceGeneration }] },
     .ok k)

/-- The waiting claim resumes with its work. -/
def resume (b : Broker) (k : ℕ) : Broker :=
  match b.claims[k]? with
  | some { fut := .result c, phase := .waiting, .. } => b.setPhase k (.returned (some c))
  | _ => b

/-- The wait ends in a timeout or a cancellation, which cancels a future still pending. -/
def giveUp (b : Broker) (k : ℕ) : Broker :=
  match b.claims[k]? with
  | some { phase := .waiting, .. } => (b.modifyFut k Fut.cancel).setPhase k .abandoning
  | _ => b

def abandonWaiter (b : Broker) (k : ℕ) : Broker :=
  match b.claims[k]? with
  | some { agentId := a, fut := fut, phase := .abandoning, .. } =>
    let b := { b with waiters := update b.waiters a ((b.waiters a).filter (·.1 ≠ k)) }
    let b := b.setPhase k (.returned none)
    match fut with
    | .result c =>
      let (b, streams) := b.terminate c .failed (some "cancelled")
      b.settle streams "cancelled" none
    | .pending => b.modifyFut k Fut.cancel
    | .cancelled => b
  | _ => b

/-! ### Uploads -/

def check (b : Broker) (agent : String) (claim : ℕ) (generation : ℤ) : Except RelayError Work :=
  match if claim ∈ b.works then b.heap[claim]? else none with
  | none => match b.terminalClass.lookup claim with
    | some .duplicate => .error (.state "claim already completed" (some .duplicate))
    | some .gone => .error (.state "claim gone" (some .gone))
    | _ => .error (.state "unknown claim" (some .unknown))
  | some w =>
    if w.agentId ≠ agent then .error (.state "wrong owner" (some .conflict))
    else if w.generation ≠ generation then .error (.state "stale generation" (some .unknown))
    else .ok w

def expireIfLate (b : Broker) (claim : ℕ) (w : Work) (now : ℤ) : Broker × List ℕ :=
  if w.deadline ≤ now then b.terminate claim .failed (some deadlineExpired) else (b, [])

/-- What the four uploads share: check, expire a late claim, else go on. -/
def upload (b : Broker) (agent : String) (claim : ℕ) (generation now : ℤ)
    (go : Broker → Work → Broker × Except RelayError Unit) : Broker × Except RelayError Unit :=
  match b.check agent claim generation with
  | .error e => (b, .error e)
  | .ok w =>
    let (b, late) := b.expireIfLate claim w now
    if late.isEmpty then go b w
    else (b.settle late deadlineExpired none, .error (.state "deadline expired" (some .gone)))

def startResponse (b : Broker) (agent : String) (claim : ℕ) (generation : ℤ) (status : ℕ)
    (contentType : String) (now : ℤ) : Broker × Except RelayError Unit :=
  b.upload agent claim generation now fun b w =>
    if w.state ≠ .claimed then (b, .error (.state "response already started" none))
    else (b.modifyWork claim fun w =>
      { w with status := status, contentType := contentType, state := .responding, started := true },
      .ok ())

/-- The locked section of `write`; a non-empty chunk goes on to the stream as a task. -/
def write (b : Broker) (agent : String) (claim : ℕ) (generation : ℤ) (chunk : Bytes) (now : ℤ) :
    Broker × Except RelayError Unit :=
  if maxResponseChunkBytes < chunk.length then (b, .error (.state "chunk too large" none))
  else b.upload agent claim generation now fun b w =>
    if w.state ≠ .responding then (b, .error (.state "response not started" none))
    else if chunk.isEmpty then (b, .ok ())
    else ({ b with tasks := b.tasks ++ [.write claim chunk w.deadline] }, .ok ())

def finish (b : Broker) (agent : String) (claim : ℕ) (generation now : ℤ) :
    Broker × Except RelayError Unit :=
  b.upload agent claim generation now fun b w =>
    if w.state ≠ .responding then (b, .error (.state "response not started" none))
    else
      let (b, streams) := b.terminate claim .finished none
      (b.settle streams "eof" none, .ok ())

def fail (b : Broker) (agent : String) (claim : ℕ) (generation : ℤ) (code : String) (now : ℤ) :
    Broker × Except RelayError Unit :=
  if code ∉ failCodes then (b, .error (.state "invalid failure" none))
  else b.upload agent claim generation now fun b _ =>
    let (b, streams) := b.terminate claim .failed (some code)
    (b.settle streams code none, .ok ())

def hasPending (b : Broker) (agentId : String) : Bool :=
  b.works.any (fun c => (b.heap[c]?).any (·.agentId = agentId)) ||
    (b.waiters agentId).any fun e => ¬ b.futDone e.1

/-- The live works of an agent below a generation. -/
def outdated (b : Broker) (agentId : String) (newer : ℤ) : List ℕ :=
  b.works.filter fun c => (b.heap[c]?).any fun w => w.agentId = agentId ∧ w.generation < newer

def terminateAll (reason : String) : List ℕ → Broker → Broker × List ℕ
  | [], b => (b, [])
  | c :: cs, b =>
    let (b, streams) := b.terminate c .invalid (some reason)
    let (b, rest) := terminateAll reason cs b
    (b, streams ++ rest)

def cancelAll : List ℕ → Broker → Broker
  | [], b => b
  | k :: ks, b => cancelAll ks (b.modifyFut k Fut.cancel)

def invalidateAgent (b : Broker) (agentId : String) (newer : ℤ) (reason : String) : Broker :=
  let b := { b with
    generation := update b.generation agentId
      (some (max ((b.generation agentId).getD 0) newer)) }
  let (b, streams) := terminateAll reason (b.outdated agentId newer) b
  let dropped := (b.waiters agentId).filter fun e => decide (e.2 < newer)
  let kept := (b.waiters agentId).filter fun e => ¬ e.2 < newer
  let b := cancelAll (dropped.map (·.1)) { b with waiters := update b.waiters agentId kept }
  b.settle streams reason (some (agentId, newer))

def disconnect (b : Broker) (claim : ℕ) : Broker :=
  let (b, streams) := b.terminate claim .invalid (some "client_disconnect")
  b.settle streams "client_disconnect" none

/-- The exchange reads one chunk. -/
def read (b : Broker) (claim : ℕ) : Broker :=
  b.modifyWork claim fun w => { w with stream := w.stream.pop }

/-! ### Tasks -/

/-- `_ResponseStream.write`: wait while full, give up on a terminal stream or a passed deadline. -/
def runWrite (b : Broker) (n claim : ℕ) (chunk : Bytes) (deadline now : ℤ) : Broker :=
  match b.heap[claim]? with
  | none => b
  | some w =>
    if w.stream.terminal.isSome then { b with tasks := b.tasks.eraseIdx n }
    else if deadline ≤ now then { b with tasks := b.tasks.set n (.expire claim) }
    else if w.stream.full chunk then b
    else { b with tasks := b.tasks.eraseIdx n }.modifyWork claim fun w =>
      { w with stream := w.stream.push chunk }

/-- `_deadline_terminate`. -/
def runExpire (b : Broker) (n claim : ℕ) : Broker :=
  let b := { b with tasks := b.tasks.eraseIdx n }
  if claim ∈ b.works then
    let (b, streams) := b.terminate claim .failed (some deadlineExpired)
    b.settle streams deadlineExpired none
  else b

/-- Close the next stream; the call returns after the last. -/
def runClose (b : Broker) (n : ℕ) (claims : List ℕ) (reason : String)
    (fence : Option (String × ℤ)) : Broker :=
  match claims with
  | [] => { b with tasks := b.tasks.eraseIdx n, completed := b.completed ++ fence.toList }
  | c :: cs =>
    let b := b.modifyWork c fun w => { w with stream := w.stream.close reason }
    if cs.isEmpty then
      { b with tasks := b.tasks.eraseIdx n, completed := b.completed ++ fence.toList }
    else { b with tasks := b.tasks.set n (.close cs reason fence) }

def runTask (b : Broker) (n : ℕ) (now : ℤ) : Broker :=
  match b.tasks[n]? with
  | none => b
  | some (.write claim chunk deadline) => b.runWrite n claim chunk deadline now
  | some (.expire claim) => b.runExpire n claim
  | some (.close claims reason fence) => b.runClose n claims reason fence

end Broker

/-! ### Steps -/

inductive Act where
  | offer (agentId : String) (replicaPort : ℕ) (request : RelayRequest) (deadline : ℤ)
  | claim (agentId : String) (presenceGeneration : ℤ)
  | resume (k : ℕ)
  | giveUp (k : ℕ)
  | abandonWaiter (k : ℕ)
  | startResponse (agent : String) (claim : ℕ) (generation : ℤ) (status : ℕ) (contentType : String)
      (now : ℤ)
  | write (agent : String) (claim : ℕ) (generation : ℤ) (chunk : Bytes) (now : ℤ)
  | finish (agent : String) (claim : ℕ) (generation now : ℤ)
  | fail (agent : String) (claim : ℕ) (generation : ℤ) (code : String) (now : ℤ)
  | invalidateAgent (agentId : String) (newer : ℤ) (reason : String)
  | disconnect (claim : ℕ)
  | read (claim : ℕ)
  | runTask (n : ℕ) (now : ℤ)
  deriving DecidableEq, Repr

def step (b : Broker) : Act → Broker
  | .offer a port request deadline => (b.offer a port request deadline).1
  | .claim a g => (b.claim a g).1
  | .resume k => b.resume k
  | .giveUp k => b.giveUp k
  | .abandonWaiter k => b.abandonWaiter k
  | .startResponse agent c g status contentType now =>
    (b.startResponse agent c g status contentType now).1
  | .write agent c g chunk now => (b.write agent c g chunk now).1
  | .finish agent c g now => (b.finish agent c g now).1
  | .fail agent c g code now => (b.fail agent c g code now).1
  | .invalidateAgent a newer reason => b.invalidateAgent a newer reason
  | .disconnect c => b.disconnect c
  | .read c => b.read c
  | .runTask n now => b.runTask n now

end Fallow.Relay
