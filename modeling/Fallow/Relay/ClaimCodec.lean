import Fallow.Lib.Base64
import Fallow.Lib.Json
import Fallow.Lib.Round
import Fallow.Relay.Broker

/-! The relay claim on the wire: written by the coordinator, read by the agent.

    The coordinator renders a granted claim as compact JSON with the request body in base64. The agent
    reads at most `maxClaimBody` bytes of it, decodes strictly, validates and unpacks the body. Every
    text in a claim is ASCII, so a character of the list is a byte of the response.

        _claim_payload ─▶ JSON ─▶ LimitReader(64 KiB) ─▶ DecodeClaim ─▶ runClaim

    The broker admits bodies of 2 MiB; the reader cuts the text of any body over about 48 KiB, and the
    beginning of a record is no record. -/

namespace Fallow.Relay
open Lib List Option Broker Json

/-- A claim id as `uuid4().hex` writes it. -/
structure ClaimId where
  hex : List Char
  length : hex.length = 32
  digits : ∀ c ∈ hex, c ∈ "0123456789abcdef".toList

/-- Thirty-two zeros. -/
def ClaimId.zero : ClaimId :=
  ⟨replicate 32 '0', rfl, fun c hc => by rw [eq_of_mem_replicate hc]; decide⟩

/-! ### The coordinator -/

/-- A granted claim. -/
structure RelayClaim where
  claimId : ClaimId
  presenceGeneration : ℕ
  replicaPort : ℕ
  request : RelayRequest
  deadline : ℚ

def deadlineMsMax : ℤ := 300000

def claimPayload (monotonic : ℚ) (claim : RelayClaim) : List Json.Member :=
  let remainingMs := roundHalfEven ((claim.deadline - monotonic) * 1000)
  let deadlineMs := max 1 (min deadlineMsMax remainingMs)
  [("version".toList, .int 1),
   ("claim_id".toList, .str claim.claimId.hex),
   ("presence_generation".toList, .int claim.presenceGeneration),
   ("replica_port".toList, .int claim.replicaPort),
   ("method".toList, .str claim.request.method.toList),
   ("path".toList, .str claim.request.path.toList),
   ("content_type".toList, .str claim.request.contentType.toList),
   ("body_b64".toList, .str (Base64.encode claim.request.body)),
   ("deadline_ms".toList, .int deadlineMs)]

/-- The body of the response to a claim call. -/
def claimJson (monotonic : ℚ) (claim : RelayClaim) : List Char := render (claimPayload monotonic claim)

/-! ### The agent -/

def maxClaimBody : ℕ := 64 * 1024

def maxRequestBody : ℕ := 2 * 1024 * 1024

/-- The agent's claim, every field zero until it is set. -/
structure Claim where
  version : ℤ := 0
  claimId : List Char := []
  presenceGeneration : ℤ := 0
  replicaPort : ℤ := 0
  method : List Char := []
  path : List Char := []
  contentType : List Char := []
  bodyB64 : List Char := []
  deadlineMs : ℤ := 0
  deriving DecidableEq, Repr

inductive Field where
  | version | claimId | presenceGeneration | replicaPort | method | path | contentType | bodyB64
  | deadlineMs
  deriving DecidableEq, Repr

def fields : List (List Char × Field) :=
  [("version".toList, .version), ("claim_id".toList, .claimId),
   ("presence_generation".toList, .presenceGeneration), ("replica_port".toList, .replicaPort),
   ("method".toList, .method), ("path".toList, .path), ("content_type".toList, .contentType),
   ("body_b64".toList, .bodyB64), ("deadline_ms".toList, .deadlineMs)]

/-- The decoder matches field names without regard to case, under simple Unicode folding. -/
def foldRune (c : Char) : Char :=
  if 65 ≤ c.toNat ∧ c.toNat ≤ 90 then Char.ofNat (c.toNat + 32)
  else if c.toNat = 0x212A then 'k'
  else if c.toNat = 0x17F then 's'
  else c

def fieldOf (k : List Char) : Option Field := fields.lookup (k.map foldRune)

def fitsInt64 (n : ℤ) : Bool := -2 ^ 63 ≤ n ∧ n < 2 ^ 63

def setInt (n : ℤ) (c : Claim) : Option Claim := if fitsInt64 n then some c else none

/-- Set one field; a null leaves it alone, a value of the wrong kind is an error. -/
def setField (c : Claim) : Field → Json.Scalar → Option Claim
  | _, .null => some c
  | .version, .int n => setInt n { c with version := n }
  | .presenceGeneration, .int n => setInt n { c with presenceGeneration := n }
  | .replicaPort, .int n => setInt n { c with replicaPort := n }
  | .deadlineMs, .int n => setInt n { c with deadlineMs := n }
  | .claimId, .str s => some { c with claimId := s }
  | .method, .str s => some { c with method := s }
  | .path, .str s => some { c with path := s }
  | .contentType, .str s => some { c with contentType := s }
  | .bodyB64, .str s => some { c with bodyB64 := s }
  | _, _ => none

/-- Unknown fields are an error. -/
def decodeMember (c : Claim) (m : Json.Member) : Option Claim := (fieldOf m.1).bind (setField c · m.2)

/-- The number of bytes of a text. -/
def byteLength (s : List Char) : ℕ := (s.map fun c => c.utf8Size).sum

def validate (c : Claim) : Bool :=
  c.version = 1 ∧ ¬ byteLength c.claimId < 16 ∧ ¬ 128 < byteLength c.claimId ∧
  ¬ c.presenceGeneration < 0 ∧ ¬ c.replicaPort < 1 ∧ ¬ 65535 < c.replicaPort ∧
  c.method = "POST".toList ∧ c.contentType = "application/json".toList ∧
  ¬ c.deadlineMs < 1 ∧ ¬ 300000 < c.deadlineMs ∧
  (c.path = "/v1/chat/completions".toList ∨ c.path = "/v1/embeddings".toList)

/-- `DecodeClaim`: one record and nothing after it, known fields only, then the checks. -/
def decodeClaim (body : List Char) : Option Claim := do
  let ms ← parse body
  let c ← ms.foldlM decodeMember {}
  if validate c then some c else none

/-- What the agent is about to send to its replica, and the claim it answers. -/
structure Received where
  claimId : List Char
  presenceGeneration : ℤ
  replicaPort : ℤ
  method : List Char
  path : List Char
  contentType : List Char
  body : Bytes
  deriving DecidableEq, Repr

/-- `relayClient.Claim` on a 200 response, then the unpacking in `runClaim`. -/
def receive (response : List Char) : Option Received := do
  let c ← decodeClaim (response.take maxClaimBody)
  if ¬ validate c then none
  let body ← Base64.decode c.bodyB64
  if maxRequestBody < body.length then none
  return { claimId := c.claimId, presenceGeneration := c.presenceGeneration,
           replicaPort := c.replicaPort, method := c.method, path := c.path,
           contentType := c.contentType, body := body }

/-! ### Decoding a rendered claim -/

/-- The milliseconds a claim is sent with. -/
def deadlineMs (monotonic : ℚ) (claim : RelayClaim) : ℤ :=
  max 1 (min deadlineMsMax (roundHalfEven ((claim.deadline - monotonic) * 1000)))

theorem deadlineMs_bounds (monotonic : ℚ) (claim : RelayClaim) :
    1 ≤ deadlineMs monotonic claim ∧ deadlineMs monotonic claim ≤ 300000 := by
  unfold deadlineMs deadlineMsMax
  omega

/-- The claim as the agent should hold it. -/
def expectedClaim (monotonic : ℚ) (claim : RelayClaim) : Claim where
  version := 1
  claimId := claim.claimId.hex
  presenceGeneration := claim.presenceGeneration
  replicaPort := claim.replicaPort
  method := claim.request.method.toList
  path := claim.request.path.toList
  contentType := claim.request.contentType.toList
  bodyB64 := Base64.encode claim.request.body
  deadlineMs := deadlineMs monotonic claim

theorem setInt_of_fits (h : 0 ≤ n) (h' : n < 2 ^ 63) : setInt n c = some c := by
  unfold setInt
  rw [if_pos]
  simp only [fitsInt64, decide_eq_true_eq]
  omega

/-- A field's own name finds it. -/
theorem fieldOf_name : ∀ f ∈ fields, fieldOf f.1 = some f.2 := by decide

variable {k : List Char} {f : Field}

/-- Decoding goes through a record member by member. -/
theorem decodeMembers_cons (hk : (k, f) ∈ fields) (v : Json.Scalar)
    (ms : List Json.Member) (c : Claim) :
    ((k, v) :: ms).foldlM decodeMember c = (setField c f v).bind (ms.foldlM decodeMember ·) := by
  rw [foldlM_cons, decodeMember, fieldOf_name _ hk]
  rfl

theorem decodeMembers_int (hk : (k, f) ∈ fields) (hn : 0 ≤ n)
    (hn' : n < 2 ^ 63) (hset : setField c f (.int n) = setInt n c') (ms : List Json.Member) :
    ((k, .int n) :: ms).foldlM decodeMember c = ms.foldlM decodeMember c' := by
  rw [decodeMembers_cons hk, hset, setInt_of_fits hn hn', bind_some]

theorem decodeMembers_str (hk : (k, f) ∈ fields)
    (hset : setField c f (.str s) = some c') (ms : List Json.Member) :
    ((k, .str s) :: ms).foldlM decodeMember c = ms.foldlM decodeMember c' := by
  rw [decodeMembers_cons hk, hset, bind_some]

variable {claim : RelayClaim}

/-- Every member sets its field, the generation only as far as it fits 64 bits. -/
theorem foldlM_claimPayload (monotonic : ℚ) (hport : claim.replicaPort ≤ 65535) :
    (claimPayload monotonic claim).foldlM decodeMember {} =
      if claim.presenceGeneration < 2 ^ 63 then some (expectedClaim monotonic claim) else none := by
  obtain ⟨hlo, hhi⟩ := deadlineMs_bounds monotonic claim
  rw [claimPayload, decodeMembers_int (f := .version) (by decide) (by omega) (by omega) rfl,
    decodeMembers_str (f := .claimId) (by decide) rfl]
  by_cases hgen : claim.presenceGeneration < 2 ^ 63
  · rw [if_pos hgen,
      decodeMembers_int (f := .presenceGeneration) (by decide) (by omega) (by omega) rfl,
      decodeMembers_int (f := .replicaPort) (by decide) (by omega) (by omega) rfl,
      decodeMembers_str (f := .method) (by decide) rfl, decodeMembers_str (f := .path) (by decide) rfl,
      decodeMembers_str (f := .contentType) (by decide) rfl,
      decodeMembers_str (f := .bodyB64) (by decide) rfl]
    exact decodeMembers_int (f := .deadlineMs) (by decide) (Int.le_trans (by decide) hlo)
      (Int.lt_of_le_of_lt hhi (by decide)) rfl []
  · have hfits : fitsInt64 claim.presenceGeneration = false := by
      simp only [fitsInt64, decide_eq_false_iff_not]
      omega
    rw [if_neg hgen, decodeMembers_cons (f := .presenceGeneration) (by decide), setField, setInt,
      hfits]
    rfl

theorem byteLength_hex (id : ClaimId) : byteLength id.hex = 32 := by
  have hone : ("0123456789abcdef".toList.all fun c => c.utf8Size = 1) = true := by decide
  have hmap : id.hex.map (fun c => c.utf8Size) = replicate id.hex.length 1 := by
    refine eq_replicate_iff.mpr ⟨length_map _, ?_⟩
    intro n hn
    obtain ⟨c, hc, rfl⟩ := mem_map.mp hn
    exact of_decide_eq_true (all_eq_true.mp hone c (id.digits c hc))
  rw [byteLength, hmap, sum_replicate, id.length]; rfl

theorem validate_expectedClaim (monotonic : ℚ) (hadm : admissible claim.request = true)
    (hport : 1 ≤ claim.replicaPort ∧ claim.replicaPort ≤ 65535) :
    validate (expectedClaim monotonic claim) = true := by
  obtain ⟨hlo, hhi⟩ := deadlineMs_bounds monotonic claim
  simp only [admissible, decide_eq_true_eq, allowedPaths, mem_cons, not_mem_nil, or_false] at hadm
  obtain ⟨hmethod, hpath, htype⟩ := hadm
  have hid := byteLength_hex claim.claimId
  simp only [validate, expectedClaim, decide_eq_true_eq, hid, hmethod, htype]
  refine ⟨trivial, by omega, by omega, by omega, by omega, by omega, trivial, trivial, by omega,
    by omega, ?_⟩
  rcases hpath with h | h
  · rw [h]; exact .inl rfl
  · rw [h]; exact .inr rfl

/-! ### The size of a claim -/

theorem escape_plain (h : Base64.plain c = true) : escape c = [c] := by
  have hall : (Base64.alphabet.all fun c => escape c = [c]) = true := by decide
  simp only [Base64.plain, decide_eq_true_eq] at h
  rcases h with h | rfl
  · exact of_decide_eq_true (all_eq_true.mp hall c h)
  · decide

theorem escape_hex (id : ClaimId) : ∀ c ∈ id.hex, escape c = [c] := by
  have hall : ("0123456789abcdef".toList.all fun c => escape c = [c]) = true := by decide
  exact fun c hc => of_decide_eq_true (all_eq_true.mp hall c (id.digits c hc))

/-- Nothing in a claim is escaped: its length is that of the numbers, the path and the encoded body,
    beside a fixed frame. -/
theorem length_claimJson (monotonic : ℚ) (claim : RelayClaim)
    (hadm : admissible claim.request = true) : (claimJson monotonic claim).length =
      4 * ((claim.request.body.length + 2) / 3) + claim.request.path.length +
      (renderInt claim.presenceGeneration).length + (renderInt claim.replicaPort).length +
      (renderInt (deadlineMs monotonic claim)).length + 187 := by
  simp only [admissible, decide_eq_true_eq, allowedPaths, mem_cons, not_mem_nil, or_false] at hadm
  obtain ⟨hmethod, hpath, htype⟩ := hadm
  have hid := length_renderString (escape_hex claim.claimId)
  have hbody := length_renderString fun c hc =>
    escape_plain (Base64.plain_of_mem_encode claim.request.body c hc)
  rw [Base64.length_encode] at hbody
  rw [claim.claimId.length] at hid
  have hp : (renderString claim.request.path.toList).length = claim.request.path.length + 2 := by
    rcases hpath with h | h <;> rw [h] <;> decide
  have hone : (renderInt 1).length = 1 := by simp [renderInt, decimal]
  have hkeys : (fields.map fun f => (renderString f.1).length) = [9, 10, 21, 14, 8, 6, 14, 10, 13] := by
    decide
  have hpost : (renderString "POST".toList).length = 6 := by decide
  have hjson : (renderString "application/json".toList).length = 18 := by decide
  simp only [fields, map_cons, map_nil, cons.injEq, and_true] at hkeys
  obtain ⟨h₁, h₂, h₃, h₄, h₅, h₆, h₇, h₈, h₉⟩ := hkeys
  simp only [claimJson, claimPayload, render, renderMembers, renderMember,
    renderScalar, length_append, length_cons, length_nil, hid, hbody, hp, hmethod,
    htype, hone, hpost, hjson, h₁, h₂, h₃, h₄, h₅, h₆, h₇, h₈, h₉, deadlineMs]
  omega

/-! ### Agreement -/

/-- What the agent should receive. -/
def offered (claim : RelayClaim) : Received where
  claimId := claim.claimId.hex
  presenceGeneration := claim.presenceGeneration
  replicaPort := claim.replicaPort
  method := claim.request.method.toList
  path := claim.request.path.toList
  contentType := claim.request.contentType.toList
  body := claim.request.body

/-- A text that is cut is not accepted. -/
theorem receive_of_cut (h : maxClaimBody < (claimJson monotonic claim).length) :
    receive (claimJson monotonic claim) = none := by
  have hread : readRecord (claimJson monotonic claim) = some (claimPayload monotonic claim, []) := by
    have := readRecord_render (claimPayload monotonic claim) []
    rwa [append_nil] at this
  have hparse : parse ((claimJson monotonic claim).take maxClaimBody) = none := by
    refine parse_beginning hread ( take_prefix ..) fun he => ?_
    have := congrArg length he
    rw [length_take] at this
    omega
  rw [receive, decodeClaim, hparse]; rfl

/-- The whole text is decoded as it was written. -/
theorem decodeClaim_claimJson (monotonic : ℚ) (hadm : admissible claim.request = true)
    (hport : 1 ≤ claim.replicaPort ∧ claim.replicaPort ≤ 65535) :
    decodeClaim (claimJson monotonic claim) =
      if claim.presenceGeneration < 2 ^ 63 then some (expectedClaim monotonic claim) else none := by
  have hparse : parse (claimJson monotonic claim) = some (claimPayload monotonic claim) :=
    parse_render _
  rw [decodeClaim, hparse, bind_eq_bind, bind_some, foldlM_claimPayload monotonic hport.2]
  by_cases hgen : claim.presenceGeneration < 2 ^ 63
  · simp only [if_pos hgen, bind_eq_bind, bind_some,
      validate_expectedClaim monotonic hadm hport, if_true]
  · simp only [if_neg hgen, bind_eq_bind, bind_none]

/-- CORRECT: the agent receives exactly what was offered iff the claim's text fits the reader and the
    generation fits 64 bits. -/
theorem claim_codec_agreement (monotonic : ℚ) (claim : RelayClaim)
    (hadm : admissible claim.request = true) (hbody : claim.request.body.length ≤ maxRequestBytes)
    (hport : 1 ≤ claim.replicaPort ∧ claim.replicaPort ≤ 65535) :
    receive (claimJson monotonic claim) = some (offered claim) ↔
      (claimJson monotonic claim).length ≤ maxClaimBody ∧ claim.presenceGeneration < 2 ^ 63 := by
  constructor
  · intro h
    have hfits : (claimJson monotonic claim).length ≤ maxClaimBody := by
      by_contra hcut
      rw [receive_of_cut (Nat.not_le.mp hcut)] at h; cases h
    refine ⟨hfits, ?_⟩
    by_contra hgen
    rw [receive, take_of_length_le hfits, decodeClaim_claimJson monotonic hadm hport,
      if_neg hgen] at h
    cases h
  · rintro ⟨hfits, hgen⟩
    rw [receive, take_of_length_le hfits, decodeClaim_claimJson monotonic hadm hport, if_pos hgen]
    have hvalid := validate_expectedClaim monotonic hadm hport
    have hlen : ¬ maxRequestBody < claim.request.body.length := Nat.not_lt.mpr hbody
    have hdecode : Base64.decode (expectedClaim monotonic claim).bodyB64 = some claim.request.body :=
      Base64.decode_encode
    simp only [bind_eq_bind, bind_some, hvalid, hdecode, hlen, not_true_eq_false, if_false]
    rfl

/-- A claim for a chat request with a given body. -/
def chatClaim (body : Bytes) : RelayClaim where
  claimId := .zero
  presenceGeneration := 0
  replicaPort := 8001
  request := { body := body }
  deadline := 30

/-- A prompt of 60000 bytes is offered, and its claim is refused by the agent. -/
theorem long_prompt_refused : admissible (chatClaim (replicate 60000 0)).request = true ∧
    (chatClaim (replicate 60000 0)).request.body.length ≤ maxRequestBytes ∧
    receive (claimJson 0 (chatClaim (replicate 60000 0))) = none := by
  have hadm : admissible (chatClaim (replicate 60000 0)).request = true := rfl
  have hlen : (chatClaim (replicate 60000 0)).request.body.length = 60000 :=
    length_replicate
  refine ⟨hadm, by rw [hlen]; decide, receive_of_cut ?_⟩
  rw [length_claimJson 0 _ hadm, hlen, maxClaimBody]
  omega

theorem deadlineMs_chatClaim : deadlineMs 0 (chatClaim body) = 30000 := by
  norm_num [deadlineMs, chatClaim, roundHalfEven, deadlineMsMax]

/-- A short prompt goes through. -/
theorem claim_codec_agreement_short :
    receive (claimJson 0 (chatClaim [123, 125])) = some (offered (chatClaim [123, 125])) := by
  have hlen : (claimJson 0 (chatClaim [123, 125])).length ≤ maxClaimBody := by
    rw [length_claimJson 0 (chatClaim [123, 125]) rfl, deadlineMs_chatClaim]
    have hpath : "/v1/chat/completions".length = 20 := by decide
    simp [chatClaim, hpath, renderInt, decimal, maxClaimBody]
  exact (claim_codec_agreement 0 (chatClaim [123, 125]) rfl (by decide) (by decide)).mpr
    ⟨hlen, by decide⟩

end Fallow.Relay
