import NyxId.MachineRequests.Binding

/-!
A guard accepts a signed request at most once. A nonce is kept as long as its request is
fresh, so whatever is accepted with it later was signed for a later time.
-/

namespace NyxId.MachineRequests

open Encoding

/-- A later call with the nonce of an earlier one is beyond the freshness of the earlier
request, and its own request has a later timestamp. -/
def Later (earlier later : Call) : Prop :=
  earlier.request.nonce = later.request.nonce →
    earlier.request.timestamp.toInt + windowSecs < later.now.toInt ∧
      earlier.request.timestamp.toInt < later.request.timestamp.toInt

def expiry (request : Request) : ℤ := min (request.timestamp.toInt + windowSecs) i64Max

/-- The guard still has the nonce of an accepted call, or the clock has passed its request. -/
def Keeps (guard : ReplayGuard) (clock : ℤ) (call : Call) : Prop :=
  expiry call.request < clock ∨ (call.request.nonce, expiry call.request) ∈ guard.nonces

section

variable {crypto : Crypto} {guard next : ReplayGuard} {call : Call}

theorem fresh_of_ok {request : Request} {nodeId : String} {secret : List UInt8} {now : Int64}
    (h : verifySignatureAndFreshness crypto request nodeId secret now = .ok ()) :
    |request.timestamp.toInt - now.toInt| ≤ windowSecs := by
  unfold verifySignatureAndFreshness at h
  split at h
  · cases h
  split at h
  · cases h
  · rename_i hfresh
    exact not_lt.mp hfresh

/-- What a call does to the guard. -/
theorem verify_cases (crypto : Crypto) (guard : ReplayGuard) (call : Call) :
    ((∃ rejection, guard.verify crypto call.request call.nodeId call.secret call.now =
        (guard, .error rejection)) ∨
      (∃ rejection, guard.verify crypto call.request call.nodeId call.secret call.now =
        (⟨guard.nonces.filter fun entry => call.now.toInt ≤ entry.2⟩, .error rejection))) ∨
    (guard.verify crypto call.request call.nodeId call.secret call.now =
        (⟨(guard.nonces.filter fun entry => call.now.toInt ≤ entry.2) ++
          [(call.request.nonce, expiry call.request)]⟩, .ok ()) ∧
      |call.request.timestamp.toInt - call.now.toInt| ≤ windowSecs ∧
      ∀ entry ∈ guard.nonces, call.now.toInt ≤ entry.2 → entry.1 ≠ call.request.nonce) := by
  unfold ReplayGuard.verify
  cases hverify : verifySignatureAndFreshness crypto call.request call.nodeId call.secret call.now with
  | error rejection => exact Or.inl (Or.inl ⟨rejection, rfl⟩)
  | ok _ =>
    dsimp only
    split
    · exact Or.inl (Or.inr ⟨.replay, rfl⟩)
    split
    · exact Or.inl (Or.inr ⟨.capacity, rfl⟩)
    · rename_i hnew _
      refine Or.inr ⟨rfl, fresh_of_ok hverify, fun entry hentry hkept heq => hnew ?_⟩
      rw [List.contains_iff_mem, ← heq]
      exact List.mem_map_of_mem (List.mem_filter.mpr ⟨hentry, decide_eq_true hkept⟩)

theorem Keeps.filter {clock : ℤ} {past : Call} (h : Keeps guard clock past)
    (hclock : clock ≤ call.now.toInt) :
    Keeps ⟨guard.nonces.filter fun entry => call.now.toInt ≤ entry.2⟩ call.now.toInt past := by
  rcases h with hpassed | hmem
  · exact Or.inl (by omega)
  · by_cases hkept : call.now.toInt ≤ expiry past.request
    · exact Or.inr (List.mem_filter.mpr ⟨hmem, decide_eq_true hkept⟩)
    · exact Or.inl (not_le.mp hkept)

/-- A call accepted with the nonce of an earlier call comes when the earlier one is stale. -/
theorem Keeps.later {clock : ℤ} {past : Call} (h : Keeps guard clock past)
    (hclock : clock ≤ call.now.toInt)
    (hfresh : |call.request.timestamp.toInt - call.now.toInt| ≤ windowSecs)
    (hnew : ∀ entry ∈ guard.nonces, call.now.toInt ≤ entry.2 → entry.1 ≠ call.request.nonce) :
    Later past call := by
  intro hnonce
  have hpassed : expiry past.request < call.now.toInt := by
    rcases h with hpassed | hmem
    · omega
    · by_contra hkept
      exact hnew _ hmem (not_lt.mp hkept) hnonce
  have hnow : call.now.toInt ≤ i64Max := Int64.toInt_le call.now
  have hlower := (abs_le.mp hfresh).1
  unfold expiry at hpassed
  unfold i64Max at hpassed hnow
  constructor
  · omega
  · omega

def ifAccepted (result : Except Rejection Unit) (kept dropped : List Call) : List Call :=
  match result with
  | .ok _ => kept
  | .error _ => dropped

theorem accepted_cons {rest : List Call} {result : Except Rejection Unit}
    (h : guard.verify crypto call.request call.nodeId call.secret call.now = (next, result)) :
    accepted crypto guard (call :: rest) =
      ifAccepted result (call :: accepted crypto next rest) (accepted crypto next rest) := by
  show ifAccepted (guard.verify crypto call.request call.nodeId call.secret call.now).2
    (call :: accepted crypto
      (guard.verify crypto call.request call.nodeId call.secret call.now).1 rest)
    (accepted crypto (guard.verify crypto call.request call.nodeId call.secret call.now).1 rest) = _
  rw [h]

/-- No call that is accepted from now on repeats a call that the guard keeps. -/
theorem accepted_later {clock : ℤ} {past : Call} {calls : List Call} (h : Keeps guard clock past)
    (hclock : ∀ call ∈ calls, clock ≤ call.now.toInt)
    (hsorted : calls.Pairwise fun a b => a.now.toInt ≤ b.now.toInt) :
    ∀ call ∈ accepted crypto guard calls, Later past call := by
  induction calls generalizing guard clock with
  | nil => exact fun _ hcall => (nomatch hcall)
  | cons call rest ih =>
    obtain ⟨hnext, hrest⟩ := List.pairwise_cons.mp hsorted
    have hnow := hclock call List.mem_cons_self
    rcases verify_cases crypto guard call with (⟨rejection, heq⟩ | ⟨rejection, heq⟩) |
      ⟨heq, hfresh, hnew⟩
    · rw [accepted_cons heq, ifAccepted]
      exact ih h (fun other hother => hclock other (List.mem_cons_of_mem _ hother)) hrest
    · rw [accepted_cons heq, ifAccepted]
      exact ih (h.filter hnow) hnext hrest
    · rw [accepted_cons heq, ifAccepted]
      have hkeeps : Keeps ⟨(guard.nonces.filter fun entry => call.now.toInt ≤ entry.2) ++
          [(call.request.nonce, expiry call.request)]⟩ call.now.toInt past :=
        (h.filter hnow).imp_right fun hmem => List.mem_append_left _ hmem
      intro other hother
      rcases List.mem_cons.mp hother with rfl | hother
      · exact h.later hnow hfresh hnew
      · exact ih hkeeps hnext hrest other hother

theorem accepted_pairwise {calls : List Call}
    (hsorted : calls.Pairwise fun a b => a.now.toInt ≤ b.now.toInt) :
    (accepted crypto guard calls).Pairwise Later := by
  induction calls generalizing guard with
  | nil => exact List.Pairwise.nil
  | cons call rest ih =>
    obtain ⟨hnext, hrest⟩ := List.pairwise_cons.mp hsorted
    rcases verify_cases crypto guard call with (⟨rejection, heq⟩ | ⟨rejection, heq⟩) |
      ⟨heq, -, -⟩
    · rw [accepted_cons heq, ifAccepted]
      exact ih hrest
    · rw [accepted_cons heq, ifAccepted]
      exact ih hrest
    · rw [accepted_cons heq, ifAccepted]
      have hkeeps : Keeps ⟨(guard.nonces.filter fun entry => call.now.toInt ≤ entry.2) ++
          [(call.request.nonce, expiry call.request)]⟩ call.now.toInt call :=
        Or.inr (List.mem_append_right _ List.mem_cons_self)
      exact List.pairwise_cons.mpr ⟨accepted_later hkeeps hnext hrest, ih hrest⟩

end

/-- A guard accepts no request twice, a nonce again only with a later timestamp, and a
signature binds every field of a well-shaped request. -/
theorem requests_once_and_bound (crypto : Crypto) :
    (∀ calls : List Call, (calls.Pairwise fun a b => a.now.toInt ≤ b.now.toInt) →
      (accepted crypto .new calls).Pairwise Later) ∧
    ∀ r r' : Request, (∃ nodeId secret, wellShaped crypto r nodeId secret = true) →
      (∃ nodeId secret, wellShaped crypto r' nodeId secret = true) →
      Set.InjOn crypto.sha256 (digested r ∪ digested r') →
      macInput crypto r = macInput crypto r' → SameRequest r r' :=
  ⟨fun _ hsorted => accepted_pairwise hsorted,
    fun _ _ ⟨_, _, hr⟩ ⟨_, _, hr'⟩ hfree h => sameRequest_of_macInput hr hr' hfree h⟩

section

def sampleNonce : String := "00000000-0000-4000-8000-000000000001"

def sampleRequest (requestId : String) (timestamp : Int64) (signature : String)
    (hsize : FitsInMemory requestId) : Request where
  version := 1
  authority := none
  externalAuthority := none
  requestId := requestId
  nodeId := "node-a"
  operation := .readFile
  parameters := .object []
  timestamp := timestamp
  nonce := sampleNonce
  signature := signature
  sizes := ⟨hsize, by decide, by decide⟩

def firstRequest : Request := sampleRequest "00000000-0000-4000-8000-00000000000a" 1000
  "5db2fadc73c58a6ea6e980305711c92dee3b50a3281b46fa29aa70c95118ee7f" (by decide)

/-- The same nonce, signed for the second after the first request is stale. -/
def secondRequest : Request := sampleRequest "00000000-0000-4000-8000-00000000000b" 1061
  "41e29685bb81f376a9acb35279097cd7503fd7bc18e5eca0af7e36e8ea540b7a" (by decide)

def firstTag : List UInt8 :=
  [93, 178, 250, 220, 115, 197, 138, 110, 166, 233, 128, 48, 87, 17, 201, 45, 238, 59, 80, 163, 40,
    27, 70, 250, 41, 170, 112, 201, 81, 24, 238, 127]

def secondTag : List UInt8 :=
  [65, 226, 150, 133, 187, 129, 243, 118, 169, 172, 179, 82, 121, 9, 124, 215, 80, 63, 215, 188, 24,
    229, 236, 160, 175, 126, 54, 232, 234, 84, 11, 122]

/-- The digests and signatures of the sample requests under the secret `test`. -/
def sampleCrypto : Crypto where
  sha256 text := if text = utf8 "\x7b\x7d" then
      #v[68, 19, 111, 163, 85, 179, 103, 138, 17, 70, 173, 22, 247, 232, 100, 158, 148, 251, 79, 194,
        31, 231, 126, 131, 16, 192, 96, 246, 28, 170, 255, 138]
    else
      #v[116, 35, 78, 152, 175, 231, 73, 143, 181, 218, 241, 243, 106, 194, 215, 138, 204, 51, 148,
        100, 249, 80, 112, 59, 140, 1, 152, 146, 249, 130, 185, 11]
  hmacSha256 _ bytes :=
    if (utf8 firstRequest.requestId).isSuffixOf (bytes.take 69) then firstTag else secondTag
  hexDecode text := if text = firstRequest.signature then some firstTag else some secondTag
  uuidParses _ := true

def sampleCalls : List Call :=
  [⟨firstRequest, "node-a", utf8 "test", 1000⟩, ⟨secondRequest, "node-a", utf8 "test", 1061⟩]

def unsignedRequest : Request := { firstRequest with signature := "" }

theorem injOn_sample : Set.InjOn sampleCrypto.sha256
    (digested firstRequest ∪ digested unsignedRequest) := by
  have htexts : ∀ text ∈ digested firstRequest ∪ digested unsignedRequest,
      text = utf8 "\x7b\x7d" ∨ text = utf8 "null" := by
    rintro text ((rfl | rfl | rfl) | (rfl | rfl | rfl))
    · exact Or.inl (by decide)
    · exact Or.inr (by decide)
    · exact Or.inr (by decide)
    · exact Or.inl (by decide)
    · exact Or.inr (by decide)
    · exact Or.inr (by decide)
  intro a ha b hb hab
  rcases htexts a ha with rfl | rfl <;> rcases htexts b hb with rfl | rfl
  · rfl
  · exact absurd hab (by decide)
  · exact absurd hab (by decide)
  · rfl

theorem sample_once_and_bound : (accepted sampleCrypto .new sampleCalls).Pairwise Later ∧
    SameRequest firstRequest unsignedRequest :=
  ⟨(requests_once_and_bound sampleCrypto).1 sampleCalls (by decide),
    (requests_once_and_bound sampleCrypto).2 firstRequest unsignedRequest
      ⟨"node-a", utf8 "test", by decide⟩ ⟨"node-a", utf8 "test", by decide⟩ injOn_sample rfl⟩

/-- A second request with the nonce of the first one is accepted once the first is stale. -/
theorem nonce_accepted_again : ¬ ∀ (crypto : Crypto) (calls : List Call),
    (calls.Pairwise fun a b => a.now.toInt ≤ b.now.toInt) →
      (accepted crypto .new calls).Pairwise fun a b => a.request.nonce ≠ b.request.nonce := by
  intro h
  have haccepted : accepted sampleCrypto .new sampleCalls = sampleCalls := by
    have hfirst : ReplayGuard.verify sampleCrypto .new firstRequest "node-a" (utf8 "test") 1000 =
        (⟨[(sampleNonce, 1060)]⟩, .ok ()) := by decide
    have hsecond : ReplayGuard.verify sampleCrypto ⟨[(sampleNonce, 1060)]⟩ secondRequest "node-a"
        (utf8 "test") 1061 = (⟨[(sampleNonce, 1121)]⟩, .ok ()) := by decide
    unfold sampleCalls
    rw [accepted_cons hfirst, ifAccepted, accepted_cons hsecond, ifAccepted]
    rfl
  have hpairs := h sampleCrypto sampleCalls (by decide)
  rw [haccepted] at hpairs
  exact List.rel_of_pairwise_cons hpairs List.mem_cons_self rfl

end

end NyxId.MachineRequests
