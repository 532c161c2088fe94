import NyxId.Encoding.Text
import Mathlib.Data.List.Sort

/-!
The guard that remembers the nonces of a node's requests. Freshness is judged in whole
seconds, forgetting by the exact time, and the memory is bounded.
-/

namespace NyxId.NodeSigning

open Encoding

def maxTimestampSkewSecs : ℤ := 300

def maxNonceSetSize : ℕ := 10000

/-- Nanoseconds of a second; instants are counted in nanoseconds. -/
def second : ℤ := 1000000000

def skewWindow : ℤ := maxTimestampSkewSecs * second

/-- Whole seconds of a duration, rounded towards zero. -/
def numSeconds (duration : ℤ) : ℤ := duration.tdiv second

abbrev Entry := String × ℤ

structure ReplayGuard where
  /-- No nonce twice; the order of a hash map means nothing. -/
  seen : List Entry

def ReplayGuard.new : ReplayGuard := ⟨[]⟩

/-- The order in which a hash map hands out its entries. -/
structure Drain where
  order : List Entry → List Entry
  perm : ∀ entries, (order entries).Perm entries

structure Call where
  timestamp : String
  nonce : String
  /-- The clock when the skew is judged. -/
  now : ℤ
  /-- The clock when old nonces are forgotten. -/
  evictNow : ℤ
  drain : Drain

def Call.unexpired (call : Call) (guard : ReplayGuard) : List Entry :=
  guard.seen.filter fun entry => call.evictNow - skewWindow < entry.2

def evictOldNonces (call : Call) (guard : ReplayGuard) : ReplayGuard :=
  let fresh := call.unexpired guard
  if maxNonceSetSize < fresh.length then
    let entries := (call.drain.order fresh).mergeSort fun a b => a.2 ≤ b.2
    ⟨entries.drop (entries.length - maxNonceSetSize)⟩
  else ⟨fresh⟩

variable (parse : String → Option ℤ)

def check (call : Call) (guard : ReplayGuard) : Bool × ReplayGuard :=
  match parse call.timestamp with
  | none => (false, guard)
  | some requestTime =>
    if maxTimestampSkewSecs < |numSeconds (call.now - requestTime)| then (false, guard)
    else
      let kept := evictOldNonces call guard
      if kept.seen.any fun entry => entry.1 = call.nonce then (false, kept)
      else (true, ⟨(call.nonce, requestTime) :: kept.seen⟩)

/-- The guard after a sequence of calls. -/
def guardAfter (guard : ReplayGuard) (calls : List Call) : ReplayGuard :=
  calls.foldl (fun guard call => (check parse call guard).2) guard

/-- The clock never goes back within a call or from one call to the next. -/
def ClockForward (calls : List Call) : Prop :=
  (∀ call ∈ calls, call.now ≤ call.evictNow) ∧
    calls.Pairwise fun call later => call.evictNow ≤ later.now

/-- Forgetting by time alone; the bound on the memory is not reached. -/
def WithinCap (call : Call) (guard : ReplayGuard) : Prop :=
  (call.unexpired guard).length ≤ maxNonceSetSize

variable {parse} {call : Call} {guard : ReplayGuard} {entry : Entry}

theorem evictOldNonces_of_withinCap (h : WithinCap call guard) :
    evictOldNonces call guard = ⟨call.unexpired guard⟩ := by
  have hle : ¬ maxNonceSetSize < (call.unexpired guard).length := Nat.not_lt.mpr h
  exact if_neg hle

theorem mem_of_mem_evictOldNonces (h : entry ∈ (evictOldNonces call guard).seen) :
    entry ∈ guard.seen := by
  unfold evictOldNonces at h
  dsimp only at h
  split at h
  · dsimp only at h
    have hsorted := List.mem_of_mem_drop h
    rw [List.mem_mergeSort, (call.drain.perm _).mem_iff] at hsorted
    exact (List.mem_filter.mp hsorted).1
  · exact (List.mem_filter.mp h).1

/-- What a call remembers is its own nonce or was remembered before. -/
theorem mem_check (h : entry ∈ (check parse call guard).2.seen) :
    entry.1 = call.nonce ∨ entry ∈ guard.seen := by
  unfold check at h
  split at h
  · exact Or.inr h
  split at h
  · exact Or.inr h
  dsimp only at h
  split at h
  · exact Or.inr (mem_of_mem_evictOldNonces h)
  · rcases List.mem_cons.mp h with rfl | hold
    · exact Or.inl rfl
    · exact Or.inr (mem_of_mem_evictOldNonces hold)

theorem check_eq_true (h : (check parse call guard).1 = true) : ∃ requestTime,
    parse call.timestamp = some requestTime ∧
      (call.nonce, requestTime) ∈ (check parse call guard).2.seen := by
  unfold check at h ⊢
  split at h
  · cases h
  rename_i requestTime hparse
  split at h
  · cases h
  rename_i hskew
  rw [if_neg hskew]
  dsimp only at h ⊢
  split at h
  · cases h
  rename_i hnew
  rw [if_neg hnew]
  exact ⟨requestTime, hparse, List.mem_cons_self⟩

/-- A remembered nonce is kept while its time is in the window and the memory is not full. -/
theorem kept_by_check (hentry : entry ∈ guard.seen) (htime : call.evictNow - skewWindow < entry.2)
    (hcap : WithinCap call guard) : entry ∈ (check parse call guard).2.seen := by
  have hkept : entry ∈ (evictOldNonces call guard).seen := by
    rw [evictOldNonces_of_withinCap hcap]
    exact List.mem_filter.mpr ⟨hentry, decide_eq_true htime⟩
  unfold check
  split
  · exact hentry
  split
  · exact hentry
  dsimp only
  split
  · exact hkept
  · exact List.mem_cons_of_mem _ hkept

theorem kept_by_calls {calls : List Call} (hentry : entry ∈ guard.seen)
    (htime : ∀ call ∈ calls, call.evictNow - skewWindow < entry.2)
    (hcap : ∀ done call rest, calls = done ++ call :: rest →
      WithinCap call (guardAfter parse guard done)) :
    entry ∈ (guardAfter parse guard calls).seen := by
  induction calls generalizing guard with
  | nil => exact hentry
  | cons call calls ih =>
    obtain ⟨hcall, hcalls⟩ := List.forall_mem_cons.mp htime
    have hkept : entry ∈ (check parse call guard).2.seen :=
      kept_by_check hentry hcall (hcap [] call calls rfl)
    refine ih hkept hcalls fun done later rest heq => ?_
    exact hcap (call :: done) later rest (by rw [heq]; rfl)

theorem mem_guardAfter {calls : List Call} (h : entry ∈ (guardAfter parse guard calls).seen) :
    (∃ call ∈ calls, entry.1 = call.nonce) ∨ entry ∈ guard.seen := by
  induction calls generalizing guard with
  | nil => exact Or.inr h
  | cons call calls ih =>
    rcases ih h with ⟨later, hmem, hnonce⟩ | hstart
    · exact Or.inl ⟨later, List.mem_cons_of_mem _ hmem, hnonce⟩
    · exact (mem_check hstart).imp_left fun hnonce => ⟨call, List.mem_cons_self, hnonce⟩

/-- A remembered nonce is refused. -/
theorem check_remembered {requestTime : ℤ} (hentry : (call.nonce, requestTime) ∈ guard.seen)
    (htime : call.evictNow - skewWindow < requestTime) (hcap : WithinCap call guard) :
    (check parse call guard).1 = false := by
  unfold check
  split
  · rfl
  split
  · rfl
  dsimp only
  rw [evictOldNonces_of_withinCap hcap, if_pos]
  refine List.any_eq_true.mpr ⟨(call.nonce, requestTime), ?_, decide_eq_true rfl⟩
  exact List.mem_filter.mpr ⟨hentry, decide_eq_true htime⟩

theorem lt_numSeconds {duration : ℤ} (h : (maxTimestampSkewSecs + 1) * second ≤ duration) :
    maxTimestampSkewSecs < |numSeconds duration| := by
  unfold numSeconds maxTimestampSkewSecs second at *
  rw [Int.tdiv_eq_ediv_of_nonneg (by omega), abs_of_nonneg (by omega)]
  omega

theorem numSeconds_le {duration : ℤ} (h : |duration| < skewWindow) :
    |numSeconds duration| ≤ maxTimestampSkewSecs := by
  unfold skewWindow numSeconds maxTimestampSkewSecs second at *
  rw [abs_lt] at h
  rw [abs_le]
  rcases le_total 0 duration with hpos | hneg
  · rw [Int.tdiv_eq_ediv_of_nonneg hpos]
    omega
  · have hflip : duration.tdiv 1000000000 = -((-duration).tdiv 1000000000) := by
      rw [Int.neg_tdiv, neg_neg]
    rw [hflip, Int.tdiv_eq_ediv_of_nonneg (by omega)]
    omega

/-- An old request is refused whatever is remembered. -/
theorem check_stale {requestTime : ℤ} (hparse : parse call.timestamp = some requestTime)
    (htime : requestTime + (maxTimestampSkewSecs + 1) * second ≤ call.now) :
    (check parse call guard).1 = false := by
  unfold check
  simp only [hparse]
  rw [if_pos (lt_numSeconds (by omega))]

/-- A nonce that no call has brought before is not remembered. -/
theorem check_new {requestTime : ℤ} (hparse : parse call.timestamp = some requestTime)
    (htime : |call.now - requestTime| < skewWindow)
    (hnew : ∀ entry ∈ guard.seen, entry.1 ≠ call.nonce) : (check parse call guard).1 = true := by
  unfold check
  simp only [hparse]
  rw [if_neg (not_lt.mpr (numSeconds_le htime)), if_neg]
  rw [List.any_eq_true]
  rintro ⟨entry, hentry, hnonce⟩
  exact hnew entry (mem_of_mem_evictOldNonces hentry) (of_decide_eq_true hnonce)

theorem guardAfter_append (guard : ReplayGuard) (calls later : List Call) :
    guardAfter parse guard (calls ++ later) = guardAfter parse (guardAfter parse guard calls) later :=
  List.foldl_append

/-- An accepted request is refused from then on, as long as the clock of the later call is in
the window or past it and the bound on the memory was not reached in between. New nonces are
accepted whatever happened before. -/
theorem replay_protection (parse : String → Option ℤ) :
    (∀ before first between again requestTime,
      ClockForward (before ++ first :: (between ++ [again])) →
      parse first.timestamp = some requestTime →
      again.timestamp = first.timestamp → again.nonce = first.nonce →
      (check parse first (guardAfter parse .new before)).1 = true →
      again.evictNow < requestTime + skewWindow ∨ requestTime + skewWindow + second ≤ again.now →
      (∀ done call rest, between ++ [again] = done ++ call :: rest →
        WithinCap call (guardAfter parse .new (before ++ first :: done))) →
      (check parse again (guardAfter parse .new (before ++ first :: between))).1 = false) ∧
    ∀ before call requestTime, parse call.timestamp = some requestTime →
      |call.now - requestTime| < skewWindow → (∀ other ∈ before, other.nonce ≠ call.nonce) →
      (check parse call (guardAfter parse .new before)).1 = true := by
  constructor
  · intro before first between again requestTime hclock hparse htimestamp hnonce hfirst hwindow hcap
    have hagain : parse again.timestamp = some requestTime := by
      rw [htimestamp, hparse]
    rcases hwindow with hwindow | hlate
    · obtain ⟨time, htime, hentry⟩ := check_eq_true hfirst
      rw [hparse] at htime
      obtain rfl := Option.some.inj htime
      obtain ⟨hwithin, hpairs⟩ := hclock
      have htail := (List.pairwise_cons.mp (List.pairwise_append.mp hpairs).2.1).2
      have hevict : ∀ call ∈ between, call.evictNow - skewWindow < requestTime := by
        intro call hcall
        have hle := (List.pairwise_append.mp htail).2.2 call hcall again (List.mem_singleton_self _)
        have hown := hwithin again (by simp)
        omega
      have hsplit : guardAfter parse .new (before ++ first :: between) =
          guardAfter parse (check parse first (guardAfter parse .new before)).2 between :=
        guardAfter_append _ _ _
      have hcaps : ∀ done call rest, between = done ++ call :: rest →
          WithinCap call
            (guardAfter parse (check parse first (guardAfter parse .new before)).2 done) := by
        intro done call rest heq
        have hone := hcap done call (rest ++ [again]) (by rw [heq, List.append_assoc]; rfl)
        rw [guardAfter_append] at hone
        exact hone
      have hkept := kept_by_calls hentry hevict hcaps
      rw [← hsplit] at hkept
      rw [← hnonce] at hkept
      exact check_remembered hkept (by omega) (hcap between again [] rfl)
    · apply check_stale hagain
      have hwindow : (maxTimestampSkewSecs + 1) * second = skewWindow + second := by
        unfold skewWindow
        ring
      rw [hwindow]
      omega
  · intro before call requestTime hparse htime hfresh
    apply check_new hparse htime
    intro entry hentry hsame
    rcases mem_guardAfter hentry with ⟨other, hother, hnonce⟩ | hstart
    · exact hfresh other hother (hnonce.symm.trans hsame)
    · cases hstart

/-- Two timestamps, one second apart. -/
def sampleParse (text : String) : Option ℤ :=
  if text = "2026-03-12T10:29:59Z" then some (1773311399 * second)
  else if text = "2026-03-12T10:30:00Z" then some (1773311400 * second)
  else none

def sampleCall (timestamp nonce : String) : Call :=
  ⟨timestamp, nonce, 1773311400 * second, 1773311400 * second, ⟨id, fun _ => List.Perm.refl _⟩⟩

def firstCall : Call := sampleCall "2026-03-12T10:29:59Z" "first"

def fillingCall (n : ℕ) : Call := sampleCall "2026-03-12T10:30:00Z" (decimal n)

/-- The first request comes again after another one. -/
theorem first_refused_again : (check sampleParse firstCall
    (guardAfter sampleParse .new [firstCall, fillingCall 0])).1 = false := by
  refine (replay_protection sampleParse).1 [] firstCall [fillingCall 0] firstCall (1773311399 * second)
    (by unfold ClockForward; decide) (by decide) rfl rfl (by decide) (by decide) fun done call rest h => ?_
  unfold WithinCap
  rcases done with _ | ⟨_, _ | ⟨_, done⟩⟩
  · obtain ⟨rfl, -⟩ := List.cons.inj h
    decide
  · obtain ⟨rfl, hrest⟩ := List.cons.inj h
    obtain ⟨rfl, -⟩ := List.cons.inj hrest
    decide
  · have hlength := congrArg List.length h
    simp only [List.length_append, List.length_cons, List.length_nil] at hlength
    omega

/-- The memory when so many requests have followed the first one. -/
def filledMemory : ℕ → List Entry
  | 0 => [("first", 1773311399 * second)]
  | n + 1 => (decimal n, 1773311400 * second) :: filledMemory n

theorem length_filledMemory (n : ℕ) : (filledMemory n).length = n + 1 := by
  induction n with
  | zero => rfl
  | succ n ih => rw [filledMemory, List.length_cons, ih]

theorem mem_filledMemory {n : ℕ} (h : entry ∈ filledMemory n) :
    entry = ("first", 1773311399 * second) ∨
      ∃ k < n, entry = (decimal k, 1773311400 * second) := by
  induction n with
  | zero => exact Or.inl (List.mem_singleton.mp h)
  | succ n ih =>
    rcases List.mem_cons.mp h with rfl | hold
    · exact Or.inr ⟨n, Nat.lt_succ_self n, rfl⟩
    · rcases ih hold with hfirst | ⟨k, hk, hentry⟩
      · exact Or.inl hfirst
      · exact Or.inr ⟨k, Nat.lt_succ_of_lt hk, hentry⟩

theorem decimal_ne_first (k : ℕ) : decimal k ≠ "first" := by
  intro h
  have hmem : 'f' ∈ decimalChars k := by
    have hchars := congrArg String.toList h
    rw [decimal, String.toList_ofList] at hchars
    rw [hchars]
    decide
  rcases mem_decimalChars hmem with hminus | hdigit
  · exact absurd hminus (by decide)
  · exact absurd hdigit (by decide)

/-- Nothing in the memory is too old at the clock of the calls. -/
theorem unexpired_filledMemory (n : ℕ) (timestamp nonce : String) :
    (sampleCall timestamp nonce).unexpired ⟨filledMemory n⟩ = filledMemory n := by
  apply List.filter_eq_self.mpr
  intro entry hentry
  rcases mem_filledMemory hentry with rfl | ⟨k, -, rfl⟩ <;> exact decide_eq_true (by
    unfold sampleCall skewWindow maxTimestampSkewSecs second
    norm_num)

theorem check_fillingCall {n : ℕ} (hn : n + 1 ≤ maxNonceSetSize) :
    check sampleParse (fillingCall n) ⟨filledMemory n⟩ = (true, ⟨filledMemory (n + 1)⟩) := by
  have hcap : WithinCap (fillingCall n) ⟨filledMemory n⟩ := by
    unfold WithinCap fillingCall
    rw [unexpired_filledMemory, length_filledMemory]
    exact hn
  have hskew : ¬ maxTimestampSkewSecs < |numSeconds ((fillingCall n).now - 1773311400 * second)| := by
    unfold fillingCall sampleCall
    rw [Int.sub_self]
    decide
  have hnew : ¬ ((filledMemory n).any fun entry => entry.1 = (fillingCall n).nonce) = true := by
    rw [List.any_eq_true]
    rintro ⟨entry, hentry, hnonce⟩
    have hsame : entry.1 = decimal n := of_decide_eq_true hnonce
    rcases mem_filledMemory hentry with rfl | ⟨k, hk, rfl⟩
    · exact decimal_ne_first n hsame.symm
    · have hkn := decimal_injective hsame
      omega
  unfold check
  have hparse : sampleParse "2026-03-12T10:30:00Z" = some (1773311400 * second) := by
    decide
  rw [show sampleParse (fillingCall n).timestamp = some (1773311400 * second) from hparse]
  dsimp only
  rw [if_neg hskew, evictOldNonces_of_withinCap hcap]
  rw [show (fillingCall n).unexpired ⟨filledMemory n⟩ = filledMemory n from
    unexpired_filledMemory n _ _, if_neg hnew]
  rfl

/-- So many requests after the first one, each with a nonce of its own. -/
def fillingCalls (n : ℕ) : List Call := (List.range n).map fillingCall

theorem guardAfter_fillingCalls {n : ℕ} (hn : n ≤ maxNonceSetSize) :
    guardAfter sampleParse ⟨filledMemory 0⟩ (fillingCalls n) = ⟨filledMemory n⟩ := by
  induction n with
  | zero => rfl
  | succ n ih =>
    rw [fillingCalls, List.range_succ, List.map_append, guardAfter_append]
    rw [show (List.range n).map fillingCall = fillingCalls n from rfl, ih (Nat.le_of_succ_le hn)]
    exact congrArg Prod.snd (check_fillingCall hn)

theorem pairwise_sorted (entries : List Entry) :
    (entries.mergeSort fun a b => a.2 ≤ b.2).Pairwise fun a b => a.2 ≤ b.2 := by
  have htrans : ∀ a b c : Entry, decide (a.2 ≤ b.2) = true → decide (b.2 ≤ c.2) = true →
      decide (a.2 ≤ c.2) = true := by
    intro a b c hab hbc
    rw [decide_eq_true_iff] at *
    omega
  have htotal : ∀ a b : Entry, (decide (a.2 ≤ b.2) || decide (b.2 ≤ a.2)) = true := by
    intro a b
    rw [Bool.or_eq_true, decide_eq_true_iff, decide_eq_true_iff]
    omega
  have hpairs := List.pairwise_mergeSort htrans htotal entries
  exact hpairs.imp fun h => of_decide_eq_true h

/-- The bound on the memory drops the entry with the earliest time. -/
theorem first_dropped (entries : List Entry)
    (hperm : entries.Perm (filledMemory maxNonceSetSize)) (hsorted : entries.Pairwise fun a b => a.2 ≤ b.2) :
    ∀ entry ∈ entries.drop 1, entry.1 ≠ "first" := by
  have hfirst : ("first", 1773311399 * second) ∈ entries := by
    rw [hperm.mem_iff]
    have hmem : ∀ n, ("first", 1773311399 * second) ∈ filledMemory n := by
      intro n
      induction n with
      | zero => exact List.mem_singleton_self _
      | succ n ih => exact List.mem_cons_of_mem _ ih
    exact hmem _
  have hnodup : (entries.map Prod.fst).Nodup := by
    rw [(hperm.map Prod.fst).nodup_iff]
    have hall : ∀ n, ((filledMemory n).map Prod.fst).Nodup := by
      intro n
      induction n with
      | zero => exact List.nodup_singleton _
      | succ n ih =>
        refine List.nodup_cons.mpr ⟨fun hmem => ?_, ih⟩
        obtain ⟨entry, hentry, hsame⟩ := List.mem_map.mp hmem
        rcases mem_filledMemory hentry with rfl | ⟨k, hk, rfl⟩
        · exact decimal_ne_first n hsame.symm
        · have hkn := decimal_injective hsame
          omega
    exact hall _
  cases entries with
  | nil => exact fun entry hentry => (nomatch hentry)
  | cons head rest =>
    have hhead : head = ("first", 1773311399 * second) := by
      rcases List.mem_cons.mp hfirst with heq | hrest
      · exact heq.symm
      · have hle := (List.pairwise_cons.mp hsorted).1 _ hrest
        rcases mem_filledMemory (hperm.mem_iff.mp List.mem_cons_self) with heq | ⟨k, -, rfl⟩
        · exact heq
        · unfold second at hle
          norm_num at hle
    subst hhead
    intro entry hentry hsame
    exact (List.nodup_cons.mp hnodup).1 (List.mem_map.mpr ⟨entry, hentry, hsame⟩)

theorem clockForward_sampleCalls {calls : List Call}
    (h : ∀ call ∈ calls, ∃ timestamp nonce, call = sampleCall timestamp nonce) :
    ClockForward calls := by
  constructor
  · intro call hcall
    obtain ⟨timestamp, nonce, rfl⟩ := h call hcall
    exact le_rfl
  · induction calls with
    | nil => exact List.Pairwise.nil
    | cons call calls ih =>
      obtain ⟨hhead, htail⟩ := List.forall_mem_cons.mp h
      refine List.pairwise_cons.mpr ⟨fun later hlater => ?_, ih htail⟩
      obtain ⟨timestamp, nonce, rfl⟩ := hhead
      obtain ⟨timestamp', nonce', rfl⟩ := htail later hlater
      exact le_rfl

/-- Ten thousand other requests within a second push the first nonce out of the memory, and
the first request is then accepted again. -/
theorem pushed_out_nonce_replayed :
    ClockForward (firstCall :: (fillingCalls maxNonceSetSize ++ [firstCall])) ∧
      (check sampleParse firstCall .new).1 = true ∧
      (check sampleParse firstCall
        (guardAfter sampleParse .new (firstCall :: fillingCalls maxNonceSetSize))).1 = true := by
  have hstart : check sampleParse firstCall .new = (true, ⟨filledMemory 0⟩) := by
    rfl
  have hclock : ClockForward (firstCall :: (fillingCalls maxNonceSetSize ++ [firstCall])) := by
    apply clockForward_sampleCalls
    intro call hcall
    rcases List.mem_cons.mp hcall with rfl | hrest
    · exact ⟨_, _, rfl⟩
    rcases List.mem_append.mp hrest with hfilling | hlast
    · obtain ⟨n, -, rfl⟩ := List.mem_map.mp hfilling
      exact ⟨_, _, rfl⟩
    · obtain rfl := List.mem_singleton.mp hlast
      exact ⟨_, _, rfl⟩
  refine ⟨hclock, congrArg Prod.fst hstart, ?_⟩
  have hstate : guardAfter sampleParse .new (firstCall :: fillingCalls maxNonceSetSize) =
      ⟨filledMemory maxNonceSetSize⟩ := by
    have hnext : guardAfter sampleParse .new (firstCall :: fillingCalls maxNonceSetSize) =
        guardAfter sampleParse (check sampleParse firstCall .new).2 (fillingCalls maxNonceSetSize) :=
      List.foldl_cons ..
    rw [hnext, hstart]
    exact guardAfter_fillingCalls le_rfl
  rw [hstate]
  have hfresh : firstCall.unexpired ⟨filledMemory maxNonceSetSize⟩ = filledMemory maxNonceSetSize :=
    unexpired_filledMemory _ _ _
  have hover : maxNonceSetSize < (filledMemory maxNonceSetSize).length := by
    rw [length_filledMemory]
    exact Nat.lt_succ_self _
  have hskew : ¬ maxTimestampSkewSecs < |numSeconds (firstCall.now - 1773311399 * second)| := by
    decide
  unfold check
  rw [show sampleParse firstCall.timestamp = some (1773311399 * second) from if_pos rfl]
  dsimp only
  rw [if_neg hskew, if_neg]
  unfold evictOldNonces
  dsimp only
  rw [hfresh, if_pos hover]
  rw [List.length_mergeSort, show (firstCall.drain.order (filledMemory maxNonceSetSize)) =
    filledMemory maxNonceSetSize from rfl, length_filledMemory, Nat.add_sub_cancel_left]
  rw [List.any_eq_true]
  rintro ⟨entry, hentry, hnonce⟩
  refine first_dropped _ (List.mergeSort_perm _ _) ?_ entry hentry (of_decide_eq_true hnonce)
  exact pairwise_sorted _

end NyxId.NodeSigning
