import NyxId.ModelUsage.Model

/-!
The rounds of the division: what a checked counter, an insertion and a round of a loop do to a vector.
-/

namespace NyxId.ModelUsage

variable {c : UsageContract} {e : NativeUsageEvidence} {v : Usage}

/-! ### Checked counters -/

theorem add_eq_some {a b n : ℤ} (h : add a b = some n) : n = a + b :=
  (checkedI64_eq_some.mp h).1.symm

theorem sub_eq_some {a b n : ℤ} (h : sub a b = some n) : n = a - b ∧ 0 ≤ n := by
  obtain ⟨hsub, hnonneg⟩ := Option.filter_eq_some_iff.mp h
  exact ⟨(checkedI64_eq_some.mp hsub).1.symm, of_decide_eq_true hnonneg⟩

theorem count_eq_some {n : Option ℤ} {m : ℤ} (h : count n = some m) : n = some m ∧ 0 ≤ m := by
  obtain ⟨hsome, hnonneg⟩ := Option.filter_eq_some_iff.mp h
  exact ⟨hsome, of_decide_eq_true hnonneg⟩

/-- A counter that applies is there; one that does not is missing or zero. -/
theorem applicable_eq_some {n : Option ℤ} {enabled : Bool} {m : ℤ} (h : applicable n enabled = some m) :
    m = n.getD 0 ∧ 0 ≤ m ∧ (enabled = true → n = some m) ∧ (enabled = false → m = 0) := by
  unfold applicable at h
  split at h
  · rename_i henabled
    obtain ⟨rfl, hnonneg⟩ := count_eq_some h
    exact ⟨rfl, hnonneg, fun _ => rfl, fun hnot => by rw [henabled] at hnot; cases hnot⟩
  · rename_i hnot
    split at h
    · rename_i hzero
      obtain rfl := Option.some.inj h
      refine ⟨?_, le_rfl, fun henabled => absurd henabled hnot, fun _ => rfl⟩
      cases n with
      | none => rfl
      | some n => exact (of_decide_eq_true hzero).symm
    · cases h

/-! ### Vectors -/

/-- What a group of selectors has together. -/
def Usage.amount (v : Usage) (group : List Selector) : ℤ :=
  (group.map fun selector => (v selector).getD 0).sum

def inputSide : List Selector := [.input, .imageInput, .audioInput]

def cacheReads : List Selector := [.cacheRead, .cachedModality .image, .cachedModality .audio]

def cacheWrites : List Selector := CacheTtl.all.map .cacheWrite

def outputSide : List Selector := [.output, .reasoning, .imageOutput, .audioOutput]

theorem insert_self (v : Usage) (selector : Selector) (n : ℤ) :
    v.insert selector n selector = some n := if_pos rfl

theorem insert_ne {selector other : Selector} {n : ℤ} (h : other ≠ selector) :
    v.insert selector n other = v other := if_neg h

theorem insertIf_self (v : Usage) (present : Bool) (selector : Selector) (n : ℤ) :
    v.insertIf present selector n selector = if present = true then some n else v selector := by
  unfold Usage.insertIf
  split
  · exact insert_self v selector n
  · rfl

theorem insertIf_ne {selector other : Selector} {n : ℤ} {present : Bool} (h : other ≠ selector) :
    v.insertIf present selector n other = v other := by
  unfold Usage.insertIf
  split
  · exact insert_ne h
  · rfl

def Usage.Nonneg (v : Usage) : Prop := ∀ selector n, v selector = some n → 0 ≤ n

theorem nonneg_insert {selector : Selector} {n : ℤ} (hv : v.Nonneg) (hn : 0 ≤ n) :
    (v.insert selector n).Nonneg := by
  intro other m hm
  by_cases hother : other = selector
  · subst hother
    rw [insert_self] at hm
    exact Option.some.inj hm ▸ hn
  · rw [insert_ne hother] at hm
    exact hv other m hm

theorem nonneg_insertIf {selector : Selector} {n : ℤ} {present : Bool} (hv : v.Nonneg)
    (hn : present = true → 0 ≤ n) : (v.insertIf present selector n).Nonneg := by
  unfold Usage.insertIf
  split
  · rename_i hpresent
    exact nonneg_insert hv (hn hpresent)
  · exact hv

/-! ### Rounds of the loops -/

/-- A sum that 64 bits hold. -/
def Fits (n : ℤ) : Prop := -2 ^ 63 ≤ n ∧ n < 2 ^ 63

theorem add_fits {a b n : ℤ} (h : add a b = some n) : Fits (a + b) :=
  (checkedI64_eq_some.mp h).2

/-- What a round does to a vector: it inserts under the selectors of `fresh` only. -/
def Usage.Extends (v w : Usage) (fresh : List Selector) : Prop :=
  ∀ selector ∉ fresh, w selector = v selector

theorem extends_insert {v : Usage} {selector : Selector} {n : ℤ} {fresh : List Selector}
    (h : selector ∈ fresh) : v.Extends (v.insert selector n) fresh :=
  fun _ hother => insert_ne fun hsame => hother (hsame ▸ h)

theorem Usage.Extends.amount {v w : Usage} {fresh group : List Selector} (h : v.Extends w fresh)
    (hgroup : ∀ selector ∈ group, selector ∉ fresh) : w.amount group = v.amount group := by
  unfold Usage.amount
  congr 1
  exact List.map_congr_left fun selector hselector => by rw [h selector (hgroup selector hselector)]

/-- The share of a lifetime is its own counter. -/
structure SummedWrites (e : NativeUsageEvidence) (ttls : List CacheTtl) (n : ℤ) (v : Usage)
    (total : ℤ) (w : Usage) : Prop where
  sum : total = n + (ttls.map fun ttl => (e.writes ttl).getD 0).sum
  own : ∀ ttl ∈ ttls, ∃ m, e.writes ttl = some m ∧ 0 ≤ m ∧ w (.cacheWrite ttl) = some m
  kept : v.Extends w (ttls.map .cacheWrite)
  fits : ttls ≠ [] → Fits total

theorem sumWrites_spec {ttls : List CacheTtl} (hnodup : ttls.Nodup) {n : ℤ} {v : Usage} {s : ℤ × Usage}
    (h : sumWrites e ttls n v = some s) : SummedWrites e ttls n v s.1 s.2 := by
  induction ttls generalizing n v with
  | nil =>
    obtain rfl := Option.some.inj h
    exact ⟨(add_zero n).symm, nofun, fun _ _ => rfl, fun hne => absurd rfl hne⟩
  | cons ttl rest ih =>
    unfold sumWrites at h
    obtain ⟨m, hcount, h⟩ := Option.bind_eq_some_iff.mp h
    obtain ⟨n', hadd, h⟩ := Option.bind_eq_some_iff.mp h
    obtain ⟨hm, hnonneg⟩ := count_eq_some hcount
    obtain ⟨hfresh, hrest⟩ := List.nodup_cons.mp hnodup
    have hs := ih hrest h
    have hn' := add_eq_some hadd
    have hhead : s.2 (.cacheWrite ttl) = some m := by
      rw [hs.kept (.cacheWrite ttl) fun hmem => ?_, insert_self]
      obtain ⟨other, hother, hsame⟩ := List.mem_map.mp hmem
      exact hfresh (Selector.cacheWrite.inj hsame ▸ hother)
    refine ⟨?_, fun other hother => ?_, fun selector hselector => ?_, fun _ => ?_⟩
    · rw [hs.sum, hn', List.map_cons, List.sum_cons, hm]
      exact add_assoc n m _
    · rcases List.mem_cons.mp hother with rfl | hother
      · exact ⟨m, hm, hnonneg, hhead⟩
      · exact hs.own other hother
    · rw [List.map_cons, List.mem_cons, not_or] at hselector
      rw [hs.kept selector hselector.2, insert_ne hselector.1]
    · by_cases hnil : rest = []
      · subst hnil
        have htotal := hs.sum
        rw [List.map_nil, List.sum_nil, add_zero] at htotal
        rw [htotal, hn']
        exact add_fits hadd
      · exact hs.fits hnil

/-- A modality takes its uncached share out of the input and its cached one out of the cache. -/
structure SharedInput (c : UsageContract) (e : NativeUsageEvidence) (input read : ℤ) (s : InputShares)
    (modality : Modality) (s' : InputShares) : Prop where
  within : (∀ n, e.inputOf modality = some n → n ≤ input) ∧ ∀ n, e.cachedOf modality = some n → n ≤ read
  ordinary : s'.ordinary + (s'.v modality.inputSelector).getD 0 = s.ordinary
  cache : s'.cache + (s'.v (.cachedModality modality)).getD 0 = s.cache
  ordinary_nonneg : 0 ≤ s.ordinary → 0 ≤ s'.ordinary
  cache_nonneg : 0 ≤ s.cache → 0 ≤ s'.cache
  own : modality ∈ c.inputModalities →
    ∃ n, e.inputOf modality = some n ∧ 0 ≤ n ∧ (e.cachedOf modality).getD 0 ≤ n ∧
      (c.cacheRead = true → (e.cachedOf modality).isSome = true) ∧
      (s'.v modality.inputSelector).getD 0 = n - (e.cachedOf modality).getD 0 ∧
      (s'.v (.cachedModality modality)).getD 0 = (e.cachedOf modality).getD 0
  nonneg : s.v.Nonneg → s'.v.Nonneg
  kept : s.v.Extends s'.v [modality.inputSelector, .cachedModality modality]

theorem inputSelector_ne {modality other : Modality} : modality.inputSelector ≠ .cachedModality other := by
  cases modality <;> exact nofun

theorem insertShares_spec {modality : Modality} {uncached cached : ℤ}
    (hcached : v (.cachedModality modality) = none) (habsent : c.cacheRead = false → cached = 0) :
    (insertShares c v modality uncached cached modality.inputSelector).getD 0 = uncached ∧
      (insertShares c v modality uncached cached (.cachedModality modality)).getD 0 = cached ∧
      (v.Nonneg → 0 ≤ uncached → 0 ≤ cached → (insertShares c v modality uncached cached).Nonneg) ∧
      v.Extends (insertShares c v modality uncached cached)
        [modality.inputSelector, .cachedModality modality] := by
  have hkept : v.Extends (insertShares c v modality uncached cached)
      [modality.inputSelector, .cachedModality modality] := fun selector hselector => by
    rw [List.mem_cons, List.mem_singleton, not_or] at hselector
    exact (insertIf_ne hselector.2).trans (insert_ne hselector.1)
  have hcachedShare : insertShares c v modality uncached cached (.cachedModality modality) =
      if c.cacheRead = true then some cached else none := by
    unfold insertShares
    rw [insertIf_self, insert_ne inputSelector_ne.symm, hcached]
  refine ⟨?_, ?_, fun hv hun hca => nonneg_insertIf (nonneg_insert hv hun) fun _ => hca, hkept⟩
  · unfold insertShares
    rw [insertIf_ne inputSelector_ne, insert_self]
    rfl
  · rw [hcachedShare]
    split
    · rfl
    · rename_i hc
      exact (habsent (Bool.eq_false_of_not_eq_true hc)).symm

theorem shareInput_spec {input read : ℤ} {s s' : InputShares} {modality : Modality}
    (hinput : s.v modality.inputSelector = none) (hcached : s.v (.cachedModality modality) = none)
    (h : shareInput c e input read s modality = some s') : SharedInput c e input read s modality s' := by
  unfold shareInput at h
  split at h
  · cases h
  rename_i hbounds
  rw [not_or] at hbounds
  have hwithin {n : Option ℤ} {bound : ℤ} (hbound : ¬n.any (bound < ·) = true) :
      ∀ m, n = some m → m ≤ bound := by
    rintro m rfl
    exact not_lt.mp fun hlt => hbound (decide_eq_true hlt)
  have hin := hwithin hbounds.1
  have hread := hwithin hbounds.2
  split at h
  · rename_i hmem
    obtain ⟨n, hn, h⟩ := Option.bind_eq_some_iff.mp h
    obtain ⟨cached, happlicable, h⟩ := Option.bind_eq_some_iff.mp h
    obtain ⟨uncached, huncached, h⟩ := Option.bind_eq_some_iff.mp h
    obtain ⟨ordinary, hordinary, h⟩ := Option.bind_eq_some_iff.mp h
    obtain ⟨cache, hcache, h⟩ := Option.bind_eq_some_iff.mp h
    obtain ⟨inputModalities, -, h⟩ := Option.bind_eq_some_iff.mp h
    obtain ⟨cacheModalities, -, h⟩ := Option.bind_eq_some_iff.mp h
    obtain rfl := Option.some.inj h
    obtain ⟨hn, hnonneg⟩ := count_eq_some hn
    obtain ⟨hdefault, hcachednn, hpresent, habsent⟩ := applicable_eq_some happlicable
    obtain ⟨huncached, huncachednn⟩ := sub_eq_some huncached
    obtain ⟨hordinary, hordinarynn⟩ := sub_eq_some hordinary
    obtain ⟨hcache, hcachenn⟩ := sub_eq_some hcache
    obtain ⟨hshare, hshare', hnn, hkept⟩ := @insertShares_spec c s.v modality uncached cached hcached habsent
    have htaken : (e.cachedOf modality).getD 0 = cached := hdefault.symm
    refine ⟨⟨hin, hread⟩, ?_, ?_, fun _ => hordinarynn, fun _ => hcachenn, fun _ => ?_,
      fun hv => hnn hv huncachednn hcachednn, hkept⟩
    · change ordinary + (insertShares c s.v modality uncached cached _).getD 0 = s.ordinary
      rw [hshare]
      omega
    · change cache + (insertShares c s.v modality uncached cached _).getD 0 = s.cache
      rw [hshare']
      omega
    · rw [htaken]
      exact ⟨n, hn, hnonneg, by omega, fun hc => by rw [hpresent hc]; rfl, hshare.trans huncached, hshare'⟩
  · rename_i hnot
    obtain rfl := Option.some.inj h
    refine ⟨⟨hin, hread⟩, ?_, ?_, id, id, fun hmem => absurd hmem hnot, id, fun _ _ => rfl⟩
    · rw [hinput]
      exact add_zero _
    · rw [hcached]
      exact add_zero _

/-- A modality takes its share out of the output. -/
structure SharedOutput (c : UsageContract) (e : NativeUsageEvidence) (totalOutput reasoning : ℤ)
    (s : ℤ × Usage) (modality : Modality) (s' : ℤ × Usage) : Prop where
  within : ∀ n, e.outputOf modality = some n → n ≤ totalOutput
  ordinary : s'.1 + (s'.2 modality.outputSelector).getD 0 = s.1
  ordinary_nonneg : 0 ≤ s.1 → 0 ≤ s'.1
  own : modality ∈ c.outputModalities → reasoning = 0 ∧ ∃ n, e.outputOf modality = some n ∧ 0 ≤ n ∧
    s'.2 modality.outputSelector = some n
  nonneg : s.2.Nonneg → s'.2.Nonneg
  kept : s.2.Extends s'.2 [modality.outputSelector]

theorem shareOutput_spec {totalOutput reasoning : ℤ} {s s' : ℤ × Usage} {modality : Modality}
    (houtput : s.2 modality.outputSelector = none)
    (h : shareOutput c e totalOutput reasoning s modality = some s') :
    SharedOutput c e totalOutput reasoning s modality s' := by
  unfold shareOutput at h
  split at h
  · cases h
  rename_i hbound
  have hwithin : ∀ n, e.outputOf modality = some n → n ≤ totalOutput := fun n hn =>
    not_lt.mp fun hlt => hbound (by rw [hn]; exact decide_eq_true hlt)
  split at h
  · rename_i hmem
    split at h
    · cases h
    rename_i hreasoning
    obtain ⟨n, hn, h⟩ := Option.bind_eq_some_iff.mp h
    obtain ⟨ordinary, hordinary, h⟩ := Option.bind_eq_some_iff.mp h
    obtain rfl := Option.some.inj h
    obtain ⟨hn, hnonneg⟩ := count_eq_some hn
    obtain ⟨hordinary, hordinarynn⟩ := sub_eq_some hordinary
    have hshare := insert_self s.2 modality.outputSelector n
    refine ⟨hwithin, ?_, fun _ => hordinarynn,
      fun _ => ⟨not_not.mp hreasoning, n, hn, hnonneg, hshare⟩, fun hv => nonneg_insert hv hnonneg,
      extends_insert List.mem_cons_self⟩
    change ordinary + (s.2.insert modality.outputSelector n modality.outputSelector).getD 0 = s.1
    rw [hshare]
    change ordinary + n = s.1
    omega
  · rename_i hnot
    obtain rfl := Option.some.inj h
    refine ⟨hwithin, ?_, id, fun hmem => absurd hmem hnot, id, fun _ _ => rfl⟩
    rw [houtput]
    exact add_zero _

end NyxId.ModelUsage
