import NyxId.SandboxRuntime.Model
import Mathlib.Data.List.Chain

/-!
The windows of a Sandbox follow one another. The cursor is the end of the last
window: a renewal starts there, a new generation starts after it.
-/

namespace NyxId.SandboxRuntime

open Interleave

def monthOfSecond (second : ℤ) : ℤ × ℤ := Billing.monthOfDay (second / secondsPerDay)

/-- A finite window that one invoice month contains. -/
structure WindowOk (w : SandboxBillingWindow) : Prop where
  nonempty : w.coveredFrom < w.coveredUntil
  bounded : w.coveredUntil - w.coveredFrom ≤ maxWindowSeconds
  month : ∀ second, w.coveredFrom ≤ second → second < w.coveredUntil →
    monthOfSecond second = monthOfSecond w.coveredFrom

theorem finiteQuantities_eq_ok {allocation quantities : List ℤ} {seconds : ℤ}
    (h : finiteQuantities allocation seconds = .ok quantities) :
    1 ≤ seconds ∧ seconds ≤ maxWindowSeconds := by
  unfold finiteQuantities at h
  split at h
  · cases h
  · rename_i hseconds
    exact Decidable.not_not.mp hseconds

theorem windowUntil_eq_ok {start seconds limit : ℤ} (h : windowUntil start seconds = .ok limit) :
    limit ≤ Billing.firstDayOfMonth (Billing.nextMonth (monthOfSecond start)).1
      (Billing.nextMonth (monthOfSecond start)).2 * secondsPerDay := by
  unfold windowUntil at h
  dsimp only at h
  split at h
  · cases h
  split at h
  · cases h
  obtain ⟨sum, -, h⟩ := bind_eq_ok.mp h
  cases h
  exact min_le_right _ _

theorem coverageLimit_eq_ok {rateCards : List SandboxRateCard} {rateId : Id}
    {start limit stop : ℤ} (h : coverageLimit rateCards rateId start limit = .ok stop) :
    stop ≤ limit := by
  unfold coverageLimit at h
  split at h
  · cases h
  obtain ⟨at_, -, h⟩ := bind_eq_ok.mp h
  split at h
  · cases h
  split at h
  · cases h
  split at h
  · cases h
  split at h
  · cases h
    exact le_rfl
  · cases h
    exact min_le_left _ _

/-- Every second before the boundary of the month is a second of the month. -/
theorem monthOfSecond_eq {start second limit seconds : ℤ}
    (hlimit : windowUntil start seconds = .ok limit) (hle : start ≤ second)
    (hlt : second < limit) : monthOfSecond second = monthOfSecond start := by
  have hboundary := hlt.trans_le (windowUntil_eq_ok hlimit)
  refine Billing.monthOfDay_eq (Int.ediv_le_ediv (by decide) hle) ?_
  exact Int.ediv_lt_of_lt_mul (by decide) hboundary

/-- Where the next window starts: at the end of the live coverage of the same
generation, or after the coverage of the generation before. -/
theorem nextCoverage_eq_ok {cursor : Option SandboxBillingCursor} {input : ReserveSandboxWindow}
    {now start : ℤ} (h : nextCoverage cursor input now = .ok start)
    {previous : SandboxBillingCursor} (hcursor : cursor = some previous) :
    (input.runtimeGeneration = previous.runtimeGeneration ∧ start = previous.coveredUntil) ∨
      (input.runtimeGeneration = previous.runtimeGeneration + 1 ∧
        previous.coveredUntil < start) := by
  subst hcursor
  obtain ⟨prospective, hprospective, h⟩ := bind_eq_ok.mp h
  have hnext := (checkedI64_eq_some.mp (orInvalid_eq_ok hprospective)).1
  dsimp only at h
  split at h
  · cases h
  split at h
  · rename_i hsame
    split at h
    · cases h
    · cases h
      exact .inl ⟨hsame.symm, rfl⟩
  · obtain ⟨generation, hgeneration, h⟩ := bind_eq_ok.mp h
    have hsum := (checkedI64_eq_some.mp (orInvalid_eq_ok hgeneration)).1
    split at h
    · cases h
    · rename_i hbad
      simp only [not_or, not_lt, Decidable.not_not] at hbad
      cases h
      exact .inr ⟨by omega, by omega⟩

variable {digest : ReserveSandboxWindow → String}

/-- What one admission can do: give back a window, or fund the next one. -/
theorem reserveSandboxWindow_cases {producer : Id} {admission : Admission} {now : Time}
    {input : ReserveSandboxWindow} {s t : State} {receipt : SandboxBillingWindow}
    (h : reserveSandboxWindow digest producer admission now input s = .ok (t, receipt)) :
    t = s ∨ ∃ (w : SandboxBillingWindow) (next : SandboxBillingCursor),
      t.windows = s.windows ++ [w] ∧
      t.cursors = s.cursors.insert (w.producerId, w.sandboxId) next ∧
      w.runtimeGeneration = input.runtimeGeneration ∧
      next.runtimeGeneration = w.runtimeGeneration ∧ next.coveredUntil = w.coveredUntil ∧
      nextCoverage (s.cursors.lookup (w.producerId, w.sandboxId)) input (now / 1000) =
        .ok w.coveredFrom ∧
      WindowOk w := by
  obtain ⟨estimated, -, h⟩ := bind_eq_ok.mp h
  split at h
  · cases h
  split at h
  · obtain ⟨found, -, h⟩ := bind_eq_ok.mp h
    cases h
    exact .inl rfl
  dsimp only at h
  split at h
  · cases h
  split at h
  · cases h
  split at h
  · cases h
  split at h
  · cases h
  obtain ⟨accepted, -, h⟩ := bind_eq_ok.mp h
  obtain ⟨start, hstart, h⟩ := bind_eq_ok.mp h
  split at h
  · cases h
  split at h
  · cases h
  obtain ⟨limit, hlimit, h⟩ := bind_eq_ok.mp h
  obtain ⟨stop, hstop, h⟩ := bind_eq_ok.mp h
  obtain ⟨quantities, hquantities, h⟩ := bind_eq_ok.mp h
  cases h
  obtain ⟨hnonempty, hbounded⟩ := finiteQuantities_eq_ok hquantities
  refine .inr ⟨_, _, rfl, rfl, ?_⟩
  refine ⟨rfl, rfl, rfl, hstart, ?_, hbounded, fun second hle hlt => ?_⟩
  · show start < stop
    omega
  · exact monthOfSecond_eq hlimit hle (hlt.trans_le (coverageLimit_eq_ok hstop))

def windowsOf (s : State) (producer sandbox : Id) : List SandboxBillingWindow :=
  s.windows.filter fun w => w.producerId = producer ∧ w.sandboxId = sandbox

def ofGeneration (ws : List SandboxBillingWindow) (generation : ℤ) : List SandboxBillingWindow :=
  ws.filter fun w => w.runtimeGeneration = generation

/-- The law of the windows funded for one Sandbox, in the order of acceptance. -/
structure CoverageLaw (ws : List SandboxBillingWindow) : Prop where
  ordered : ws.Pairwise fun a b => a.coveredUntil ≤ b.coveredFrom
  windows : ∀ w ∈ ws, WindowOk w
  contiguous : ∀ generation,
    (ofGeneration ws generation).IsChain fun a b => b.coveredFrom = a.coveredUntil

/-- The cursor stands at the end of the last window. -/
structure AtCursor (ws : List SandboxBillingWindow) (cursor : SandboxBillingCursor) : Prop where
  last : ∀ w, (ofGeneration ws cursor.runtimeGeneration).getLast? = some w →
    w.coveredUntil = cursor.coveredUntil
  generations : ∀ w ∈ ws, w.runtimeGeneration ≤ cursor.runtimeGeneration
  covered : ∀ w ∈ ws, w.coveredUntil ≤ cursor.coveredUntil

theorem ofGeneration_concat (ws : List SandboxBillingWindow) (w : SandboxBillingWindow)
    (generation : ℤ) : ofGeneration (ws ++ [w]) generation =
      if w.runtimeGeneration = generation then ofGeneration ws generation ++ [w]
      else ofGeneration ws generation := by
  unfold ofGeneration
  by_cases hsame : w.runtimeGeneration = generation <;> simp [List.filter_append, hsame]

/-- A first window, or one that follows the cursor, keeps the law. -/
theorem CoverageLaw.concat {ws : List SandboxBillingWindow} {w : SandboxBillingWindow}
    (h : CoverageLaw ws) (hw : WindowOk w)
    (hafter : ∀ v ∈ ws, v.coveredUntil ≤ w.coveredFrom)
    (hnext : ∀ v, (ofGeneration ws w.runtimeGeneration).getLast? = some v →
      w.coveredFrom = v.coveredUntil) : CoverageLaw (ws ++ [w]) := by
  refine ⟨?_, ?_, fun generation => ?_⟩
  · rw [List.pairwise_append]
    refine ⟨h.ordered, List.pairwise_singleton _ _, fun v hv u hu => ?_⟩
    obtain rfl := List.mem_singleton.mp hu
    exact hafter v hv
  · intro v hv
    rcases List.mem_append.mp hv with hv | hv
    · exact h.windows v hv
    · obtain rfl := List.mem_singleton.mp hv
      exact hw
  · rw [ofGeneration_concat]
    split
    · rename_i hsame
      subst hsame
      refine (h.contiguous _).append (List.isChain_singleton _) fun v hv u hu => ?_
      obtain rfl : w = u := by simpa using hu
      exact hnext v hv
    · exact h.contiguous generation

theorem AtCursor.concat {ws : List SandboxBillingWindow} {w : SandboxBillingWindow}
    {next : SandboxBillingCursor} (hgeneration : next.runtimeGeneration = w.runtimeGeneration)
    (huntil : next.coveredUntil = w.coveredUntil)
    (hgenerations : ∀ v ∈ ws, v.runtimeGeneration ≤ w.runtimeGeneration)
    (hcovered : ∀ v ∈ ws, v.coveredUntil ≤ w.coveredUntil) : AtCursor (ws ++ [w]) next := by
  refine ⟨fun v hv => ?_, fun v hv => ?_, fun v hv => ?_⟩
  · rw [hgeneration, ofGeneration_concat, if_pos rfl, List.getLast?_append] at hv
    obtain rfl : w = v := by simpa using hv
    exact huntil.symm
  · rw [hgeneration]
    rcases List.mem_append.mp hv with hv | hv
    · exact hgenerations v hv
    · obtain rfl := List.mem_singleton.mp hv
      exact le_rfl
  · rw [huntil]
    rcases List.mem_append.mp hv with hv | hv
    · exact hcovered v hv
    · obtain rfl := List.mem_singleton.mp hv
      exact le_rfl

/-- Every Sandbox keeps the law, and its cursor stands at its last window. -/
structure CoverageInv (s : State) : Prop where
  law : ∀ producer sandbox, CoverageLaw (windowsOf s producer sandbox)
  fresh : ∀ producer sandbox, s.cursors.lookup (producer, sandbox) = none →
    windowsOf s producer sandbox = []
  cursor : ∀ producer sandbox cursor, s.cursors.lookup (producer, sandbox) = some cursor →
    AtCursor (windowsOf s producer sandbox) cursor

theorem windowsOf_concat {s t : State} {w : SandboxBillingWindow}
    (ht : t.windows = s.windows ++ [w]) (producer sandbox : Id) :
    windowsOf t producer sandbox = if w.producerId = producer ∧ w.sandboxId = sandbox then
      windowsOf s producer sandbox ++ [w] else windowsOf s producer sandbox := by
  unfold windowsOf
  rw [ht, List.filter_append]
  split
  · rename_i hsame
    simp [hsame]
  · rename_i hother
    simp [hother]

theorem CoverageInv.admitted {s t : State} {w : SandboxBillingWindow} {next : SandboxBillingCursor}
    {input : ReserveSandboxWindow} {now : ℤ} (h : CoverageInv s) (hw : WindowOk w)
    (hwindows : t.windows = s.windows ++ [w])
    (hcursors : t.cursors = s.cursors.insert (w.producerId, w.sandboxId) next)
    (hinput : w.runtimeGeneration = input.runtimeGeneration)
    (hgeneration : next.runtimeGeneration = w.runtimeGeneration)
    (huntil : next.coveredUntil = w.coveredUntil)
    (hstart : nextCoverage (s.cursors.lookup (w.producerId, w.sandboxId)) input now =
      .ok w.coveredFrom) : CoverageInv t := by
  have hnonempty := hw.nonempty
  obtain ⟨ws, hws⟩ : ∃ ws, ws = windowsOf s w.producerId w.sandboxId := ⟨_, rfl⟩
  -- The new window starts after every window of the Sandbox, in their generation or the next.
  have hplace : (∀ v ∈ ws, v.coveredUntil ≤ w.coveredFrom) ∧
      (∀ v ∈ ws, v.runtimeGeneration ≤ w.runtimeGeneration) ∧
      (∀ v, (ofGeneration ws w.runtimeGeneration).getLast? = some v →
        w.coveredFrom = v.coveredUntil) := by
    cases hcursor : s.cursors.lookup (w.producerId, w.sandboxId) with
    | none =>
      have hempty := h.fresh _ _ hcursor
      simp [hws, hempty, ofGeneration]
    | some cursor =>
      have hat := h.cursor _ _ _ hcursor
      rw [← hws] at hat
      rcases nextCoverage_eq_ok hstart hcursor with ⟨hsame, hfrom⟩ | ⟨hnext, hfrom⟩
      · refine ⟨fun v hv => ?_, fun v hv => ?_, fun v hv => ?_⟩
        · rw [hfrom]
          exact hat.covered v hv
        · rw [hinput, hsame]
          exact hat.generations v hv
        · rw [hinput, hsame] at hv
          rw [hfrom, hat.last v hv]
      · refine ⟨fun v hv => ?_, fun v hv => ?_, fun v hv => ?_⟩
        · have hcovered := hat.covered v hv
          omega
        · have hle := hat.generations v hv
          omega
        · have hmem := List.mem_filter.mp (List.mem_of_getLast? hv)
          have hle := hat.generations v hmem.1
          have hgen : v.runtimeGeneration = w.runtimeGeneration := by simpa using hmem.2
          omega
  obtain ⟨hafter, hgenerations, hlast⟩ := hplace
  refine ⟨fun producer sandbox => ?_, fun producer sandbox hnone => ?_,
    fun producer sandbox cursor hcursor => ?_⟩
  · rw [windowsOf_concat hwindows]
    split
    · rename_i hsame
      obtain ⟨rfl, rfl⟩ := hsame
      rw [← hws]
      exact (hws ▸ h.law _ _).concat hw hafter hlast
    · exact h.law producer sandbox
  · rw [hcursors] at hnone
    rw [windowsOf_concat hwindows]
    by_cases hsame : w.producerId = producer ∧ w.sandboxId = sandbox
    · obtain ⟨rfl, rfl⟩ := hsame
      rw [AList.lookup_insert] at hnone
      cases hnone
    · rw [if_neg hsame]
      rw [AList.lookup_insert_ne (by simpa [Prod.ext_iff, eq_comm] using hsame)] at hnone
      exact h.fresh _ _ hnone
  · rw [hcursors] at hcursor
    rw [windowsOf_concat hwindows]
    by_cases hsame : w.producerId = producer ∧ w.sandboxId = sandbox
    · obtain ⟨rfl, rfl⟩ := hsame
      rw [AList.lookup_insert] at hcursor
      obtain rfl := Option.some.inj hcursor
      rw [if_pos ⟨rfl, rfl⟩, ← hws]
      refine .concat hgeneration huntil hgenerations fun v hv => ?_
      have hle := hafter v hv
      omega
    · rw [if_neg hsame]
      rw [AList.lookup_insert_ne (by simpa [Prod.ext_iff, eq_comm] using hsame)] at hcursor
      exact h.cursor _ _ _ hcursor

/-- Writes that keep the identity and the coverage of every window. -/
theorem CoverageInv.rewrite {s t : State} {f : SandboxBillingWindow → SandboxBillingWindow}
    (h : CoverageInv s) (hwindows : t.windows = s.windows.map f)
    (hproducer : ∀ w, (f w).producerId = w.producerId) (hsandbox : ∀ w, (f w).sandboxId = w.sandboxId)
    (hgeneration : ∀ w, (f w).runtimeGeneration = w.runtimeGeneration)
    (hfrom : ∀ w, (f w).coveredFrom = w.coveredFrom)
    (huntil : ∀ w, (f w).coveredUntil = w.coveredUntil)
    (hcursors : ∀ key, (t.cursors.lookup key).map (fun c => (c.runtimeGeneration, c.coveredUntil)) =
      (s.cursors.lookup key).map fun c => (c.runtimeGeneration, c.coveredUntil)) :
    CoverageInv t := by
  have hof : ∀ producer sandbox, windowsOf t producer sandbox =
      (windowsOf s producer sandbox).map f := by
    intro producer sandbox
    unfold windowsOf
    rw [hwindows, List.filter_map]
    simp only [Function.comp_def, hproducer, hsandbox]
  have hgen : ∀ ws generation, ofGeneration (ws.map f) generation =
      (ofGeneration ws generation).map f := by
    intro ws generation
    unfold ofGeneration
    rw [List.filter_map]
    simp only [Function.comp_def, hgeneration]
  refine ⟨fun producer sandbox => ?_, fun producer sandbox hnone => ?_,
    fun producer sandbox cursor hcursor => ?_⟩
  · have hlaw := h.law producer sandbox
    rw [hof]
    refine ⟨?_, fun w hw => ?_, fun generation => ?_⟩
    · rw [List.pairwise_map]
      simpa only [hfrom, huntil] using hlaw.ordered
    · obtain ⟨v, hv, rfl⟩ := List.mem_map.mp hw
      obtain ⟨hnonempty, hbounded, hmonth⟩ := hlaw.windows v hv
      refine ⟨?_, ?_, ?_⟩ <;> rw [hfrom, huntil]
      · exact hnonempty
      · exact hbounded
      · exact hmonth
    · rw [hgen, List.isChain_map]
      simpa only [hfrom, huntil] using hlaw.contiguous generation
  · have hkept := hcursors (producer, sandbox)
    rw [hnone, Option.map_none, eq_comm, Option.map_eq_none_iff] at hkept
    rw [hof, h.fresh _ _ hkept, List.map_nil]
  · have hkept := hcursors (producer, sandbox)
    rw [hcursor, Option.map_some, eq_comm, Option.map_eq_some_iff] at hkept
    obtain ⟨old, hold, heq⟩ := hkept
    obtain ⟨hsame, hcovered⟩ := Prod.mk.inj heq
    have hat := h.cursor _ _ _ hold
    rw [hof]
    refine ⟨fun w hw => ?_, fun w hw => ?_, fun w hw => ?_⟩
    · rw [hgen, List.getLast?_map, Option.map_eq_some_iff] at hw
      obtain ⟨v, hv, rfl⟩ := hw
      rw [huntil, ← hcovered]
      exact hat.last v (hsame ▸ hv)
    · obtain ⟨v, hv, rfl⟩ := List.mem_map.mp hw
      rw [hgeneration, ← hsame]
      exact hat.generations v hv
    · obtain ⟨v, hv, rfl⟩ := List.mem_map.mp hw
      rw [huntil, ← hcovered]
      exact hat.covered v hv

theorem finalizeSandboxWindow_coverage {now : Time} {windowId : Id} {s t : State}
    (hs : CoverageInv s) (h : finalizeSandboxWindow now windowId s = .ok t) : CoverageInv t := by
  unfold finalizeSandboxWindow at h
  split at h
  · cases h
  rename_i window hfound
  split at h
  · cases h
    exact hs
  split at h
  · cases h
  rename_i cursor hcursor
  cases h
  refine hs.rewrite rfl ?_ ?_ ?_ ?_ ?_ fun key => ?_
  · intro w
    split <;> rfl
  · intro w
    split <;> rfl
  · intro w
    split <;> rfl
  · intro w
    split <;> rfl
  · intro w
    split <;> rfl
  · dsimp only
    by_cases hkey : key = (window.producerId, window.sandboxId)
    · subst hkey
      rw [AList.lookup_insert, hcursor]
      rfl
    · rw [AList.lookup_insert_ne hkey]

theorem CoverageInv.of_eq {s t : State} (h : CoverageInv s) (hwindows : t.windows = s.windows)
    (hcursors : t.cursors = s.cursors) : CoverageInv t := by
  have hof : ∀ producer sandbox, windowsOf t producer sandbox = windowsOf s producer sandbox := by
    intro producer sandbox
    unfold windowsOf
    rw [hwindows]
  refine ⟨fun producer sandbox => ?_, fun producer sandbox hnone => ?_,
    fun producer sandbox cursor hcursor => ?_⟩
  · rw [hof]
    exact h.law producer sandbox
  · rw [hof]
    exact h.fresh _ _ (hcursors ▸ hnone)
  · rw [hof]
    exact h.cursor _ _ _ (hcursors ▸ hcursor)

theorem apply_coverage {op : Operation} {s t : State} (hs : CoverageInv s)
    (h : apply digest op s = .ok t) : CoverageInv t := by
  cases op with
  | publishRate card =>
    cases h
    exact hs.of_eq rfl rfl
  | syncRate id synced =>
    cases h
    exact hs.of_eq rfl rfl
  | quote quote =>
    simp only [apply] at h
    split at h
    · cases h
    · cases h
      exact hs.of_eq rfl rfl
  | reserve producer admission now input =>
    simp only [apply] at h
    cases hreserve : reserveSandboxWindow digest producer admission now input s with
    | error e =>
      rw [hreserve] at h
      cases h
    | ok result =>
      rw [hreserve] at h
      cases h
      obtain ⟨t, receipt⟩ := result
      rcases reserveSandboxWindow_cases hreserve with rfl | ⟨w, next, hwindows, hcursors, hinput,
        hgeneration, huntil, hstart, hw⟩
      · exact hs
      · exact hs.admitted hw hwindows hcursors hinput hgeneration huntil hstart
  | finalize now windowId => exact finalizeSandboxWindow_coverage hs h

theorem coverageInv_of_initial {s : State} (h : (sandboxRuntime digest).Initial s) :
    CoverageInv s := by
  obtain ⟨hcursors, hwindows⟩ := h
  have hof : ∀ producer sandbox, windowsOf s producer sandbox = [] := by
    intro producer sandbox
    unfold windowsOf
    rw [hwindows, List.filter_nil]
  refine ⟨fun producer sandbox => ?_, fun producer sandbox _ => hof producer sandbox,
    fun producer sandbox cursor hcursor => ?_⟩
  · rw [hof]
    exact ⟨List.Pairwise.nil, by simp, fun _ => List.isChain_nil⟩
  · rw [hcursors, AList.lookup_empty] at hcursor
    cases hcursor

/-- In every run of admissions, whatever the clocks say, the windows of every Sandbox
are finite, in order, disjoint, within one month each, and contiguous in a generation. -/
theorem sandbox_windows_lawful {s : State} (h : (sandboxRuntime digest).Reaches (fun _ _ => True) s)
    (producer sandbox : Id) : CoverageLaw (windowsOf s producer sandbox) := by
  have hinv := h.invariant (P := CoverageInv) (fun s hs => coverageInv_of_initial hs)
    fun op s t hs _ happly => apply_coverage hs happly
  exact hinv.law producer sandbox

/-- Nothing is funded yet, and one rate card is in effect. -/
def unfunded : State where
  rateCards := [⟨1, 1, 0, true⟩]
  quotes := ∅
  cursors := ∅
  windows := []
  nextId := 0

def sandboxQuote (id : Id) : SandboxBillingQuote where
  id := id
  producerId := 1
  ownerId := 2
  sandboxId := 3
  maximumAllocation := ⟨1000, 512, 10⟩
  rateCardId := 1
  acceptedOperationId := none
  acceptBefore := 1735700000000
  acceptedAt := none

def windowRequest (request generation : ℕ) (previous : Option Id) : ReserveSandboxWindow where
  requestId := request
  quoteId := generation
  ownerId := 2
  sandboxId := 3
  runtimeGeneration := generation
  operationId := 7
  previousWindowId := previous
  seconds := 100
  allocation := ⟨1000, 512, 10⟩

/-- A window cut at the end of December 2024, its renewal, and a new generation after
both have their evidence. -/
def twoGenerations : List Operation :=
  [.quote (sandboxQuote 1), .quote (sandboxQuote 2),
    .reserve 1 ⟨sandboxQuote 1, true⟩ 1735689539000 (windowRequest 1 1 none),
    .reserve 1 ⟨sandboxQuote 1, true⟩ 1735689590000 (windowRequest 2 1 (some 0)),
    .finalize 1735689710000 0, .finalize 1735689710000 1,
    .reserve 1 ⟨sandboxQuote 2, true⟩ 1735689710000 (windowRequest 3 2 (some 1))]

theorem two_generations_lawful : ∃ s, Transactions.run (T := sandboxRuntime fun _ => "")
      twoGenerations unfunded = .ok s ∧
    (windowsOf s 1 3).map (fun w => (w.runtimeGeneration, w.coveredFrom, w.coveredUntil)) =
      [(1, 1735689540, 1735689600), (1, 1735689600, 1735689700), (2, 1735689711, 1735689811)] ∧
    CoverageLaw (windowsOf s 1 3) := by
  have hrun : ∃ s, Transactions.run (T := sandboxRuntime fun _ => "") twoGenerations unfunded =
      .ok s ∧ (windowsOf s 1 3).map
        (fun w => (w.runtimeGeneration, w.coveredFrom, w.coveredUntil)) =
      [(1, 1735689540, 1735689600), (1, 1735689600, 1735689700), (2, 1735689711, 1735689811)] :=
    ⟨_, rfl, by decide⟩
  obtain ⟨s, hs, hwindows⟩ := hrun
  exact ⟨s, hs, hwindows, sandbox_windows_lawful (.run twoGenerations (fun _ _ _ => trivial)
    (.start ⟨rfl, rfl⟩) hs) 1 3⟩

end NyxId.SandboxRuntime
