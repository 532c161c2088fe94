import NyxId.ExactApproval.Model

/-!
What holds of an exact approval whoever redeems it, and what each operation does to it.
-/

namespace NyxId.ExactApproval

open Interleave Machine

variable {digest : String → String} {skew : ℕ → ℤ} {s t : Store} {w v : ℕ}

def Redemption.Terminal (r : Redemption) : Prop := r.status ≠ .executing

/-- Clocks that differ by at most five minutes less the part of a time that the database drops. -/
def ClocksClose (skew : ℕ → ℤ) : Prop := ∀ v w, skew v - skew w ≤ 300 * nanosPerSecond - nanosPerMilli

/-- The result of a redemption that has ended. -/
def Redemption.outcome (r : Redemption) : ApprovalResult :=
  ⟨redemptionState r.status, r.receipt, r.failureCode⟩

/-- A result says what the request that it was made of stores. -/
def Faithful (request : ApprovalRequest) (r : ApprovalResult) : Prop :=
  ∀ red, request.redemption = some red → red.Terminal → r = red.outcome

/-- What is a call's own: its result, and what follows from the claim that it stored. -/
structure View where
  result : Option (Except AppError ApprovalResult)
  own : Option (ℤ × Bool × List Effect × Option Executed)

def view (w : ℕ) (s : Store) : View :=
  ⟨s.results w, (s.claim.filter (·.caller = w)).map fun c => (c.now, s.closed, s.effects, s.reported)⟩

structure Inv (digest : String → String) (skew : ℕ → ℤ) (s : Store) : Prop where
  claimed : ∀ red, s.request.redemption = some red →
    s.request.status = .approved ∧ ∃ c, s.claim = some c ∧ red.admittedAt = stored c.now
  unclaimed : s.request.redemption = none → s.claim = none ∧ s.closed = false ∧ s.effects = []
  codes : ∀ red, s.request.redemption = some red → red.status = .revoked ∨ red.status = .drifted →
    red.failureCode.isSome = true
  ended : ∀ red, s.request.redemption = some red → red.Terminal → s.closed = true ∨
    ∃ c v, s.claim = some c ∧ stored c.now + executionOutcomeRecoveryGrace ≤ s.clock + skew v
  effects : s.effects.length ≤ 1 ∧ ∀ e ∈ s.effects, e.executing = true
  settled : s.effects ≠ [] → ∀ red, s.request.redemption = some red → red.Terminal →
    (∃ x now completedAt, s.reported = some x ∧ red = (redemptionOf digest now completedAt x).1.stored) ∨
      red.status = .failed ∧ red.failureCode = some providerOutcomeUnknown
  loaded : ∀ w row red, s.loaded w = some row → row.redemption = some red → red.Terminal →
    s.request.redemption = some red
  approved : ∀ w row red, s.loaded w = some row → row.redemption = some red → row.status = .approved
  results : ∀ w r, s.results w = some (.ok r) → ∃ row, s.loaded w = some row ∧ Faithful row r

structure Rely (w : ℕ) (s t : Store) : Prop where
  view : view w t = view w s
  loaded : t.loaded w = s.loaded w
  clock : s.clock ≤ t.clock

def discipline (digest : String → String) (skew : ℕ → ℤ) : Discipline (machine digest skew) where
  Cond := anyStep
  Inv := Inv digest skew
  Rely := Rely
  Idle _ _ := True
  Fresh w s := view w s = ⟨none, none⟩
  rely_refl _ _ := ⟨rfl, rfl, le_rfl⟩
  rely_trans _ _ _ _ h h' := ⟨h'.view.trans h.view, h'.loaded.trans h.loaded, h.clock.trans h'.clock⟩
  idle_stable _ _ _ _ _ := trivial
  fresh_stable _ _ _ h hfresh := h.view.trans hfresh

/-! ### Views -/

theorem own_of_claim {c : Claim} (h : s.claim = some c) (hw : c.caller = w) :
    (view w s).own = some (c.now, s.closed, s.effects, s.reported) := by
  unfold view
  rw [h, Option.filter_some, if_pos (decide_eq_true hw)]
  rfl

theorem own_of_other {c : Claim} (h : s.claim = some c) (hw : c.caller ≠ w) :
    (view w s).own = none := by
  unfold view
  rw [h, Option.filter_some, if_neg fun hsame => hw (of_decide_eq_true hsame)]
  rfl

theorem own_of_none (h : s.claim = none) : (view w s).own = none := by
  unfold view
  rw [h]
  rfl

/-- A call with something of its own has stored the claim. -/
theorem claim_of_own {now : ℤ} {closed : Bool} {effects : List Effect} {reported : Option Executed}
    (h : (view w s).own = some (now, closed, effects, reported)) :
    s.claim = some ⟨w, now⟩ ∧ s.closed = closed ∧ s.effects = effects ∧ s.reported = reported := by
  cases hclaim : s.claim with
  | none =>
    rw [own_of_none hclaim] at h
    cases h
  | some c =>
    by_cases hw : c.caller = w
    · rw [own_of_claim hclaim hw] at h
      obtain ⟨rfl, rfl, rfl, rfl⟩ := Option.some.inj h
      obtain ⟨caller, now⟩ := c
      obtain rfl : caller = w := hw
      exact ⟨rfl, rfl, rfl, rfl⟩
    · rw [own_of_other hclaim hw] at h
      cases h

/-! ### Stores that a step leaves -/

theorem stored_le (t : ℤ) : stored t ≤ t := by
  unfold stored nanosPerMilli
  omega

theorem lt_stored (t : ℤ) : t < stored t + nanosPerMilli := by
  unfold stored nanosPerMilli
  omega

/-- Time passes. -/
theorem guar_clock (hs : Inv digest skew s) (elapsed : ℕ) :
    (discipline digest skew).Guar w s { s with clock := s.clock + elapsed } := by
  refine ⟨⟨hs.claimed, hs.unclaimed, hs.codes, fun red hred hterminal => ?_, hs.effects, hs.settled,
    hs.loaded, hs.approved, hs.results⟩, fun v _ => ⟨rfl, rfl, ?_⟩⟩
  · rcases hs.ended red hred hterminal with hclosed | ⟨c, v, hc, hle⟩
    · exact .inl hclosed
    · refine .inr ⟨c, v, hc, ?_⟩
      change _ ≤ s.clock + elapsed + skew v
      omega
  · change s.clock ≤ s.clock + elapsed
    omega

theorem results_read (hs : Inv digest skew s) (hnone : s.results w = none) (row : ApprovalRequest) :
    ∀ v r, s.results v = some (.ok r) →
      ∃ found, Function.update s.loaded w (some row) v = some found ∧ Faithful found r := by
  intro v r hr
  have hv : v ≠ w := by
    rintro rfl
    rw [hnone] at hr
    cases hr
  rw [Function.update_of_ne hv]
  exact hs.results v r hr

/-- A call reads the request. -/
theorem guar_read (hs : Inv digest skew s) (hnone : s.results w = none) :
    (discipline digest skew).Guar w s (s.read w) := by
  refine ⟨⟨hs.claimed, hs.unclaimed, hs.codes, hs.ended, hs.effects, hs.settled,
    fun v row red hrow hred hterminal => ?_, fun v row red hrow hred => ?_, results_read hs hnone _⟩,
    fun v hv => ⟨rfl, Function.update_of_ne hv _ _, le_rfl⟩⟩
  · rcases update_cases hrow with ⟨rfl, rfl⟩ | ⟨-, hrow⟩
    · exact hred
    · exact hs.loaded v row red hrow hred hterminal
  · rcases update_cases hrow with ⟨rfl, rfl⟩ | ⟨-, hrow⟩
    · exact (hs.claimed red hred).1
    · exact hs.approved v row red hrow hred

/-- A call writes a request whose redemption had not ended. -/
theorem guar_write (hs : Inv digest skew s) (hnone : s.results w = none) {request : ApprovalRequest}
    {claim : Option Claim} {closed : Bool}
    (hopen : ∀ red, s.request.redemption = some red → ¬red.Terminal)
    (hclaimed : ∀ red, request.redemption = some red →
      request.status = .approved ∧ ∃ c, claim = some c ∧ red.admittedAt = stored c.now)
    (hunclaimed : request.redemption = none → claim = none ∧ closed = false ∧ s.effects = [])
    (hcodes : ∀ red, request.redemption = some red → red.status = .revoked ∨ red.status = .drifted →
      red.failureCode.isSome = true)
    (hended : ∀ red, request.redemption = some red → red.Terminal → closed = true ∨
      ∃ c v, claim = some c ∧ stored c.now + executionOutcomeRecoveryGrace ≤ s.clock + skew v)
    (hsettled : s.effects ≠ [] → ∀ red, request.redemption = some red → red.Terminal →
      (∃ x now completedAt, s.reported = some x ∧
        red = (redemptionOf digest now completedAt x).1.stored) ∨
        red.status = .failed ∧ red.failureCode = some providerOutcomeUnknown)
    (hview : ∀ v, v ≠ w →
      view v { s.write w request with claim := claim, closed := closed } = view v s) :
    (discipline digest skew).Guar w s { s.write w request with claim := claim, closed := closed } := by
  refine ⟨⟨hclaimed, hunclaimed, hcodes, hended, hs.effects, hsettled,
    fun v row red hrow hred hterminal => ?_, fun v row red hrow hred => ?_, results_read hs hnone _⟩,
    fun v hv => ⟨hview v hv, Function.update_of_ne hv _ _, le_rfl⟩⟩
  · rcases update_cases hrow with ⟨rfl, rfl⟩ | ⟨-, hrow⟩
    · exact hred
    · exact absurd hterminal (hopen red (hs.loaded v row red hrow hred hterminal))
  · rcases update_cases hrow with ⟨rfl, rfl⟩ | ⟨-, hrow⟩
    · exact (hclaimed red hred).1
    · exact hs.approved v row red hrow hred

theorem not_terminal_of_executing (h : isExecuting s.request.redemption = true) :
    ∃ red, s.request.redemption = some red ∧ red.status = .executing := by
  unfold isExecuting at h
  cases hred : s.request.redemption with
  | none =>
    rw [hred] at h
    cases h
  | some red =>
    rw [hred] at h
    exact ⟨red, rfl, of_decide_eq_true h⟩

theorem open_of_executing (h : isExecuting s.request.redemption = true) :
    ∀ red, s.request.redemption = some red → ¬red.Terminal := by
  obtain ⟨red, hred, hexecuting⟩ := not_terminal_of_executing h
  intro other hother hterminal
  rw [hred] at hother
  obtain rfl := Option.some.inj hother
  exact hterminal hexecuting

/-- A request that nobody has claimed expires. -/
theorem guar_expire (hs : Inv digest skew s) (hnone : s.results w = none)
    (hredemption : s.request.redemption = none) :
    (discipline digest skew).Guar w s (s.write w { s.request with status := .expired }) := by
  obtain ⟨hclaim, hclosed, heffects⟩ := hs.unclaimed hredemption
  have hopen (red : Redemption) (hred : s.request.redemption = some red) : ¬red.Terminal := by
    rw [hredemption] at hred
    cases hred
  refine guar_write hs hnone hopen (fun red hred => ?_) (fun _ => hs.unclaimed hredemption)
    (fun red hred => ?_) (fun red hred => ?_) (fun hne => absurd heffects hne) (fun v _ => rfl)
  all_goals
    change s.request.redemption = some red at hred
    rw [hredemption] at hred
    cases hred

/-- A call claims an approved request that nobody has claimed. -/
theorem guar_claim (hs : Inv digest skew s) (hnone : s.results w = none)
    (happroved : s.request.status = .approved) (hredemption : s.request.redemption = none) (now : ℤ) :
    (discipline digest skew).Guar w s { s.write w { s.request with
      redemption := some (Redemption.stored ⟨.executing, now, none, none, none⟩) } with
        claim := some ⟨w, now⟩ } := by
  obtain ⟨hclaim, hclosed, heffects⟩ := hs.unclaimed hredemption
  have hopen (red : Redemption) (hred : s.request.redemption = some red) : ¬red.Terminal := by
    rw [hredemption] at hred
    cases hred
  refine guar_write hs hnone hopen (fun red hred => ?_) nofun (fun red hred hstatus => ?_)
    (fun red hred hterminal => ?_) (fun hne => absurd heffects hne) (fun v hv => ?_)
  · obtain rfl := Option.some.inj hred
    exact ⟨happroved, _, rfl, rfl⟩
  · obtain rfl := Option.some.inj hred
    rcases hstatus with h | h <;> cases h
  · obtain rfl := Option.some.inj hred
    exact absurd rfl hterminal
  · unfold view
    rw [hclaim, Option.filter_some, if_neg fun hsame => hv (of_decide_eq_true hsame).symm]
    rfl

/-- The end that a recovery writes, by a clock that has passed the grace. -/
theorem guar_recover (hs : Inv digest skew s) (hnone : s.results w = none) {admittedAt now : ℤ}
    (happroved : s.request.status = .approved) (hexecuting : isExecuting s.request.redemption = true)
    (hadmitted : s.request.redemption.map Redemption.admittedAt = some (stored admittedAt))
    (hgrace : admittedAt + executionOutcomeRecoveryGrace ≤ now) (hclock : now ≤ s.clock + skew w) :
    (discipline digest skew).Guar w s (s.write w { s.request with
      redemption := some (Redemption.stored
        ⟨.failed, admittedAt, some now, none, some providerOutcomeUnknown⟩) }) := by
  obtain ⟨red, hred, -⟩ := not_terminal_of_executing hexecuting
  obtain ⟨-, c, hc, hadmittedAt⟩ := hs.claimed red hred
  rw [hred] at hadmitted
  have hsame : stored admittedAt = stored c.now := (Option.some.inj hadmitted).symm.trans hadmittedAt
  have hle := stored_le admittedAt
  refine guar_write hs hnone (open_of_executing hexecuting) (fun red hred => ?_) nofun
    (fun red hred hstatus => ?_) (fun _ _ _ => .inr ⟨c, w, hc, by omega⟩) (fun _ red hred _ => ?_)
    (fun _ _ => rfl)
  · obtain rfl := Option.some.inj hred
    exact ⟨happroved, c, hc, hsame⟩
  · obtain rfl := Option.some.inj hred
    rcases hstatus with h | h <;> cases h
  · obtain rfl := Option.some.inj hred
    exact .inr ⟨rfl, rfl⟩

/-- How a redemption may end that its own call writes, from what it knows of the effect. -/
structure Persistable (digest : String → String) (w : ℕ) (now : ℤ) (redemption : Ended) (s : Store) :
    Prop where
  admitted : redemption.1.admittedAt = now
  codes : redemption.1.status = .revoked ∨ redemption.1.status = .drifted →
    redemption.1.failureCode.isSome = true
  settled : s.effects ≠ [] →
    (∃ x now completedAt, s.reported = some x ∧ redemption = redemptionOf digest now completedAt x) ∨
      redemption.1.status = .failed ∧ redemption.1.failureCode = some providerOutcomeUnknown

theorem guar_persist (hs : Inv digest skew s) (hnone : s.results w = none) {now : ℤ}
    {redemption : Ended} (hclaim : s.claim = some ⟨w, now⟩)
    (hpersistable : Persistable digest w now redemption s) :
    (discipline digest skew).Guar w s (execPersist w redemption s).2 := by
  unfold execPersist
  split
  swap
  · exact (discipline digest skew).guar_refl hs
  rename_i hexecuting
  obtain ⟨red, hred, -⟩ := not_terminal_of_executing hexecuting
  obtain ⟨happroved, c, hc, -⟩ := hs.claimed red hred
  refine guar_write hs hnone (open_of_executing hexecuting) (fun red hred => ?_) nofun
    (fun red hred hstatus => ?_) (fun _ _ _ => .inl ?_) (fun hne red hred _ => ?_) (fun v hv => ?_)
  · obtain rfl := Option.some.inj hred
    exact ⟨happroved, _, hclaim, congrArg stored hpersistable.admitted⟩
  · obtain rfl := Option.some.inj hred
    exact hpersistable.codes hstatus
  · rw [hclaim, Option.map_some, decide_eq_true rfl, Bool.or_true]
  · obtain rfl := Option.some.inj hred
    rcases hpersistable.settled hne with ⟨x, now', completedAt, hx, rfl⟩ | hunknown
    · exact .inl ⟨x, now', completedAt, hx, rfl⟩
    · exact .inr hunknown
  · have hother (closed : Bool) : (view v { s.write w { s.request with
        redemption := some redemption.1.stored } with closed := closed }).own = none :=
      own_of_other hclaim hv.symm
    have hsame : (view v s).own = none := own_of_other hclaim hv.symm
    exact congrArg (View.mk (s.results v)) ((hother _).trans hsame.symm)

/-- The effect of a call that has written no end and whose timer has not fired: the redemption is
executing, since the clock of a recovery would be too far ahead. -/
theorem executing_of_timely (hskew : ClocksClose skew) (hs : Inv digest skew s) {now : ℤ}
    (hclaim : s.claim = some ⟨w, now⟩) (hclosed : s.closed = false)
    (htimely : s.clock + skew w < now + executionEffectTimeout) :
    isExecuting s.request.redemption = true := by
  cases hred : s.request.redemption with
  | none =>
    rw [(hs.unclaimed hred).1] at hclaim
    cases hclaim
  | some red =>
    by_contra hnot
    have hterminal : red.Terminal := fun h => hnot (decide_eq_true h)
    rcases hs.ended red hred hterminal with h | ⟨c, v, hc, hle⟩
    · rw [hclosed] at h
      cases h
    · rw [hclaim] at hc
      obtain rfl := Option.some.inj hc
      have hclose := hskew v w
      have hlt := lt_stored now
      change stored now + _ ≤ _ at hle
      unfold executionOutcomeRecoveryGrace at hle
      unfold executionEffectTimeout at htimely
      omega

theorem guar_execute (hs : Inv digest skew s) {now : ℤ} (hclaim : s.claim = some ⟨w, now⟩)
    (hnone : s.effects = []) (hexecuting : isExecuting s.request.redemption = true) (x : Executed) :
    (discipline digest skew).Guar w s { s with
      effects := s.effects ++ [⟨w, isExecuting s.request.redemption⟩]
      reported := some x } := by
  refine ⟨⟨hs.claimed, fun hred => ?_, hs.codes, hs.ended, ?_, fun _ red hred hterminal => ?_,
    hs.loaded, hs.approved, hs.results⟩, fun v hv => ⟨?_, rfl, le_rfl⟩⟩
  · rw [(hs.unclaimed hred).1] at hclaim
    cases hclaim
  · rw [hnone, hexecuting]
    refine ⟨le_rfl, fun e he => ?_⟩
    obtain rfl := List.mem_singleton.mp he
    rfl
  · exact absurd hterminal (open_of_executing hexecuting red hred)
  · have hother (effects : List Effect) : (view v { s with
        effects := effects, reported := some x }).own = none := own_of_other hclaim hv.symm
    have hsame : (view v s).own = none := own_of_other hclaim hv.symm
    exact congrArg (View.mk (s.results v)) ((hother _).trans hsame.symm)

theorem guar_report (hs : Inv digest skew s) (r : Except AppError ApprovalResult)
    (hr : ∀ x, r = .ok x → ∃ row, s.loaded w = some row ∧ Faithful row x) :
    (discipline digest skew).Guar w s { s with results := Function.update s.results w (some r) } := by
  refine ⟨⟨hs.claimed, hs.unclaimed, hs.codes, hs.ended, hs.effects, hs.settled, hs.loaded, hs.approved,
    fun v x hx => ?_⟩, fun v hv => ⟨?_, rfl, le_rfl⟩⟩
  · rcases update_cases hx with ⟨rfl, rfl⟩ | ⟨-, hx⟩
    · exact hr x rfl
    · exact hs.results v x hx
  · simp only [view, Function.update_of_ne hv]

end NyxId.ExactApproval
