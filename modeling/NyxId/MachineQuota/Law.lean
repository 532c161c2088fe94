import NyxId.MachineQuota.Exactness
import NyxId.MachineQuota.Model

/-!
Headroom is exact. A bound of one constraint counts the machines that fit it, and the bound that
an owner is told is the least of them: so many machines fit every quota, and one more does not.
-/

namespace NyxId.MachineQuota

open Encoding Permissions

section Room

variable (operation : Operation) (storageClass : Option String) (profile : MachineProfileSpec)

/-- What a document allows and uses of a resource, and what one machine takes of it. -/
structure Demands (document : Json) (resource : String) (h u d : ℤ) : Prop where
  hard : ∃ hard raw, hardOf document = some hard ∧ (resource, raw) ∈ hard ∧ quantityOf raw = some h
  used : ∃ used, usedMembers document = some used ∧ usedOf used resource = some u
  demand : demand operation storageClass profile resource = some d

/-- So many more machines fit a document. -/
def Fits (document : Json) (n : ℕ) : Prop :=
  ∀ resource h u d, Demands operation storageClass profile document resource h u d → 0 < d →
    u + n * d ≤ h

/-- A document that applies and is read without a reservation. -/
def Counted (document : Json) : Prop :=
  (projectProfile operation storageClass profile document).applicability = "applicable" ∧
    (projectProfile operation storageClass profile document).reasons = []

/-- Every resource of a document is known. -/
def Known (document : Json) : Prop :=
  ∃ hard, hardOf document = some hard ∧ ∀ entry ∈ hard, ∃ h u d,
    Demands operation storageClass profile document entry.1 h u d

/-- An observation from which no more than thirty seconds have passed. -/
def Fresh (observedAt now : ℤ) : Prop := observedAt ≤ now ∧ now - observedAt ≤ thirtySeconds

end Room

/-! ### One constraint -/

section Bounds

variable {h u d : ℤ} {n k : ℕ}

theorem fits_iff (hd : 0 < d) (hk : 0 < k) :
    u + k * d ≤ h ↔ (k : ℤ) ≤ (max (h - u) 0).tdiv d := by
  have hproduct : d ≤ k * d := le_mul_of_one_le_left (by omega) (by omega)
  rw [Int.tdiv_eq_ediv_of_nonneg (by omega), Int.le_ediv_iff_mul_le hd]
  constructor
  · intro hfit
    omega
  · intro hfit
    omega

theorem additional_eq_some (hbound : additional (max (h - u) 0) d = some n) :
    0 < d ∧ ((max (h - u) 0).tdiv d = n) ∧ n < 2 ^ 64 := by
  unfold additional asU64 at hbound
  split at hbound
  · next hd =>
    split at hbound
    · next hrange =>
      cases hbound
      omega
    · simp at hbound
  · simp at hbound

/-- A bound counts the machines that fit. -/
theorem fits_of_bound (hbound : additional (max (h - u) 0) d = some n) (hk : 0 < k) :
    u + k * d ≤ h ↔ k ≤ n := by
  obtain ⟨hd, hquotient, -⟩ := additional_eq_some hbound
  rw [fits_iff hd hk, hquotient]
  omega

/-- Without a bound more machines fit than 64 bits can count. -/
theorem fits_of_unbounded (hd : 0 < d) (hbound : additional (max (h - u) 0) d = none)
    (hk : 0 < k) (hrange : k < 2 ^ 64) : u + k * d ≤ h := by
  rw [fits_iff hd hk]
  unfold additional asU64 at hbound
  rw [if_pos hd] at hbound
  split at hbound
  · simp at hbound
  · next hout =>
    have hnonneg : 0 ≤ (max (h - u) 0).tdiv d := Int.tdiv_nonneg (by omega) (by omega)
    omega

end Bounds

/-! ### Rows -/

section Rows

variable {operation : Operation} {storageClass : Option String} {profile : MachineProfileSpec}
variable {document : Json} {used hard : List (String × Json)} {resource : String} {raw : Json}
variable {n : ℕ} {c : Constraint}

theorem constraint_bound :
    (constraintOf operation storageClass profile used resource raw).additionalProfilesUpperBound =
        some n ↔
      ∃ h u d, quantityOf raw = some h ∧ usedOf used resource = some u ∧
        demand operation storageClass profile resource = some d ∧
        additional (max (h - u) 0) d = some n := by
  unfold constraintOf both
  cases quantityOf raw <;> cases usedOf used resource <;>
    cases demand operation storageClass profile resource <;> simp

theorem constraint_known
    (hreason : (constraintOf operation storageClass profile used resource raw).reason = none) :
    ∃ h u d, quantityOf raw = some h ∧ usedOf used resource = some u ∧
      demand operation storageClass profile resource = some d := by
  unfold constraintOf at hreason
  cases hh : quantityOf raw with
  | none => simp [hh] at hreason
  | some h =>
    cases hu : usedOf used resource with
    | none => simp [hh, hu] at hreason
    | some u =>
      cases hd : demand operation storageClass profile resource with
      | none => simp [hh, hu, hd] at hreason
      | some d => exact ⟨h, u, d, rfl, rfl, rfl⟩

theorem row_applicability (document : Json) :
    (projectProfile operation storageClass profile document).applicability =
      if hasScopes document then "unknown" else "applicable" := by
  unfold projectProfile
  simp only
  split
  · split <;> rfl
  · rfl

/-- A row without reasons has one constraint for each resource. -/
theorem row_of_reasons (hreasons : (projectProfile operation storageClass profile document).reasons = []) :
    ∃ hard used, hardOf document = some hard ∧ usedMembers document = some used ∧
      (projectProfile operation storageClass profile document).constraints =
        hard.map fun (resource, raw) =>
          constraintOf operation storageClass profile used resource raw := by
  unfold projectProfile at hreasons ⊢
  simp only at hreasons ⊢
  split at hreasons
  · next spec hard used hspec hhard hused =>
    split at hreasons
    · simp at hreasons
    · next hlimits =>
      rw [if_neg hlimits]
      simp only [List.append_eq_nil_iff, List.map_eq_nil_iff, List.filter_eq_nil_iff] at hreasons
      have hkept : (hard.filter fun (resource, _) => !resourceTooLong resource) = hard := by
        apply List.filter_eq_self.mpr
        intro entry hentry
        simpa using hreasons.2 entry hentry
      exact ⟨hard, used, hhard, hused, by rw [hkept]⟩
  · simp at hreasons

theorem mem_constraints (hreasons : (projectProfile operation storageClass profile document).reasons = []) :
    (∃ c ∈ (projectProfile operation storageClass profile document).constraints,
        c.additionalProfilesUpperBound = some n) ↔
      ∃ resource h u d, Demands operation storageClass profile document resource h u d ∧
        additional (max (h - u) 0) d = some n := by
  obtain ⟨hard, used, hhard, hused, hconstraints⟩ := row_of_reasons hreasons
  rw [hconstraints]
  constructor
  · intro ⟨c, hc, hbound⟩
    obtain ⟨⟨resource, raw⟩, hmem, rfl⟩ := List.mem_map.mp hc
    obtain ⟨h, u, d, hh, hu, hd, hadditional⟩ := constraint_bound.mp hbound
    exact ⟨resource, h, u, d, ⟨⟨hard, raw, hhard, hmem, hh⟩, ⟨used, hused, hu⟩, hd⟩, hadditional⟩
  · intro ⟨resource, h, u, d, ⟨⟨hard', raw, hhard', hmem, hh⟩, ⟨used', hused', hu⟩, hd⟩, hadditional⟩
    rw [hhard] at hhard'
    rw [hused] at hused'
    cases hhard'
    cases hused'
    exact ⟨_, List.mem_map.mpr ⟨(resource, raw), hmem, rfl⟩,
      constraint_bound.mpr ⟨h, u, d, hh, hu, hd, hadditional⟩⟩

theorem known_of_row (hreasons : (projectProfile operation storageClass profile document).reasons = [])
    (hcertain : ∀ c ∈ (projectProfile operation storageClass profile document).constraints,
      c.reason = none) : Known operation storageClass profile document := by
  obtain ⟨hard, used, hhard, hused, hconstraints⟩ := row_of_reasons hreasons
  refine ⟨hard, hhard, fun entry hentry => ?_⟩
  obtain ⟨h, u, d, hh, hu, hd⟩ := constraint_known (hcertain _ (by
    rw [hconstraints]
    exact List.mem_map.mpr ⟨entry, hentry, rfl⟩))
  exact ⟨h, u, d, ⟨hard, entry.2, hhard, hentry, hh⟩, ⟨used, hused, hu⟩, hd⟩

end Rows

/-! ### The owner's view -/

section Owner

variable {operation : Operation} {storageClass : Option String} {profile : MachineProfileSpec}
variable {version : String} {documents : List Json} {observedAt now : ℤ} {n : ℕ}

theorem stale_eq_false (inventory : Inventory) :
    inventory.stale now = false ↔ Fresh inventory.observedAt now := by
  simp [Inventory.stale, Fresh, not_lt]

/-- A bound of an observation belongs to a resource of a document that counts. -/
theorem mem_bounds :
    n ∈ ((((observed operation storageClass profile version documents observedAt).rows.filter fun q =>
        q.applicability = "applicable" && q.reasons.isEmpty).flatMap
          QuotaRow.constraints).filterMap Constraint.additionalProfilesUpperBound) ↔
      ∃ document ∈ documents, Counted operation storageClass profile document ∧
        ∃ resource h u d, Demands operation storageClass profile document resource h u d ∧
          additional (max (h - u) 0) d = some n := by
  simp only [List.mem_filterMap, List.mem_flatMap, List.mem_filter, observed, List.mem_map,
    Bool.and_eq_true, decide_eq_true_eq, List.isEmpty_iff]
  constructor
  · intro ⟨c, ⟨row, ⟨⟨document, hmem, hrow⟩, happlies, hreasons⟩, hc⟩, hbound⟩
    subst hrow
    exact ⟨document, hmem, ⟨happlies, hreasons⟩, (mem_constraints hreasons).mp ⟨c, hc, hbound⟩⟩
  · intro ⟨document, hmem, ⟨happlies, hreasons⟩, hdemand⟩
    obtain ⟨c, hc, hbound⟩ := (mem_constraints hreasons).mpr hdemand
    exact ⟨c, ⟨_, ⟨⟨document, hmem, rfl⟩, happlies, hreasons⟩, hc⟩, hbound⟩

theorem upper_eq_zero :
    (observed operation storageClass profile version documents observedAt).upper = some 0 ↔
      ∃ document ∈ documents, Counted operation storageClass profile document ∧
        ¬ Fits operation storageClass profile document 1 := by
  unfold Inventory.upper
  rw [List.min?_eq_some_iff, mem_bounds]
  constructor
  · intro ⟨⟨document, hmem, hcounted, resource, h, u, d, hdemands, hbound⟩, _⟩
    refine ⟨document, hmem, hcounted, fun hfits => ?_⟩
    have hfit := (fits_of_bound hbound (show 0 < 1 by omega)).mp
      (hfits resource h u d hdemands (additional_eq_some hbound).1)
    omega
  · intro ⟨document, hmem, hcounted, hfull⟩
    refine ⟨⟨document, hmem, hcounted, ?_⟩, fun _ _ => Nat.zero_le _⟩
    unfold Fits at hfull
    push Not at hfull
    obtain ⟨resource, h, u, d, hdemands, hd, hover⟩ := hfull
    refine ⟨resource, h, u, d, hdemands, ?_⟩
    cases hbound : additional (max (h - u) 0) d with
    | none =>
      have hfit := fits_of_unbounded hd hbound (show 0 < 1 by omega) (by omega)
      omega
    | some m =>
      have hfit := (fits_of_bound hbound (show 0 < 1 by omega)).not.mp (by omega)
      have hzero : m = 0 := by omega
      rw [hzero]

/-- The status of a fresh observation is that of a full quota when some quota is full. -/
theorem insufficient_iff {verified : Bool} (hfresh : Fresh observedAt now) :
    ((observed operation storageClass profile version documents observedAt).owner operation now
        verified).status = "insufficient" ↔
      ∃ document ∈ documents, Counted operation storageClass profile document ∧
        ¬ Fits operation storageClass profile document 1 := by
  have hstale : (observed operation storageClass profile version documents observedAt).stale now =
      false := (stale_eq_false _).mpr hfresh
  rw [← @upper_eq_zero _ _ _ version _ observedAt]
  unfold Inventory.owner
  simp only [hstale, Bool.false_eq_true, if_false]
  split
  · next hzero => exact iff_of_true rfl hzero
  · next hpositive =>
    apply iff_of_false _ hpositive
    split
    · simp
    · split <;> simp

/-- Headroom is told of fresh observations in which every quota is known and has room. -/
theorem headroom_conditions {inventory : Inventory} {verified : Bool}
    (hstatus : (inventory.owner operation now verified).status = "headroom_observed") :
    inventory.stale now = false ∧ inventory.upper ≠ some 0 ∧ inventory.uncertain = false ∧
      (inventory.owner operation now verified).additionalProfilesUpperBound = inventory.upper := by
  unfold Inventory.owner at hstatus ⊢
  cases hstale : inventory.stale now
  · by_cases hzero : inventory.upper = some 0
    · simp [hstale, hzero] at hstatus
    · cases huncertain : inventory.uncertain
      · cases verified
        · simp [hstale, hzero, huncertain] at hstatus
        · simp [hzero]
      · simp [hstale, hzero, huncertain] at hstatus
  · simp [hstale] at hstatus

theorem counted_of_certain
    (hcertain : (observed operation storageClass profile version documents observedAt).uncertain =
      false) {document : Json} (hmem : document ∈ documents) :
    Counted operation storageClass profile document ∧ Known operation storageClass profile document := by
  simp only [Inventory.uncertain, observed, Bool.or_eq_false_iff, List.any_eq_false,
    List.mem_map, forall_exists_index, and_imp, forall_apply_eq_imp_iff₂] at hcertain
  have hrow := hcertain.2 document hmem
  simp only [Bool.or_eq_true, decide_eq_true_eq, Bool.not_eq_true', List.isEmpty_eq_false_iff,
    List.any_eq_true, not_or, not_not, not_exists, not_and] at hrow
  obtain ⟨⟨hunknown, hreasons⟩, hconstraints⟩ := hrow
  have happlies : (projectProfile operation storageClass profile document).applicability =
      "applicable" := by
    rw [row_applicability] at hunknown ⊢
    split
    · next hscopes => simp [hscopes] at hunknown
    · rfl
  refine ⟨⟨happlies, hreasons⟩, known_of_row hreasons fun c hc => ?_⟩
  simpa using hconstraints c hc

/-- The bound that is told with headroom counts the machines that fit every document. -/
theorem headroom_exact {verified : Bool}
    (hstatus : ((observed operation storageClass profile version documents observedAt).owner
      operation now verified).status = "headroom_observed")
    (hbound : ((observed operation storageClass profile version documents observedAt).owner
      operation now verified).additionalProfilesUpperBound = some n) :
    (∀ document ∈ documents, Fits operation storageClass profile document n) ∧
      ¬ ∀ document ∈ documents, Fits operation storageClass profile document (n + 1) := by
  obtain ⟨-, hpositive, hcertain, hupper⟩ := headroom_conditions hstatus
  rw [hbound] at hupper
  have hleast := hupper.symm
  unfold Inventory.upper at hleast
  rw [List.min?_eq_some_iff, mem_bounds] at hleast
  obtain ⟨⟨document, hmem, -, resource, h, u, d, hdemands, hadditional⟩, hleast⟩ := hleast
  have hsome : 0 < n := by
    apply Nat.pos_of_ne_zero
    intro hzero
    exact hpositive (by rw [← hupper, hzero])
  obtain ⟨-, -, hrange⟩ := additional_eq_some hadditional
  constructor
  · intro other hother resource' h' u' d' hdemands' hd'
    obtain ⟨hcounted, -⟩ := counted_of_certain hcertain hother
    cases hbound' : additional (max (h' - u') 0) d' with
    | none => exact fits_of_unbounded hd' hbound' hsome hrange
    | some m =>
      have hle := hleast m (mem_bounds.mpr ⟨other, hother, hcounted, resource', h', u', d', hdemands',
        hbound'⟩)
      exact (fits_of_bound hbound' hsome).mpr hle
  · intro hall
    have hfit := (fits_of_bound hadditional (show 0 < n + 1 by omega)).mp
      (hall document hmem resource h u d hdemands (additional_eq_some hadditional).1)
    omega

end Owner

/-! ### The law -/

/-- A capital K is no suffix of Kubernetes. -/
theorem not_isQuantity_capital (value : ℚ) : ¬ IsQuantity decimalSuffixes "1K".toList value := by
  intro h
  obtain ⟨multiple, hsuffix⟩ := h.multiplies
  have hrest : (stripPlus "1K".toList).dropWhile inNumber = ['K'] := by decide
  rw [hrest] at hsuffix
  generalize hK : ['K'] = suffix at hsuffix
  cases hsuffix with
  | decimal hmem =>
    subst hK
    simp [decimalSuffixes] at hmem
  | binary hmem =>
    subst hK
    simp [binarySuffixes] at hmem
  | exponent hmark hsign hne hdigits =>
    obtain ⟨rfl, -⟩ := List.cons.inj hK
    simp [isExponentMark] at hmark

theorem capital_read : quantity "1K" = .ok (10 ^ 12) := by decide

theorem capital_accepted : ¬ ∀ (text : String) (v : ℤ), quantity text = .ok v →
    ∃ value, IsQuantity decimalSuffixes text.toList value ∧ value * 10 ^ 9 = v := by
  intro h
  obtain ⟨value, hquantity, -⟩ := h "1K" (10 ^ 12) capital_read
  exact not_isQuantity_capital value hquantity

/-- With a capital K read as a small one, what is read of a quantity is its exact value, nothing
overflows, and a written value is read back; and so many machines as an owner is told fit every
quota, and one more does not. -/
theorem quota_headroom_exact :
    (∀ (text : String) (v : ℤ), quantity text = .ok v →
      ∃ value, IsQuantity acceptedSuffixes text.toList value ∧ value * 10 ^ 9 = v) ∧
    (∀ text : String, quantity text ≠ .error .overflow) ∧
    (∀ v : ℤ, 0 ≤ v → v < 2 ^ 126 → quantity (decimal v) = .ok v) ∧
    ∀ (operation : Operation) (storageClass : Option String) (profile : MachineProfileSpec)
      (version : String) (documents : List Json) (observedAt now : ℤ) (verified : Bool),
      let view := (observed operation storageClass profile version documents observedAt).owner
        operation now verified
      (∀ n, view.status = "headroom_observed" → view.additionalProfilesUpperBound = some n →
        (∀ document ∈ documents, Known operation storageClass profile document ∧
          Fits operation storageClass profile document n) ∧
        ¬ ∀ document ∈ documents, Fits operation storageClass profile document (n + 1)) ∧
      (Fresh observedAt now → (view.status = "insufficient" ↔
        ∃ document ∈ documents, Counted operation storageClass profile document ∧
          ¬ Fits operation storageClass profile document 1)) := by
  refine ⟨fun _ _ => quantity_value, quantity_ne_overflow, fun _ => quantity_decimal, ?_⟩
  intro operation storageClass profile version documents observedAt now verified view
  refine ⟨fun n hstatus hbound => ?_, insufficient_iff⟩
  obtain ⟨hfits, hfull⟩ := headroom_exact hstatus hbound
  obtain ⟨-, -, hcertain, -⟩ := headroom_conditions hstatus
  exact ⟨fun document hmem => ⟨(counted_of_certain hcertain hmem).2, hfits document hmem⟩, hfull⟩

def podDocument : Json :=
  .object [("spec", .object [("hard", .object [("pods", .string "4")])]),
    ("status", .object [("hard", .object [("pods", .string "4")]),
      ("used", .object [("pods", .string "1")])])]

def smallProfile : MachineProfileSpec := ⟨2000, 2048, 20⟩

def podView : OwnerQuotaView :=
  (observed .create none smallProfile "v1" [podDocument] 0).owner .create 5 true

theorem three_pods_fit : podView.status = "headroom_observed" ∧
    podView.additionalProfilesUpperBound = some 3 ∧
    (∀ document ∈ [podDocument], Known .create none smallProfile document ∧
      Fits .create none smallProfile document 3) ∧
    (¬ ∀ document ∈ [podDocument], Fits .create none smallProfile document 4) ∧
    (podView.status = "insufficient" ↔ ∃ document ∈ [podDocument],
      Counted .create none smallProfile document ∧ ¬ Fits .create none smallProfile document 1) ∧
    (∃ value, IsQuantity acceptedSuffixes "1.5Gi".toList value ∧
      value * 10 ^ 9 = (1610612736000000000 : ℤ)) ∧
    quantity (decimal 1500000000) = .ok 1500000000 := by
  have hstatus : podView.status = "headroom_observed" := by decide
  have hbound : podView.additionalProfilesUpperBound = some 3 := by decide
  have hread : quantity "1.5Gi" = .ok 1610612736000000000 := by decide
  obtain ⟨hvalue, -, hwritten, hview⟩ := quota_headroom_exact
  obtain ⟨hheadroom, hfull⟩ := hview .create none smallProfile "v1" [podDocument] 0 5 true
  obtain ⟨hfits, hmore⟩ := hheadroom 3 hstatus hbound
  have hfresh : Fresh 0 5 := by simp [Fresh, thirtySeconds]
  exact ⟨hstatus, hbound, hfits, hmore, hfull hfresh, hvalue _ _ hread,
    hwritten 1500000000 (by omega) (by omega)⟩

end NyxId.MachineQuota
