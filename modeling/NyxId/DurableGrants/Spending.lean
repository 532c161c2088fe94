import NyxId.DurableGrants.Law

/-!
Operations are spent once, within the quota; windows follow each other as long as their ends can
be represented.
-/

namespace NyxId.DurableGrants

open Interleave Machine

variable {latest : ℤ} {s : Store}

/-- What holds in every run. -/
structure SpentOnce (s : Store) : Prop where
  /-- One reservation for an operation id of a grant. -/
  reserved : s.history.Pairwise fun newer older => ∀ r q, newer = .returned r → older = .returned q →
    ¬(r.grantId = q.grantId ∧ r.operationId = q.operationId)
  /-- One transition to dispatched for an operation id of a grant. -/
  dispatched : s.history.Pairwise fun newer older => ∀ m n, newer = .moved m → older = .moved n →
    m.after = .dispatched → n.after = .dispatched →
      ¬(m.grantId = n.grantId ∧ m.operationId = n.operationId)
  counted : ∀ id grant, s.grants.lookup id = some grant →
    (dispatchesOf id s.history).Nodup ∧ (dispatchesOf id s.history).length ≤ grant.totalUsed ∧
      grant.totalUsed ≤ grant.totalLimit
  /-- The claim of a reservation came before any revocation of its grant. -/
  unrevoked : ∀ r, .returned r ∈ s.history → ∃ claim newer older,
    s.history = newer ++ .claimed claim :: older ∧ claim.execution = r.execution ∧
      claim.grantId = r.grantId ∧ .revoked r.grantId ∉ older
  moves : ∀ m, .moved m ∈ s.history → Allowed m.before m.after
  /-- A second move of an execution leads from dispatched to an end, and there is no third. -/
  ended : s.history.Pairwise fun newer older => ∀ m n, newer = .moved m → older = .moved n →
    m.execution = n.execution → n.before = .reserved ∧ n.after = .dispatched ∧ m.before = .dispatched

/-- Windows start a duration apart and take no more than their quota. -/
structure WindowsKept (window : DurableUsageWindow) (claims : List Claim) : Prop where
  spaced : claims.Pairwise fun newer older => ∀ t u, newer.start = some t → older.start = some u →
    t = u ∨ u + window.duration ≤ t
  quota : ∀ start, (startedAt start claims).length ≤ window.maxOperations

theorem Owns.unique {id : ℕ} {grantId operationId grantId' operationId' : String}
    (h : Owns s id grantId operationId) (h' : Owns s id grantId' operationId') :
    grantId = grantId' ∧ operationId = operationId' := by
  obtain ⟨execution, hexecution, rfl, rfl⟩ := h
  obtain ⟨execution', hexecution', rfl, rfl⟩ := h'
  obtain rfl := Option.some.inj (hexecution.symm.trans hexecution')
  exact ⟨rfl, rfl⟩

/-- Two moves to dispatched are of different executions. -/
theorem Inv.dispatched_apart (hs : Inv latest s) : s.history.Pairwise fun newer older =>
    ∀ m n, newer = .moved m → older = .moved n → m.after = .dispatched → n.after = .dispatched →
      m.execution ≠ n.execution := by
  refine hs.ordered.imp_of_mem fun hnewer _ hafter m n hm hn hdispatched _ hsame => ?_
  subst hm hn
  obtain ⟨-, -, hbefore⟩ := hafter hsame
  have hreserved := (hs.happened _ hnewer).1.of_dispatched hdispatched
  rw [hbefore] at hreserved
  cases hreserved

theorem mem_dispatchesOf {grantId : String} {history : List Happening} {id : ℕ}
    (h : id ∈ dispatchesOf grantId history) : ∃ m, .moved m ∈ history ∧ m.grantId = grantId ∧
      m.after = .dispatched ∧ m.execution = id := by
  obtain ⟨happening, hmem, hdispatch⟩ := List.mem_filterMap.mp h
  unfold dispatchOf at hdispatch
  split at hdispatch
  · rename_i m
    split at hdispatch
    · rename_i hcond
      exact ⟨m, hmem, hcond.1, hcond.2, Option.some.inj hdispatch⟩
    · cases hdispatch
  · cases hdispatch

theorem Inv.dispatches_nodup (hs : Inv latest s) (grantId : String) :
    (dispatchesOf grantId s.history).Nodup := by
  refine hs.dispatched_apart.filterMap _ fun newer older hapart id hid id' hid' => ?_
  unfold dispatchOf at hid hid'
  split at hid
  · split at hid
    · split at hid'
      · split at hid'
        · rename_i m hm _ n hn
          rw [← Option.some.inj hid, ← Option.some.inj hid']
          exact hapart _ _ rfl rfl hm.2 hn.2
        · cases hid'
      · cases hid'
    · cases hid
  · cases hid

/-- What was dispatched was claimed. -/
theorem Inv.dispatches_subset (hs : Inv latest s) (grantId : String) :
    dispatchesOf grantId s.history ⊆ (claimsOf grantId s.history).map Claim.execution := by
  intro id hid
  obtain ⟨m, hmem, rfl, hdispatched, rfl⟩ := mem_dispatchesOf hid
  obtain ⟨-, howns, -, hheld⟩ := hs.happened _ hmem
  obtain ⟨r, hr, hexecution⟩ := hheld hdispatched
  obtain ⟨hreserved, claim, hclaim, hclaimed, hgrant⟩ := hs.happened _ hr
  rw [hexecution] at hreserved
  have hsame : claim.grantId = m.grantId := hgrant.trans (hreserved.unique howns).1
  refine List.mem_map.mpr ⟨claim, List.mem_filterMap.mpr ⟨_, hclaim, ?_⟩, hclaimed.trans hexecution⟩
  exact if_pos hsame

theorem Inv.counted (hs : Inv latest s) {id : String} {grant : DurableOperationGrant}
    (hgrant : s.grants.lookup id = some grant) :
    (dispatchesOf id s.history).length ≤ grant.totalUsed := by
  have hle := (List.subperm_of_subset (hs.dispatches_nodup id) (hs.dispatches_subset id)).length_le
  rw [List.length_map, ← (hs.grants id grant hgrant).used] at hle
  exact hle

theorem Inv.unrevoked (hs : Inv latest s) {r : Reservation} (hr : .returned r ∈ s.history) :
    ∃ claim newer older, s.history = newer ++ .claimed claim :: older ∧
      claim.execution = r.execution ∧ claim.grantId = r.grantId ∧ .revoked r.grantId ∉ older := by
  obtain ⟨-, claim, hclaim, hexecution, hgrant⟩ := hs.happened _ hr
  obtain ⟨newer, older, hsplit⟩ := List.append_of_mem hclaim
  refine ⟨claim, newer, older, hsplit, hexecution, hgrant, fun hrevoked => ?_⟩
  have hordered := hs.ordered
  rw [hsplit] at hordered
  have hfirst := List.rel_of_pairwise_cons (List.pairwise_append.mp hordered).2.1 hrevoked
  exact hfirst hgrant

theorem Inv.spentOnce (hs : Inv latest s) : SpentOnce s where
  reserved := by
    refine hs.ordered.imp_of_mem fun hnewer holder hafter r q hr hq hsame => ?_
    subst hr hq
    obtain ⟨howns, -⟩ := hs.happened _ hnewer
    obtain ⟨howns', -⟩ := hs.happened _ holder
    rw [hsame.1, hsame.2] at howns
    exact hafter (hs.unique _ _ _ _ howns howns')
  dispatched := by
    refine hs.dispatched_apart.imp_of_mem fun hnewer holder hapart m n hm hn hafter hafter' hsame => ?_
    subst hm hn
    obtain ⟨-, howns, -⟩ := hs.happened _ hnewer
    obtain ⟨-, howns', -⟩ := hs.happened _ holder
    rw [hsame.1, hsame.2] at howns
    exact hapart m n rfl rfl hafter hafter' (hs.unique _ _ _ _ howns howns')
  counted id grant hgrant :=
    ⟨hs.dispatches_nodup id, hs.counted hgrant, (hs.grants id grant hgrant).limit⟩
  unrevoked _ hr := hs.unrevoked hr
  moves _ hm := (hs.happened _ hm).1
  ended := by
    refine hs.ordered.imp fun hafter m n hm hn hsame => ?_
    subst hm hn
    exact hafter hsame

/-- Operations are spent once in every run, and windows are kept while their ends fit. -/
theorem grants_spent_once (hstart : Opened s) {c : (machine latest).Config}
    (hc : Reaches anyStep s c) :
    SpentOnce c.store ∧ ∀ id grant window, c.store.grants.lookup id = some grant →
      grant.window = some window → Fits latest window (claimsOf id c.store.history) →
      WindowsKept window (claimsOf id c.store.history) := by
  have hs := inv_of_reaches hstart hc
  refine ⟨hs.spentOnce, fun id grant window hgrant hwindow hfits => ?_⟩
  obtain ⟨-, -, hquota, hspaced⟩ := (hs.grants id grant hgrant).windowed window hwindow hfits
  exact ⟨hspaced, hquota⟩

/-- The last nanosecond of the year 262142. -/
def latestUtc : ℤ := 8210266876799999999999

def sampleGrant (window : DurableUsageWindow) : DurableOperationGrant where
  userId := "u"
  apiKeyId := "k"
  userServiceId := "s"
  validFrom := 0
  expiresAt := 1000000000000
  totalLimit := 5
  totalUsed := 0
  window := some window
  windowStartedAt := none
  windowUsed := 0
  revoked := false
  stateVersion := 1

def sampleStore (window : DurableUsageWindow) : Store where
  grants := AList.insert "g" (sampleGrant window) ∅
  executions := ∅
  history := []

theorem sampleStore_opened (window : DurableUsageWindow) : Opened (sampleStore window) := by
  refine ⟨fun id grant hgrant => ?_, fun _ => rfl, rfl⟩
  rcases Collection.lookup_insert_cases hgrant with ⟨-, rfl⟩ | ⟨-, hold⟩
  · exact ⟨rfl, rfl, rfl, rfl⟩
  · cases hold

def sampleRequest (operationId : String) : Request where
  ownerUserId := "u"
  apiKeyId := "k"
  userServiceId := "s"
  grantId := "g"
  operationId := operationId
  requestDigest := "d"
  isWebsocket := false

/-- A request that runs to its end at a clock. -/
def requestAt (w : ℕ) (operationId : String) (now : ℤ) : List (machine latestUtc).Choice :=
  .spawn (.authorize (sampleRequest operationId)) ::
    List.replicate 8 (.step w (⟨now, none⟩ : Env) .done)

/-- Two requests, two seconds apart. -/
def sampleSchedule : List (machine latestUtc).Choice :=
  requestAt 0 "a" 1000000000 ++ requestAt 1 "b" 3000000000

def oneSecond : DurableUsageWindow := ⟨1, 1, by decide⟩

/-- In windows of a second, each request opens one. -/
theorem sample_spent_once :
    SpentOnce (run (M := machine latestUtc) (sampleStore oneSecond) sampleSchedule).store ∧
    claimsOf "g" (run (M := machine latestUtc) (sampleStore oneSecond) sampleSchedule).store.history =
      [⟨1, "g", 3000000000, some 3000000000, 1⟩, ⟨0, "g", 1000000000, some 1000000000, 1⟩] ∧
    WindowsKept oneSecond
      (claimsOf "g" (run (M := machine latestUtc) (sampleStore oneSecond) sampleSchedule).store.history) := by
  have hclaims : claimsOf "g"
      (run (M := machine latestUtc) (sampleStore oneSecond) sampleSchedule).store.history =
      [⟨1, "g", 3000000000, some 3000000000, 1⟩, ⟨0, "g", 1000000000, some 1000000000, 1⟩] := by
    decide
  obtain ⟨hspent, hwindows⟩ := grants_spent_once (sampleStore_opened oneSecond)
    (reaches_run (M := machine latestUtc) (sampleStore oneSecond) sampleSchedule)
  have hgrant : ∃ grant, (run (M := machine latestUtc) (sampleStore oneSecond)
      sampleSchedule).store.grants.lookup "g" = some grant ∧ grant.window = some oneSecond :=
    ⟨_, rfl, by decide⟩
  obtain ⟨grant, hlookup, hwindow⟩ := hgrant
  refine ⟨hspent, hclaims, hwindows "g" grant oneSecond hlookup hwindow ?_⟩
  rw [hclaims]
  unfold Fits
  decide

/-- A window that ends after the latest time. -/
def unending : DurableUsageWindow := ⟨10000000000000, 1, by decide⟩

/-- In an unending window of one operation, both requests are let through. -/
theorem unending_window_reopened :
    Opened (sampleStore unending) ∧
    Reaches anyStep (sampleStore unending)
      (run (M := machine latestUtc) (sampleStore unending) sampleSchedule) ∧
    ¬WindowsKept unending
      (claimsOf "g" (run (M := machine latestUtc) (sampleStore unending) sampleSchedule).store.history) := by
  refine ⟨sampleStore_opened unending, reaches_run _ _, fun hkept => ?_⟩
  have hclaims : claimsOf "g"
      (run (M := machine latestUtc) (sampleStore unending) sampleSchedule).store.history =
      [⟨1, "g", 3000000000, some 3000000000, 1⟩, ⟨0, "g", 1000000000, some 1000000000, 1⟩] := by
    decide
  rw [hclaims] at hkept
  have hspaced := List.rel_of_pairwise_cons hkept.spaced List.mem_cons_self 3000000000 1000000000 rfl rfl
  revert hspaced
  decide

end NyxId.DurableGrants
