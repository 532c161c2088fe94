import NyxId.Coordination.Updates
import NyxId.Interleave.Runs

/-!
Claims of events and of replay keys. An event that was committed stays so until its record
is over, and a claim that was taken over is worth nothing.
-/

namespace NyxId.Coordination

open Interleave

/-- The records, the claims given out, and for each claim its key and its time. -/
structure EventWorld where
  now : ℕ
  records : EventRecords
  claims : List EventDedupClaim
  granted : String → Option (String × ℕ)

def EventWorld.start : EventWorld := ⟨0, ∅, [], fun _ => none⟩

inductive Delivery
  | wait (later : ℕ)
  | expire (id : String)
  | claim (space scope eventId : String) (ttl : ℕ) (claimId : String)
      (answer : Option EventDedupClaim)
  | renew (claim : EventDedupClaim) (ttl : ℕ) (answer : Bool)
  | commit (claim : EventDedupClaim) (ttl : ℕ) (answer : Bool)
  | release (claim : EventDedupClaim) (answer : Bool)

section

variable (sha256 : List UInt8 → Vector UInt8 32)

inductive EventStep (w : EventWorld) : Delivery → EventWorld → Prop
  | wait (later : ℕ) (hlater : w.now ≤ later) : EventStep w (.wait later) { w with now := later }
  | expire (id : String) (record : EventDedupRecord) (hfound : w.records.lookup id = some record)
      (hended : record.expiresAt ≤ w.now) :
      EventStep w (.expire id) { w with records := w.records.erase id }
  | claim (space scope eventId : String) (ttl : ℕ) (claimId : String) (records : EventRecords)
      (answer : Option EventDedupClaim) (hfresh : w.granted claimId = none)
      (hok : claimEvent sha256 w.now space scope eventId ttl claimId w.records =
        .ok (records, answer)) :
      EventStep w (.claim space scope eventId ttl claimId answer) { w with
        records := records
        claims := answer.toList ++ w.claims
        granted := Tenures.grantIf answer.isSome w.granted claimId
          (eventKey sha256 space scope eventId) (dateAddNow w.now ttl) }
  -- two claims may insert the record at once
  | duplicate (space scope eventId : String) (ttl : ℕ) (claimId : String) :
      EventStep w (.claim space scope eventId ttl claimId none) w
  | renew (claim : EventDedupClaim) (ttl : ℕ) (records : EventRecords) (answer : Bool)
      (hclaim : claim ∈ w.claims) (hok : renewEvent w.now claim ttl w.records = .ok (records, answer)) :
      EventStep w (.renew claim ttl answer) { w with
        records := records
        granted := Tenures.grantIf answer w.granted claim.claimId claim.id
          (dateAddNow w.now ttl) }
  | commit (claim : EventDedupClaim) (ttl : ℕ) (records : EventRecords) (answer : Bool)
      (hclaim : claim ∈ w.claims)
      (hok : commitEvent w.now claim ttl w.records = .ok (records, answer)) :
      EventStep w (.commit claim ttl answer) { w with
        records := records
        granted := Tenures.grantIf answer w.granted claim.claimId claim.id
          (dateAddNow w.now ttl) }
  | release (claim : EventDedupClaim) (records : EventRecords) (answer : Bool)
      (hclaim : claim ∈ w.claims) (hok : releaseEvent claim w.records = (records, answer)) :
      EventStep w (.release claim answer) { w with
        records := records
        granted := Tenures.grantIf answer w.granted claim.claimId claim.id 0 }

abbrev EventRun : EventWorld → List Delivery → EventWorld → Prop := Runs (EventStep sha256)

end

def EventDedupRecord.view (record : EventDedupRecord) : String × ℕ :=
  (record.claimId, record.expiresAt)

def EventWorld.tenures (w : EventWorld) : Tenures String String :=
  ⟨w.now, Tenures.heldBy EventDedupRecord.view w.records, w.granted⟩

/-- A claim that has not expired, committed or not. -/
def EventWorld.Live (w : EventWorld) (id claimId : String) : Prop :=
  ∃ until_, w.granted claimId = some (id, until_) ∧ w.now < until_

theorem claimedEvent_iff {claim : EventDedupClaim} {record : EventDedupRecord} :
    claimedEvent claim record = true ↔ record.claimId = claim.claimId ∧ record.state = .claimed := by
  simp [claimedEvent]

theorem activeEvent_iff {now : ℕ} {claim : EventDedupClaim} {record : EventDedupRecord} :
    activeEvent now claim record = true ↔
      (record.claimId = claim.claimId ∧ record.state = .claimed) ∧ now < record.expiresAt := by
  rw [activeEvent, Bool.and_eq_true, claimedEvent_iff, decide_eq_true_iff]

section

variable {sha256 : List UInt8 → Vector UInt8 32} {now ttl : ℕ} {claim : EventDedupClaim}
  {records records' : EventRecords} {w w' : EventWorld} {e : Delivery}

theorem renewEvent_ok {answer : Bool} (h : renewEvent now claim ttl records = .ok (records', answer)) :
    updateOne (activeEvent now claim)
      (fun record => { record with updatedAt := now, expiresAt := dateAddNow now ttl })
      records claim.id = (records', answer) := by
  unfold renewEvent at h
  exact Except.ok.inj (of_durationMillis h)

theorem commitEvent_ok {answer : Bool}
    (h : commitEvent now claim ttl records = .ok (records', answer)) :
    updateOne (activeEvent now claim)
      (fun record => { record with
        state := .committed
        updatedAt := now
        expiresAt := dateAddNow now ttl }) records claim.id = (records', answer) := by
  unfold commitEvent at h
  exact Except.ok.inj (of_durationMillis h)

/-- A fresh claim takes a key that is free, or finds another claim there. -/
theorem claimEvent_fresh (hw : w.tenures.Exact) {space scope eventId claimId : String}
    {answer : Option EventDedupClaim} (hfresh : w.granted claimId = none)
    (hok : claimEvent sha256 w.now space scope eventId ttl claimId w.records =
      .ok (records, answer)) :
    (w.tenures.Free (eventKey sha256 space scope eventId) ∧
        answer = some ⟨eventKey sha256 space scope eventId, claimId⟩ ∧
        ∃ record, record.view = (claimId, dateAddNow w.now ttl) ∧
          records = w.records.insert (eventKey sha256 space scope eventId) record) ∨
      records = w.records ∧ answer = none := by
  unfold claimEvent at hok
  replace hok := of_durationMillis hok
  simp only [pure, Except.pure] at hok
  split at hok
  · next hclaim =>
    obtain ⟨rfl, rfl⟩ := Prod.mk.inj (Except.ok.inj hok)
    refine Or.inl ⟨fun h until_ hheld => ?_, rfl, _, rfl, rfl⟩
    obtain ⟨record, hfound, hview⟩ := Option.map_eq_some_iff.mp hheld
    obtain ⟨rfl, rfl⟩ := Prod.mk.inj hview
    exact claimable_iff.mp hclaim record hfound
  · split at hok
    · next hsame =>
      obtain ⟨record, hfound, hclaimId⟩ := (Option.any_eq_true _ _).mp hsame
      have hheld := Tenures.heldBy_of_lookup EventDedupRecord.view hfound
      have hgranted := hw.known _ record.claimId record.expiresAt hheld
      rw [of_decide_eq_true hclaimId] at hgranted
      cases hfresh.symm.trans hgranted
    · obtain ⟨rfl, rfl⟩ := Prod.mk.inj (Except.ok.inj hok)
      exact Or.inr ⟨rfl, rfl⟩

theorem EventStep.tenures (hstep : EventStep sha256 w e w') (hw : w.tenures.Exact) :
    Tenures.Steps w.tenures w'.tenures := by
  cases hstep with
  | wait later hlater => exact .single (.wait later hlater)
  | expire id record hfound hended =>
    have hheld := Tenures.heldBy_of_lookup EventDedupRecord.view hfound
    have hlapse := Tenures.Step.lapse (t := w.tenures) id record.claimId record.expiresAt hheld hended
    apply Relation.ReflTransGen.single
    simpa only [EventWorld.tenures, Tenures.heldBy_erase] using hlapse
  | claim space scope eventId ttl claimId records answer hfresh hok =>
    rcases claimEvent_fresh hw hfresh hok with ⟨hfree, rfl, record, hview, rfl⟩ | ⟨rfl, rfl⟩
    · have hclaim := Tenures.Step.claim (t := w.tenures) _ claimId (dateAddNow w.now ttl) hfresh hfree
      apply Relation.ReflTransGen.single
      simp only [EventWorld.tenures, Tenures.heldBy_insert, hview]
      exact hclaim
    · exact .refl
  | duplicate => exact .refl
  | renew claim ttl records answer hclaim hok =>
    apply steps_renewed (renewEvent_ok hok)
    · intro record hactive
      have hclaimId := (activeEvent_iff.mp hactive).1.1
      exact ⟨Prod.ext hclaimId rfl, hclaimId⟩
    · intro record hactive
      exact (activeEvent_iff.mp hactive).2
  | commit claim ttl records answer hclaim hok =>
    apply steps_renewed (commitEvent_ok hok)
    · intro record hactive
      have hclaimId := (activeEvent_iff.mp hactive).1.1
      exact ⟨Prod.ext hclaimId rfl, hclaimId⟩
    · intro record hactive
      exact (activeEvent_iff.mp hactive).2
  | release claim records answer hclaim hok =>
    apply steps_deleted hok
    intro record hexact
    exact (claimedEvent_iff.mp hexact).1

structure EventWorld.Good (w : EventWorld) : Prop where
  exact : w.tenures.Exact
  claims : ∀ claim ∈ w.claims, ∃ until_, w.granted claim.claimId = some (claim.id, until_)

theorem good_events_start : EventWorld.start.Good where
  exact := Tenures.exact_start
  claims _ hclaim := by cases hclaim

theorem EventStep.good (hstep : EventStep sha256 w e w') (hw : w.Good) : w'.Good where
  exact := (hstep.tenures hw.exact).exact hw.exact
  claims claim hclaim := by
    have hsteps := hstep.tenures hw.exact
    have hold : claim ∈ w.claims → ∃ until_, w'.granted claim.claimId = some (claim.id, until_) := by
      intro hclaim
      obtain ⟨until_, hgranted⟩ := hw.claims claim hclaim
      exact hsteps.granted hw.exact hgranted
    cases hstep with
    | claim space scope eventId ttl claimId records answer hfresh hok =>
      rcases claimEvent_fresh hw.exact hfresh hok with ⟨-, rfl, record, -, rfl⟩ | ⟨rfl, rfl⟩
      · rcases List.mem_cons.mp hclaim with rfl | hclaim
        · exact ⟨_, Function.update_self ..⟩
        · exact hold hclaim
      · exact hold hclaim
    | _ => exact hold hclaim

theorem EventRun.good {events : List Delivery} (hrun : EventRun sha256 w events w') (hw : w.Good) :
    w'.Good :=
  Runs.preserves (fun _ _ _ hgood hstep => hstep.good hgood) hw hrun

theorem EventStep.now_le (hstep : EventStep sha256 w e w') : w.now ≤ w'.now := by
  cases hstep with
  | wait later hlater => exact hlater
  | _ => exact Nat.le_refl _

/-- The record of a claim that was committed, with its end. -/
def EventWorld.Committed (w : EventWorld) (claim : EventDedupClaim) (until_ : ℕ) : Prop :=
  ∃ record, w.records.lookup claim.id = some record ∧ record.claimId = claim.claimId ∧
    record.state = .committed ∧ record.expiresAt = until_

/-- What a record could be changed by: a claim that succeeds, or another operation that does. -/
def Delivery.Touches (id : String) : Delivery → Prop
  | .claim _ _ _ _ _ (some claim) => claim.id = id
  | .renew claim _ answer | .commit claim _ answer | .release claim answer =>
    claim.id = id ∧ answer = true
  | _ => False

theorem EventStep.committed (hstep : EventStep sha256 w (.commit claim ttl true) w') :
    w'.Committed claim (dateAddNow w.now ttl) := by
  cases hstep with
  | commit _ _ records _ hclaim hok =>
    rcases updateOne_cases (commitEvent_ok hok) with ⟨record, hfound, hactive, rfl, -⟩ | ⟨-, -, hfalse⟩
    · exact ⟨_, AList.lookup_insert w.records, (activeEvent_iff.mp hactive).1.1, rfl, rfl⟩
    · cases hfalse

/-- Until its end a committed record is neither claimed nor changed nor removed. -/
theorem EventStep.keeps (hstep : EventStep sha256 w e w') (hw : w.Good) {until_ : ℕ}
    (hcommitted : w.Committed claim until_) (hnow : w.now < until_) :
    w'.Committed claim until_ ∧ ¬ e.Touches claim.id := by
  obtain ⟨record, hfound, hclaimId, hstate, rfl⟩ := hcommitted
  have hkeep : ∀ {records}, records.lookup claim.id = some record →
      ∀ {now claims granted}, EventWorld.Committed ⟨now, records, claims, granted⟩ claim
        record.expiresAt :=
    fun hsame => ⟨record, hsame, hclaimId, hstate, rfl⟩
  have hunclaimed : ∀ other, claimedEvent other record = false := by
    intro other
    apply Bool.eq_false_iff.mpr
    intro hclaimed
    cases hstate.symm.trans (claimedEvent_iff.mp hclaimed).2
  have hinactive : ∀ other, activeEvent w.now other record = false := by
    intro other
    rw [activeEvent, hunclaimed, Bool.false_and]
  have hne {filter : EventDedupClaim → EventDedupRecord → Bool} (hno : ∀ other, filter other record = false)
      {other : EventDedupClaim} {doc : EventDedupRecord} (hdoc : w.records.lookup other.id = some doc)
      (hmatches : filter other doc = true) : claim.id ≠ other.id := by
    intro hsame
    obtain rfl := Option.some.inj (hfound.symm.trans (hsame ▸ hdoc))
    cases (hno other).symm.trans hmatches
  cases hstep with
  | wait | duplicate => exact ⟨hkeep hfound, fun htouch => htouch⟩
  | expire id other hother hended =>
    have hne : claim.id ≠ id := by
      rintro rfl
      obtain rfl := Option.some.inj (hfound.symm.trans hother)
      omega
    exact ⟨hkeep ((AList.lookup_erase_ne hne).trans hfound), fun htouch => htouch⟩
  | claim space scope eventId ttl claimId records answer hfresh hok =>
    rcases claimEvent_fresh hw.exact hfresh hok with ⟨hfree, rfl, other, -, rfl⟩ | ⟨rfl, rfl⟩
    · have hne : claim.id ≠ eventKey sha256 space scope eventId := by
        intro hsame
        have hheld := Tenures.heldBy_of_lookup EventDedupRecord.view hfound
        have hended : record.expiresAt ≤ w.now := hfree _ _ (hsame ▸ hheld)
        omega
      exact ⟨hkeep ((AList.lookup_insert_ne hne).trans hfound), fun htouch => hne htouch.symm⟩
    · exact ⟨hkeep hfound, fun htouch => htouch⟩
  | renew other ttl records answer hclaim hok =>
    rcases updateOne_cases (renewEvent_ok hok) with ⟨doc, hdoc, hactive, rfl, rfl⟩ | ⟨-, rfl, rfl⟩
    · have hother := hne hinactive hdoc hactive
      exact ⟨hkeep ((AList.lookup_insert_ne hother).trans hfound), fun htouch => hother htouch.1.symm⟩
    · exact ⟨hkeep hfound, fun htouch => nomatch htouch.2⟩
  | commit other ttl records answer hclaim hok =>
    rcases updateOne_cases (commitEvent_ok hok) with ⟨doc, hdoc, hactive, rfl, rfl⟩ | ⟨-, rfl, rfl⟩
    · have hother := hne hinactive hdoc hactive
      exact ⟨hkeep ((AList.lookup_insert_ne hother).trans hfound), fun htouch => hother htouch.1.symm⟩
    · exact ⟨hkeep hfound, fun htouch => nomatch htouch.2⟩
  | release other records answer hclaim hok =>
    rcases deleteOne_cases hok with ⟨doc, hdoc, hclaimed, rfl, rfl⟩ | ⟨-, rfl, rfl⟩
    · have hother := hne hunclaimed hdoc hclaimed
      exact ⟨hkeep ((AList.lookup_erase_ne hother).trans hfound), fun htouch => hother htouch.1.symm⟩
    · exact ⟨hkeep hfound, fun htouch => nomatch htouch.2⟩

theorem EventRun.keeps {events : List Delivery} (hrun : EventRun sha256 w events w') (hw : w.Good)
    {until_ : ℕ} (hcommitted : w.Committed claim until_) (hnow : w'.now < until_) :
    w'.Committed claim until_ ∧ ∀ e ∈ events, ¬ e.Touches claim.id := by
  induction hrun with
  | stay => exact ⟨hcommitted, fun e he => nomatch he⟩
  | next hrun hstep ih =>
    have hbefore := Nat.lt_of_le_of_lt hstep.now_le hnow
    obtain ⟨hkept, huntouched⟩ := ih hbefore
    obtain ⟨hkept', huntouched'⟩ := hstep.keeps (EventRun.good hrun hw) hkept hbefore
    refine ⟨hkept', fun e he => ?_⟩
    rcases List.mem_append.mp he with he | he
    · exact huntouched e he
    · obtain rfl := List.mem_singleton.mp he
      exact huntouched'

/-- A claim that was given out and whose key is not its own. -/
def EventWorld.Lost (w : EventWorld) (claim : EventDedupClaim) : Prop :=
  (∃ until_, w.granted claim.claimId = some (claim.id, until_)) ∧
    ∀ record, w.records.lookup claim.id = some record → record.claimId ≠ claim.claimId

theorem EventStep.lost (hstep : EventStep sha256 w e w') (hw : w.Good) (hlost : w.Lost claim) :
    w'.Lost claim := by
  obtain ⟨⟨until_, hgranted⟩, hother⟩ := hlost
  refine ⟨(hstep.tenures hw.exact).granted hw.exact hgranted, ?_⟩
  intro record hfound
  cases hstep with
  | wait | duplicate => exact hother record hfound
  | expire => exact hother record (lookup_of_erased hfound).2
  | claim space scope eventId ttl claimId records answer hfresh hok =>
    rcases claimEvent_fresh hw.exact hfresh hok with ⟨hfree, rfl, new, hview, rfl⟩ | ⟨rfl, rfl⟩
    · rcases Collection.lookup_insert_cases hfound with ⟨-, rfl⟩ | ⟨-, hold⟩
      · intro hsame
        rw [← hsame, show record.claimId = claimId from congrArg Prod.fst hview, hfresh] at hgranted
        cases hgranted
      · exact hother record hold
    · exact hother record hfound
  | renew other ttl records answer hclaim hok =>
    rcases lookup_of_updated (renewEvent_ok hok) hfound with hold | ⟨before, -, hold, -, rfl⟩
    · exact hother record hold
    · exact hother before hold
  | commit other ttl records answer hclaim hok =>
    rcases lookup_of_updated (commitEvent_ok hok) hfound with hold | ⟨before, -, hold, -, rfl⟩
    · exact hother record hold
    · exact hother before hold
  | release other records answer hclaim hok => exact hother record (lookup_of_deleted hok hfound)

/-- A claim that another one took the place of is lost. -/
theorem EventStep.lost_of_claim (hstep : EventStep sha256 w e w') (hw : w.Good)
    (hclaim : claim ∈ w.claims) {space scope eventId claimId : String} {other : EventDedupClaim}
    (htaken : e = .claim space scope eventId ttl claimId (some other)) (hid : other.id = claim.id) :
    w'.Lost claim := by
  obtain ⟨until_, hgranted⟩ := hw.claims claim hclaim
  refine ⟨(hstep.tenures hw.exact).granted hw.exact hgranted, ?_⟩
  subst htaken
  intro record hfound
  cases hstep with
  | claim _ _ _ _ _ records _ hfresh hok =>
    rcases claimEvent_fresh hw.exact hfresh hok with ⟨hfree, hsome, new, hview, rfl⟩ | ⟨-, hnone⟩
    · obtain rfl := Option.some.inj hsome
      rcases Collection.lookup_insert_cases hfound with ⟨-, rfl⟩ | ⟨hne, -⟩
      · intro hsame
        rw [← hsame, show record.claimId = claimId from congrArg Prod.fst hview, hfresh] at hgranted
        cases hgranted
      · exact absurd hid.symm hne
    · cases hnone

/-- What a claim can still do in a world: nothing. -/
structure EventWorld.Powerless (w : EventWorld) (claim : EventDedupClaim) : Prop where
  renew : ∀ ttl records answer, renewEvent w.now claim ttl w.records = .ok (records, answer) →
    records = w.records ∧ answer = false
  commit : ∀ ttl records answer, commitEvent w.now claim ttl w.records = .ok (records, answer) →
    records = w.records ∧ answer = false
  release : releaseEvent claim w.records = (w.records, false)

theorem EventWorld.Lost.powerless (hlost : w.Lost claim) : w.Powerless claim := by
  have hunclaimed : ∀ record, w.records.lookup claim.id = some record →
      claimedEvent claim record = false := by
    intro record hfound
    apply Bool.eq_false_iff.mpr
    intro hclaimed
    exact hlost.2 record hfound (claimedEvent_iff.mp hclaimed).1
  have hinactive : ∀ record, w.records.lookup claim.id = some record →
      activeEvent w.now claim record = false := by
    intro record hfound
    rw [activeEvent, hunclaimed record hfound, Bool.false_and]
  refine ⟨fun ttl records answer hok => ?_, fun ttl records answer hok => ?_, ?_⟩
  · have hsame := renewEvent_ok hok
    rw [updateOne_of_unmatched hinactive] at hsame
    obtain ⟨rfl, rfl⟩ := Prod.mk.inj hsame
    exact ⟨rfl, rfl⟩
  · have hsame := commitEvent_ok hok
    rw [updateOne_of_unmatched hinactive] at hsame
    obtain ⟨rfl, rfl⟩ := Prod.mk.inj hsame
    exact ⟨rfl, rfl⟩
  · exact deleteOne_of_unmatched hunclaimed

theorem EventRun.lost {events : List Delivery} (hrun : EventRun sha256 w events w') (hw : w.Good)
    (hlost : w.Lost claim) : w'.Lost claim := by
  have hboth : w'.Good ∧ w'.Lost claim := by
    refine Runs.preserves (P := fun w => w.Good ∧ w.Lost claim) ?_ ⟨hw, hlost⟩ hrun
    rintro w e w' ⟨hgood, hlost⟩ hstep
    exact ⟨hstep.good hgood, hstep.lost hgood hlost⟩
  exact hboth.2

end

/-- The records of replay keys and the claims drawn. -/
structure ReplayWorld where
  now : ℕ
  records : ReplayRecords
  drawn : List String

def ReplayWorld.start : ReplayWorld := ⟨0, ∅, []⟩

inductive ReplayEvent
  | wait (later : ℕ)
  | expire (id : String)
  | claim (space key : String) (ttl : ℕ) (claimId : String) (answer : Bool)

inductive ReplayStep (sha256 : List UInt8 → Vector UInt8 32) (w : ReplayWorld) :
    ReplayEvent → ReplayWorld → Prop
  | wait (later : ℕ) (hlater : w.now ≤ later) :
      ReplayStep sha256 w (.wait later) { w with now := later }
  | expire (id : String) (record : ReplayRecord) (hfound : w.records.lookup id = some record)
      (hended : record.expiresAt ≤ w.now) :
      ReplayStep sha256 w (.expire id) { w with records := w.records.erase id }
  | claim (space key : String) (ttl : ℕ) (claimId : String) (records : ReplayRecords)
      (answer : Bool) (hfresh : claimId ∉ w.drawn)
      (hok : claimReplay sha256 w.now space key ttl claimId w.records = .ok (records, answer)) :
      ReplayStep sha256 w (.claim space key ttl claimId answer)
        { w with records := records, drawn := claimId :: w.drawn }
  -- two claims may insert the record at once
  | duplicate (space key : String) (ttl : ℕ) (claimId : String) :
      ReplayStep sha256 w (.claim space key ttl claimId false) w

abbrev ReplayRun (sha256 : List UInt8 → Vector UInt8 32) :
    ReplayWorld → List ReplayEvent → ReplayWorld → Prop := Runs (ReplayStep sha256)

section

variable {sha256 : List UInt8 → Vector UInt8 32} {w w' : ReplayWorld} {e : ReplayEvent}

theorem claimReplay_cases {now ttl : ℕ} {space key claimId : String} {records records' : ReplayRecords}
    {answer : Bool} (h : claimReplay sha256 now space key ttl claimId records = .ok (records', answer)) :
    (∃ record, records.lookup (hashParts sha256 [space, key]) = some record ∧ records' = records ∧
        answer = decide (record.claimId = claimId)) ∨
      records.lookup (hashParts sha256 [space, key]) = none ∧
        records' = records.insert (hashParts sha256 [space, key])
          ⟨space, hashParts sha256 [key], claimId, now, dateAddNow now ttl⟩ ∧ answer = true := by
  unfold claimReplay at h
  replace h := of_durationMillis h
  simp only [pure, Except.pure] at h
  cases hfound : records.lookup (hashParts sha256 [space, key]) with
  | some record =>
    rw [hfound] at h
    obtain ⟨rfl, rfl⟩ := Prod.mk.inj (Except.ok.inj h)
    exact Or.inl ⟨record, rfl, rfl, rfl⟩
  | none =>
    rw [hfound] at h
    obtain ⟨rfl, rfl⟩ := Prod.mk.inj (Except.ok.inj h)
    exact Or.inr ⟨rfl, rfl, rfl⟩

/-- Every record is of a claim that was drawn. -/
def ReplayWorld.Good (w : ReplayWorld) : Prop :=
  ∀ id record, w.records.lookup id = some record → record.claimId ∈ w.drawn

theorem ReplayStep.good (hstep : ReplayStep sha256 w e w') (hw : w.Good) : w'.Good := by
  intro id record hfound
  cases hstep with
  | wait | duplicate => exact hw id record hfound
  | expire => exact hw id record (lookup_of_erased hfound).2
  | claim space key ttl claimId records answer hfresh hok =>
    rcases claimReplay_cases hok with ⟨kept, -, rfl, -⟩ | ⟨-, rfl, -⟩
    · exact List.mem_cons_of_mem _ (hw id record hfound)
    · rcases Collection.lookup_insert_cases hfound with ⟨-, rfl⟩ | ⟨-, hold⟩
      · exact List.mem_cons_self
      · exact List.mem_cons_of_mem _ (hw id record hold)

theorem ReplayRun.good {events : List ReplayEvent} (hrun : ReplayRun sha256 w events w')
    (hw : w.Good) : w'.Good :=
  Runs.preserves (fun _ _ _ hgood hstep => hstep.good hgood) hw hrun

def ReplayWorld.Kept (w : ReplayWorld) (id : String) (until_ : ℕ) : Prop :=
  ∃ record, w.records.lookup id = some record ∧ record.expiresAt = until_

/-- A claim of a key that is answered with yes. -/
def ReplayEvent.Claims (space key : String) : ReplayEvent → Prop
  | .claim space' key' _ _ answer => space' = space ∧ key' = key ∧ answer = true
  | _ => False

theorem ReplayStep.keeps (hstep : ReplayStep sha256 w e w') (hw : w.Good) {space key : String}
    {until_ : ℕ} (hkept : w.Kept (hashParts sha256 [space, key]) until_) (hnow : w.now < until_) :
    w'.Kept (hashParts sha256 [space, key]) until_ ∧ ¬ e.Claims space key := by
  obtain ⟨record, hfound, rfl⟩ := hkept
  cases hstep with
  | wait => exact ⟨⟨record, hfound, rfl⟩, fun hclaims => hclaims⟩
  | duplicate => exact ⟨⟨record, hfound, rfl⟩, fun hclaims => nomatch hclaims.2.2⟩
  | expire id other hother hended =>
    have hne : hashParts sha256 [space, key] ≠ id := by
      rintro rfl
      obtain rfl := Option.some.inj (hfound.symm.trans hother)
      omega
    exact ⟨⟨record, (AList.lookup_erase_ne hne).trans hfound, rfl⟩, fun hclaims => hclaims⟩
  | claim space' key' ttl claimId records answer hfresh hok =>
    rcases claimReplay_cases hok with ⟨other, hother, rfl, rfl⟩ | ⟨hnone, rfl, rfl⟩
    · refine ⟨⟨record, hfound, rfl⟩, ?_⟩
      rintro ⟨rfl, rfl, hsame⟩
      apply hfresh
      rw [← of_decide_eq_true hsame]
      exact hw _ other hother
    · have hne : hashParts sha256 [space, key] ≠ hashParts sha256 [space', key'] := by
        intro hsame
        rw [← hsame, hfound] at hnone
        cases hnone
      refine ⟨⟨record, (AList.lookup_insert_ne hne).trans hfound, rfl⟩, ?_⟩
      rintro ⟨rfl, rfl, -⟩
      exact hne rfl

theorem ReplayStep.now_le (hstep : ReplayStep sha256 w e w') : w.now ≤ w'.now := by
  cases hstep with
  | wait later hlater => exact hlater
  | _ => exact Nat.le_refl _

theorem ReplayRun.keeps {events : List ReplayEvent} (hrun : ReplayRun sha256 w events w')
    (hw : w.Good) {space key : String} {until_ : ℕ}
    (hkept : w.Kept (hashParts sha256 [space, key]) until_) (hnow : w'.now < until_) :
    w'.Kept (hashParts sha256 [space, key]) until_ ∧ ∀ e ∈ events, ¬ e.Claims space key := by
  induction hrun with
  | stay => exact ⟨hkept, fun e he => nomatch he⟩
  | next hrun hstep ih =>
    have hbefore := Nat.lt_of_le_of_lt hstep.now_le hnow
    obtain ⟨hkept, hunclaimed⟩ := ih hbefore
    obtain ⟨hkept', hunclaimed'⟩ := hstep.keeps (ReplayRun.good hrun hw) hkept hbefore
    refine ⟨hkept', fun e he => ?_⟩
    rcases List.mem_append.mp he with he | he
    · exact hunclaimed e he
    · obtain rfl := List.mem_singleton.mp he
      exact hunclaimed'

theorem ReplayStep.kept {ttl : ℕ} {space key claimId : String} (hw : w.Good)
    (hstep : ReplayStep sha256 w (.claim space key ttl claimId true) w') :
    w'.Kept (hashParts sha256 [space, key]) (dateAddNow w.now ttl) := by
  cases hstep with
  | claim _ _ _ _ records _ hfresh hok =>
    rcases claimReplay_cases hok with ⟨other, hother, -, hsame⟩ | ⟨-, rfl, -⟩
    · exact absurd (of_decide_eq_true hsame.symm ▸ hw _ other hother) hfresh
    · exact ⟨_, AList.lookup_insert w.records, rfl⟩

end

section

variable (sha256 : List UInt8 → Vector UInt8 32)

def EventWorld.Reached (w : EventWorld) : Prop := ∃ events, EventRun sha256 .start events w

def ReplayWorld.Reached (w : ReplayWorld) : Prop := ∃ events, ReplayRun sha256 .start events w

/-- What holds of the claims of a world, and of every run from there. -/
structure EventWorld.Lawful (w : EventWorld) : Prop where
  exclusive : ∀ id claimId claimId', w.Live id claimId → w.Live id claimId' → claimId = claimId'
  stored : ∀ id record, w.records.lookup id = some record → w.now < record.expiresAt →
    w.Live id record.claimId
  committed : ∀ claim ttl next, EventStep sha256 w (.commit claim ttl true) next →
    ∀ events later, EventRun sha256 next events later → later.now < dateAddNow w.now ttl →
      later.Committed claim (dateAddNow w.now ttl) ∧ ∀ e ∈ events, ¬ e.Touches claim.id
  taken : ∀ claim ∈ w.claims, ∀ space scope eventId ttl claimId other next,
    EventStep sha256 w (.claim space scope eventId ttl claimId (some other)) next →
      other.id = claim.id →
        ∀ events later, EventRun sha256 next events later → later.Powerless claim

/-- A key that was claimed is not claimed again before its time is over. -/
def ReplayWorld.Lawful (w : ReplayWorld) : Prop :=
  ∀ space key ttl claimId next, ReplayStep sha256 w (.claim space key ttl claimId true) next →
    ∀ events later, ReplayRun sha256 next events later → later.now < dateAddNow w.now ttl →
      ∀ e ∈ events, ¬ e.Claims space key

variable {sha256}

theorem EventWorld.Reached.lawful {w : EventWorld} (hw : w.Reached sha256) : w.Lawful sha256 := by
  obtain ⟨events, hrun⟩ := hw
  have hgood := EventRun.good hrun good_events_start
  exact {
    exclusive := by
      rintro id claimId claimId' ⟨until_, hgranted, hnow⟩ ⟨until', hgranted', hnow'⟩
      exact hgood.exact.exclusive ⟨until_, hgranted, hnow⟩ ⟨until', hgranted', hnow'⟩
    stored := by
      intro id record hfound hnow
      have hheld := Tenures.heldBy_of_lookup EventDedupRecord.view hfound
      exact ⟨record.expiresAt, hgood.exact.known id record.claimId record.expiresAt hheld, hnow⟩
    committed := by
      intro claim ttl next hstep events later hlater hnow
      exact EventRun.keeps hlater (hstep.good hgood) hstep.committed hnow
    taken := by
      intro claim hclaim space scope eventId ttl claimId other next hstep hid events later hlater
      have hlost := hstep.lost_of_claim hgood hclaim rfl hid
      exact (EventRun.lost hlater (hstep.good hgood) hlost).powerless }

theorem ReplayWorld.Reached.lawful {w : ReplayWorld} (hw : w.Reached sha256) : w.Lawful sha256 := by
  obtain ⟨before, hrun⟩ := hw
  have hgood : w.Good := ReplayRun.good hrun fun id record hfound => nomatch hfound
  intro space key ttl claimId next hstep events later hlater hnow
  exact (ReplayRun.keeps hlater (hstep.good hgood) (hstep.kept hgood) hnow).2

end

/-- Events are claimed by one worker at a time and committed once, and replay keys are
claimed once, in every world that a run reaches. -/
theorem events_claimed_once (sha256 : List UInt8 → Vector UInt8 32) :
    (∀ w : EventWorld, w.Reached sha256 → w.Lawful sha256) ∧
      ∀ w : ReplayWorld, w.Reached sha256 → w.Lawful sha256 :=
  ⟨fun _ hw => hw.lawful, fun _ hw => hw.lawful⟩

def zeroSha256 (_ : List UInt8) : Vector UInt8 32 := Vector.replicate 32 0

def sampleRecord : EventDedupRecord where
  space := "channel"
  scopeHash := hashParts zeroSha256 ["bot"]
  eventHash := hashParts zeroSha256 ["event"]
  state := .claimed
  claimId := "first"
  createdAt := 0
  updatedAt := 0
  expiresAt := 10

def sampleClaim : EventDedupClaim := ⟨eventKey zeroSha256 "channel" "bot" "event", "first"⟩

def sampleEvents : EventWorld where
  now := 0
  records := AList.insert sampleClaim.id sampleRecord ∅
  claims := [sampleClaim]
  granted := Function.update (fun _ => none) "first" (some (sampleClaim.id, 10))

theorem sampleEvents_reached : sampleEvents.Reached zeroSha256 :=
  ⟨_, .next .stay (.claim "channel" "bot" "event" 10 "first" _ (some sampleClaim) rfl rfl)⟩

def sampleReplay : ReplayWorld where
  now := 0
  records := AList.insert (hashParts zeroSha256 ["internal", "nonce"])
    ⟨"internal", hashParts zeroSha256 ["nonce"], "first", 0, 10⟩ ∅
  drawn := ["first"]

theorem sampleReplay_reached : sampleReplay.Reached zeroSha256 :=
  ⟨_, .next .stay (.claim "internal" "nonce" 10 "first" _ true List.not_mem_nil rfl)⟩

theorem sample_claims_lawful : sampleEvents.Lawful zeroSha256 ∧ sampleReplay.Lawful zeroSha256 :=
  ⟨(events_claimed_once zeroSha256).1 sampleEvents sampleEvents_reached,
    (events_claimed_once zeroSha256).2 sampleReplay sampleReplay_reached⟩

end NyxId.Coordination
