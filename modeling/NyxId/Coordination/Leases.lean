import NyxId.Coordination.Updates
import NyxId.Interleave.Runs

/-!
Leases under any number of holders. A lease that is over stays over, whatever its token is
used for, and a checkpoint outlives the lease it was stored under.
-/

namespace NyxId.Coordination

open Interleave

/-- The leases, the tokens given out, the releases between their two updates, and for each
lease its name and the time up to which its holder was last given it. -/
structure LeaseWorld (α : Type) where
  now : ℕ
  leases : Leases α
  tokens : List LeaseToken
  releasing : List LeaseToken
  granted : String → Option (String × ℕ)

inductive LeaseEvent (α : Type)
  | wait (later : ℕ)
  | expire (name : String)
  | acquire (name : String) (holder : CoordinationHolder) (ttl : ℕ) (leaseId : String)
      (answer : Option LeaseToken)
  | renew (token : LeaseToken) (ttl : ℕ) (answer : Bool)
  | delete (token : LeaseToken) (answer : Bool)
  | finish (token : LeaseToken) (clientNow : ℕ) (answer : Bool)
  | load (token : LeaseToken) (answer : Option α)
  | store (token : LeaseToken) (checkpoint : Bson α) (clientNow : ℕ) (answer : Bool)

variable {α : Type} [DecidableEq α]

def LeaseWorld.start : LeaseWorld α := ⟨0, ∅, [], [], fun _ => none⟩

/-- Leases are drawn fresh, and tokens are those given out. Only leases without a checkpoint
are in the index that expires them. -/
inductive LeaseStep (w : LeaseWorld α) : LeaseEvent α → LeaseWorld α → Prop
  | wait (later : ℕ) (hlater : w.now ≤ later) : LeaseStep w (.wait later) { w with now := later }
  | expire (name : String) (lease : CoordinationLease α)
      (hfound : w.leases.lookup name = some lease) (hkind : lease.recordKind = .ephemeral)
      (hended : lease.expiresAt ≤ w.now) :
      LeaseStep w (.expire name) { w with leases := w.leases.erase name }
  | acquire (name : String) (holder : CoordinationHolder) (ttl : ℕ) (leaseId : String)
      (leases : Leases α) (answer : Option LeaseToken) (hfresh : w.granted leaseId = none)
      (hok : acquireLease w.now name holder ttl leaseId w.leases = .ok (leases, answer)) :
      LeaseStep w (.acquire name holder ttl leaseId answer) { w with
        leases := leases
        tokens := answer.toList ++ w.tokens
        granted := Tenures.grantIf answer.isSome w.granted leaseId name (dateAddNow w.now ttl) }
  -- two acquisitions may insert the lease at once
  | duplicate (name : String) (holder : CoordinationHolder) (ttl : ℕ) (leaseId : String) :
      LeaseStep w (.acquire name holder ttl leaseId none) w
  | renew (token : LeaseToken) (ttl : ℕ) (leases : Leases α) (answer : Bool)
      (htoken : token ∈ w.tokens)
      (hok : renewLease w.now token ttl w.leases = .ok (leases, answer)) :
      LeaseStep w (.renew token ttl answer) { w with
        leases := leases
        granted := Tenures.grantIf answer w.granted token.leaseId token.name
          (dateAddNow w.now ttl) }
  | delete (token : LeaseToken) (leases : Leases α) (answer : Bool) (htoken : token ∈ w.tokens)
      (hok : deleteLease token w.leases = (leases, answer)) :
      LeaseStep w (.delete token answer) { w with
        leases := leases
        releasing := if answer then w.releasing else token :: w.releasing
        granted := Tenures.grantIf answer w.granted token.leaseId token.name 0 }
  | finish (token : LeaseToken) (clientNow : ℕ) (leases : Leases α) (answer : Bool)
      (htoken : token ∈ w.releasing) (hok : endLease clientNow token w.leases = (leases, answer)) :
      LeaseStep w (.finish token clientNow answer) { w with
        leases := leases
        releasing := w.releasing.erase token
        granted := Tenures.grantIf answer w.granted token.leaseId token.name 0 }
  | load (token : LeaseToken) (htoken : token ∈ w.tokens) :
      LeaseStep w (.load token (loadCheckpoint w.now token w.leases)) w
  | store (token : LeaseToken) (checkpoint : Bson α) (clientNow : ℕ) (leases : Leases α)
      (answer : Bool) (htoken : token ∈ w.tokens)
      (hok : storeCheckpoint w.now clientNow token checkpoint w.leases = (leases, answer)) :
      LeaseStep w (.store token checkpoint clientNow answer) { w with leases := leases }

abbrev LeaseRun : LeaseWorld α → List (LeaseEvent α) → LeaseWorld α → Prop := Runs LeaseStep

def CoordinationLease.view (lease : CoordinationLease α) : String × ℕ :=
  (lease.leaseId, lease.expiresAt)

def LeaseWorld.tenures (w : LeaseWorld α) : Tenures String String :=
  ⟨w.now, Tenures.heldBy CoordinationLease.view w.leases, w.granted⟩

/-- The holder of a lease may still rely on it. -/
def LeaseWorld.Unexpired (w : LeaseWorld α) (name leaseId : String) : Prop :=
  ∃ until_, w.granted leaseId = some (name, until_) ∧ w.now < until_

omit [DecidableEq α] in
theorem acquireLease_cases {now ttl : ℕ} {name leaseId : String} {holder : CoordinationHolder}
    {leases leases' : Leases α} {answer : Option LeaseToken}
    (h : acquireLease now name holder ttl leaseId leases = .ok (leases', answer)) :
    ((∀ lease, leases.lookup name = some lease → lease.expiresAt ≤ now) ∧
        leases' = leases.insert name (claimLease now ttl holder leaseId (leases.lookup name)) ∧
        answer = some ⟨name, holder, leaseId⟩) ∨
      leases' = leases ∧ (answer = none ∨
        ∃ lease, leases.lookup name = some lease ∧ lease.leaseId = leaseId) := by
  unfold acquireLease at h
  replace h := of_durationMillis h
  simp only [pure, Except.pure] at h
  split at h
  · next hclaim =>
    obtain ⟨rfl, rfl⟩ := Prod.mk.inj (Except.ok.inj h)
    exact Or.inl ⟨claimable_iff.mp hclaim, rfl, rfl⟩
  · split at h
    · next hsame =>
      obtain ⟨rfl, rfl⟩ := Prod.mk.inj (Except.ok.inj h)
      obtain ⟨lease, hfound, hlease⟩ := (Option.any_eq_true _ _).mp hsame
      exact Or.inr ⟨rfl, Or.inr ⟨lease, hfound, of_decide_eq_true hlease⟩⟩
    · obtain ⟨rfl, rfl⟩ := Prod.mk.inj (Except.ok.inj h)
      exact Or.inr ⟨rfl, Or.inl rfl⟩

theorem renewLease_ok {now ttl : ℕ} {token : LeaseToken} {leases leases' : Leases α} {answer : Bool}
    (h : renewLease now token ttl leases = .ok (leases', answer)) :
    updateOne (activeLease now token.holder token.leaseId)
      (fun lease => { lease with updatedAt := now, expiresAt := dateAddNow now ttl })
      leases token.name = (leases', answer) := by
  unfold renewLease at h
  exact Except.ok.inj (of_durationMillis h)

omit [DecidableEq α] in
theorem exactLease_iff {holder : CoordinationHolder} {leaseId : String}
    {lease : CoordinationLease α} :
    exactLease holder leaseId lease = true ↔ lease.holder = holder ∧ lease.leaseId = leaseId := by
  obtain ⟨⟨instanceId, generationId⟩, _⟩ := lease
  obtain ⟨instanceId', generationId'⟩ := holder
  simp [exactLease]

omit [DecidableEq α] in
theorem activeLease_iff {now : ℕ} {holder : CoordinationHolder} {leaseId : String}
    {lease : CoordinationLease α} :
    activeLease now holder leaseId lease = true ↔
      (lease.holder = holder ∧ lease.leaseId = leaseId) ∧ now < lease.expiresAt := by
  rw [activeLease, Bool.and_eq_true, exactLease_iff, decide_eq_true_iff]

omit [DecidableEq α] in
/-- A fresh lease is the holder's or there is another lease that is not over. -/
theorem acquireLease_fresh {w : LeaseWorld α} (hw : w.tenures.Exact) {ttl : ℕ}
    {name leaseId : String} {holder : CoordinationHolder} {leases : Leases α}
    {answer : Option LeaseToken} (hfresh : w.granted leaseId = none)
    (hok : acquireLease w.now name holder ttl leaseId w.leases = .ok (leases, answer)) :
    (w.tenures.Free name ∧
        leases = w.leases.insert name (claimLease w.now ttl holder leaseId (w.leases.lookup name)) ∧
        answer = some ⟨name, holder, leaseId⟩) ∨
      leases = w.leases ∧ answer = none := by
  rcases acquireLease_cases hok with ⟨hfree, rfl, rfl⟩ | ⟨rfl, rfl | ⟨lease, hfound, hlease⟩⟩
  · refine Or.inl ⟨fun h until_ hheld => ?_, rfl, rfl⟩
    obtain ⟨lease, hfound, hview⟩ := Option.map_eq_some_iff.mp hheld
    obtain ⟨rfl, rfl⟩ := Prod.mk.inj hview
    exact hfree lease hfound
  · exact Or.inr ⟨rfl, rfl⟩
  · have hheld := Tenures.heldBy_of_lookup CoordinationLease.view hfound
    have hgranted := hw.known name lease.leaseId lease.expiresAt hheld
    rw [hlease] at hgranted
    cases hfresh.symm.trans hgranted

/-- Every step keeps to the rules for keys that are held for limited times. -/
theorem LeaseStep.tenures {w w' : LeaseWorld α} {e : LeaseEvent α} (hstep : LeaseStep w e w')
    (hw : w.tenures.Exact) : Tenures.Steps w.tenures w'.tenures := by
  cases hstep with
  | wait later hlater => exact .single (.wait later hlater)
  | expire name lease hfound hkind hended =>
    have hheld := Tenures.heldBy_of_lookup CoordinationLease.view hfound
    have hlapse := Tenures.Step.lapse (t := w.tenures) name lease.leaseId lease.expiresAt hheld hended
    apply Relation.ReflTransGen.single
    simpa only [LeaseWorld.tenures, Tenures.heldBy_erase] using hlapse
  | acquire name holder ttl leaseId leases answer hfresh hok =>
    rcases acquireLease_fresh hw hfresh hok with ⟨hfree, rfl, rfl⟩ | ⟨rfl, rfl⟩
    · have hclaim := Tenures.Step.claim (t := w.tenures) name leaseId (dateAddNow w.now ttl)
        hfresh hfree
      apply Relation.ReflTransGen.single
      simp only [LeaseWorld.tenures, Tenures.heldBy_insert]
      exact hclaim
    · exact .refl
  | duplicate => exact .refl
  | renew token ttl leases answer htoken hok =>
    apply steps_renewed (renewLease_ok hok)
    · intro lease hactive
      obtain ⟨⟨-, hlease⟩, -⟩ := activeLease_iff.mp hactive
      exact ⟨Prod.ext hlease rfl, hlease⟩
    · intro lease hactive
      exact (activeLease_iff.mp hactive).2
  | delete token leases answer htoken hok =>
    apply steps_deleted hok
    intro lease hexact
    exact (exactLease_iff.mp (Bool.and_eq_true_iff.mp hexact).1).2
  | finish token clientNow leases answer htoken hok =>
    apply steps_ended hok
    intro lease hexact
    have hlease := (exactLease_iff.mp (Bool.and_eq_true_iff.mp hexact).1).2
    exact ⟨Prod.ext hlease rfl, hlease⟩
  | load => exact .refl
  | store token checkpoint clientNow leases answer htoken hok =>
    have hheld : Tenures.heldBy CoordinationLease.view leases =
        Tenures.heldBy CoordinationLease.view w.leases := held_unchanged hok fun lease => rfl
    simp only [LeaseWorld.tenures, hheld]
    exact .refl

/-- What a step leaves under a name: a lease that goes back to the one before it, or a lease
just acquired. -/
theorem LeaseStep.found {w w' : LeaseWorld α} {e : LeaseEvent α} (hstep : LeaseStep w e w')
    (hw : w.tenures.Exact) {name : String} {lease' : CoordinationLease α}
    (hfound : w'.leases.lookup name = some lease') :
    (∃ lease, w.leases.lookup name = some lease ∧ lease'.holder = lease.holder ∧
        lease'.leaseId = lease.leaseId ∧
        (lease'.recordKind = lease.recordKind ∧ lease'.checkpoint = lease.checkpoint ∨
          lease'.recordKind = .checkpoint)) ∨
      ∃ holder ttl leaseId, e = .acquire name holder ttl leaseId (some ⟨name, holder, leaseId⟩) ∧
        w.granted leaseId = none ∧
        lease' = claimLease w.now ttl holder leaseId (w.leases.lookup name) := by
  have hsame : w.leases.lookup name = some lease' → ∃ lease, w.leases.lookup name = some lease ∧
      lease'.holder = lease.holder ∧ lease'.leaseId = lease.leaseId ∧
      (lease'.recordKind = lease.recordKind ∧ lease'.checkpoint = lease.checkpoint ∨
        lease'.recordKind = .checkpoint) :=
    fun h => ⟨lease', h, rfl, rfl, Or.inl ⟨rfl, rfl⟩⟩
  cases hstep with
  | wait | duplicate | load => exact Or.inl (hsame hfound)
  | expire other lease hother hkind hended => exact Or.inl (hsame (lookup_of_erased hfound).2)
  | acquire other holder ttl leaseId leases answer hfresh hok =>
    rcases acquireLease_fresh hw hfresh hok with ⟨hfree, rfl, rfl⟩ | ⟨rfl, rfl⟩
    · rcases Collection.lookup_insert_cases hfound with ⟨rfl, rfl⟩ | ⟨-, hold⟩
      · exact Or.inr ⟨holder, ttl, leaseId, rfl, hfresh, rfl⟩
      · exact Or.inl (hsame hold)
    · exact Or.inl (hsame hfound)
  | renew token ttl leases answer htoken hok =>
    rcases lookup_of_updated (renewLease_ok hok) hfound with hold | ⟨lease, rfl, hold, hfilter, rfl⟩
    · exact Or.inl (hsame hold)
    · exact Or.inl ⟨lease, hold, rfl, rfl, Or.inl ⟨rfl, rfl⟩⟩
  | delete token leases answer htoken hok => exact Or.inl (hsame (lookup_of_deleted hok hfound))
  | finish token clientNow leases answer htoken hok =>
    rcases lookup_of_updated hok hfound with hold | ⟨lease, rfl, hold, hfilter, rfl⟩
    · exact Or.inl (hsame hold)
    · exact Or.inl ⟨lease, hold, rfl, rfl, Or.inl ⟨rfl, rfl⟩⟩
  | store token checkpoint clientNow leases answer htoken hok =>
    rcases lookup_of_updated hok hfound with hold | ⟨lease, rfl, hold, hfilter, rfl⟩
    · exact Or.inl (hsame hold)
    · exact Or.inl ⟨lease, hold, rfl, rfl, Or.inr rfl⟩

structure LeaseWorld.Good (w : LeaseWorld α) : Prop where
  exact : w.tenures.Exact
  kinds : ∀ name lease, w.leases.lookup name = some lease → lease.checkpoint.isSome →
    lease.recordKind = .checkpoint
  tokens : ∀ token ∈ w.tokens, ∃ until_, w.granted token.leaseId = some (token.name, until_)
  releasing : ∀ token ∈ w.releasing, token ∈ w.tokens
  holders : ∀ token ∈ w.tokens, ∀ lease, w.leases.lookup token.name = some lease →
    lease.leaseId = token.leaseId → lease.holder = token.holder

omit [DecidableEq α] in
theorem good_start : (LeaseWorld.start : LeaseWorld α).Good where
  exact := Tenures.exact_start
  kinds _ _ hfound := by cases hfound
  tokens _ htoken := by cases htoken
  releasing _ htoken := by cases htoken
  holders _ htoken := by cases htoken

/-- Whose time is known stays known, and tokens are never taken back. -/
theorem LeaseStep.tokens {w w' : LeaseWorld α} {e : LeaseEvent α} (hstep : LeaseStep w e w')
    (hw : w.Good) : ∀ token ∈ w'.tokens,
      token ∈ w.tokens ∨ ∃ ttl, e = .acquire token.name token.holder ttl token.leaseId (some token) ∧
        w.granted token.leaseId = none ∧
        w'.granted token.leaseId = some (token.name, dateAddNow w.now ttl) := by
  intro token htoken
  cases hstep with
  | acquire name holder ttl leaseId leases answer hfresh hok =>
    rcases acquireLease_fresh hw.exact hfresh hok with ⟨hfree, rfl, rfl⟩ | ⟨rfl, rfl⟩
    · rcases List.mem_cons.mp htoken with rfl | hold
      · exact Or.inr ⟨ttl, rfl, hfresh, Function.update_self ..⟩
      · exact Or.inl hold
    · exact Or.inl htoken
  | _ => exact Or.inl htoken

theorem LeaseStep.good {w w' : LeaseWorld α} {e : LeaseEvent α} (hstep : LeaseStep w e w')
    (hw : w.Good) : w'.Good where
  exact := (hstep.tenures hw.exact).exact hw.exact
  kinds name lease' hfound hsome := by
    rcases hstep.found hw.exact hfound with
      ⟨lease, hold, -, -, ⟨hkind, hcheckpoint⟩ | hkind⟩ | ⟨holder, ttl, leaseId, -, -, rfl⟩
    · rw [hkind]
      exact hw.kinds name lease hold (hcheckpoint ▸ hsome)
    · exact hkind
    · cases hbefore : w.leases.lookup name with
      | none => simp [claimLease, hbefore] at hsome
      | some lease =>
        have hcheckpoint : lease.checkpoint.isSome := by simpa [claimLease, hbefore] using hsome
        simpa [claimLease] using hw.kinds name lease hbefore hcheckpoint
  tokens token htoken := by
    rcases hstep.tokens hw token htoken with hold | ⟨ttl, rfl, hfresh, hgranted⟩
    · obtain ⟨until_, hgranted⟩ := hw.tokens token hold
      exact (hstep.tenures hw.exact).granted hw.exact hgranted
    · exact ⟨_, hgranted⟩
  releasing token htoken := by
    cases hstep with
    | acquire => exact List.mem_append_right _ (hw.releasing token htoken)
    | delete token' leases answer htoken' hok =>
      cases answer with
      | true => exact hw.releasing token htoken
      | false =>
        rcases List.mem_cons.mp htoken with rfl | hold
        · exact htoken'
        · exact hw.releasing token hold
    | finish => exact hw.releasing token (List.mem_of_mem_erase htoken)
    | _ => exact hw.releasing token htoken
  holders token htoken lease' hfound hlease := by
    rcases hstep.found hw.exact hfound with
      ⟨lease, hold, hholder, hid, -⟩ | ⟨holder, ttl, leaseId, rfl, hfresh, rfl⟩
    · rw [hholder]
      rcases hstep.tokens hw token htoken with hissued | ⟨ttl, rfl, hfresh, -⟩
      · exact hw.holders token hissued lease hold (hid.symm.trans hlease)
      · have hheld := Tenures.heldBy_of_lookup CoordinationLease.view hold
        have hgranted := hw.exact.known token.name lease.leaseId lease.expiresAt hheld
        rw [← hid, hlease] at hgranted
        cases hfresh.symm.trans hgranted
    · rcases hstep.tokens hw token htoken with hissued | ⟨ttl', hsame, -, -⟩
      · obtain ⟨until_, hgranted⟩ := hw.tokens token hissued
        rw [← show leaseId = token.leaseId from hlease] at hgranted
        cases hfresh.symm.trans hgranted
      · injection hsame

/-- Worlds that runs reach. -/
def LeaseWorld.Reached (w : LeaseWorld α) : Prop := ∃ events, LeaseRun .start events w

theorem LeaseRun.good {w w' : LeaseWorld α} {events : List (LeaseEvent α)}
    (hrun : LeaseRun w events w') (hw : w.Good) : w'.Good :=
  Runs.preserves (fun _ _ _ hgood hstep => hstep.good hgood) hw hrun

theorem LeaseWorld.Reached.good {w : LeaseWorld α} (hw : w.Reached) : w.Good := by
  obtain ⟨events, hrun⟩ := hw
  exact LeaseRun.good hrun good_start

theorem LeaseRun.over {w w' : LeaseWorld α} {events : List (LeaseEvent α)}
    (hrun : LeaseRun w events w') (hw : w.Good) {leaseId : String} (hover : w.tenures.Over leaseId) :
    w'.tenures.Over leaseId := by
  have hboth : w'.Good ∧ w'.tenures.Over leaseId := by
    refine Runs.preserves (P := fun w => w.Good ∧ w.tenures.Over leaseId) ?_ ⟨hw, hover⟩ hrun
    rintro w e w' ⟨hgood, hover⟩ hstep
    exact ⟨hstep.good hgood, (hstep.tenures hgood.exact).over hgood.exact hover⟩
  exact hboth.2

omit [DecidableEq α] in
/-- The lease of a token is over when its holder may not rely on it. -/
theorem LeaseWorld.Good.over {w : LeaseWorld α} (hw : w.Good) {token : LeaseToken}
    (htoken : token ∈ w.tokens) (hexpired : ¬ w.Unexpired token.name token.leaseId) :
    w.tenures.Over token.leaseId := by
  obtain ⟨until_, hgranted⟩ := hw.tokens token htoken
  refine ⟨token.name, until_, hgranted, ?_⟩
  by_contra hlive
  exact hexpired ⟨until_, hgranted, Nat.lt_of_not_le hlive⟩

/-- What a token can still do in a world: nothing. -/
structure LeaseWorld.Powerless (w : LeaseWorld α) (token : LeaseToken) : Prop where
  renew : ∀ ttl leases answer, renewLease w.now token ttl w.leases = .ok (leases, answer) →
    leases = w.leases ∧ answer = false
  load : loadCheckpoint w.now token w.leases = none
  store : ∀ checkpoint clientNow,
    storeCheckpoint w.now clientNow token checkpoint w.leases = (w.leases, false)

theorem LeaseWorld.Good.powerless {w : LeaseWorld α} (hw : w.Good) {token : LeaseToken}
    (hover : w.tenures.Over token.leaseId) : w.Powerless token := by
  have hinactive : ∀ lease, w.leases.lookup token.name = some lease →
      activeLease w.now token.holder token.leaseId lease = false := by
    intro lease hfound
    apply Bool.eq_false_iff.mpr
    intro hactive
    obtain ⟨⟨-, hlease⟩, hlive⟩ := activeLease_iff.mp hactive
    have hheld := Tenures.heldBy_of_lookup CoordinationLease.view hfound
    have hended := hw.exact.ended_of_over (hlease ▸ hover) hheld
    exact Nat.lt_irrefl _ (Nat.lt_of_lt_of_le hlive hended)
  refine ⟨fun ttl leases answer hok => ?_, ?_, fun checkpoint clientNow => ?_⟩
  · have hsame := renewLease_ok hok
    rw [updateOne_of_unmatched hinactive] at hsame
    obtain ⟨rfl, rfl⟩ := Prod.mk.inj hsame
    exact ⟨rfl, rfl⟩
  · unfold loadCheckpoint
    cases hfound : w.leases.lookup token.name with
    | none => rfl
    | some lease => simp [Option.filter, hinactive lease hfound]
  · exact updateOne_of_unmatched hinactive

/-- What ends the lease of a token: another acquisition, or a release that succeeds. -/
def LeaseEvent.Ends (token : LeaseToken) : LeaseEvent α → Prop
  | .acquire name _ _ _ answer => name = token.name ∧ answer.isSome
  | .delete other answer => other = token ∧ answer = true
  | .finish other _ answer => other = token ∧ answer = true
  | _ => False

theorem LeaseStep.over_of_ends {w w' : LeaseWorld α} {e : LeaseEvent α} (hstep : LeaseStep w e w')
    (hw : w.Good) {token : LeaseToken} (htoken : token ∈ w.tokens) (hends : e.Ends token) :
    w'.tenures.Over token.leaseId := by
  cases hstep with
  | acquire name holder ttl leaseId leases answer hfresh hok =>
    obtain ⟨rfl, hsome⟩ := hends
    obtain ⟨until_, hgranted⟩ := hw.tokens token htoken
    rcases acquireLease_fresh hw.exact hfresh hok with ⟨hfree, rfl, rfl⟩ | ⟨rfl, rfl⟩
    · have hne : token.leaseId ≠ leaseId := by
        intro hsame
        rw [hsame] at hgranted
        cases hfresh.symm.trans hgranted
      refine ⟨token.name, until_, ?_, hw.exact.ended_of_free hfree hgranted⟩
      exact (Function.update_of_ne hne ..).trans hgranted
    · cases hsome
  | duplicate => cases hends.2
  | delete other leases answer hother hok =>
    obtain ⟨rfl, rfl⟩ := hends
    exact ⟨_, 0, Function.update_self .., Nat.zero_le _⟩
  | finish other clientNow leases answer hother hok =>
    obtain ⟨rfl, rfl⟩ := hends
    exact ⟨_, 0, Function.update_self .., Nat.zero_le _⟩
  | _ => cases hends

/-- A successful store of a checkpoint under a name. -/
def LeaseEvent.Stores (name : String) : LeaseEvent α → Prop
  | .store token _ _ answer => token.name = name ∧ answer = true
  | _ => False

/-- A checkpoint stays until another one is stored. -/
theorem LeaseStep.keeps {w w' : LeaseWorld α} {e : LeaseEvent α} (hstep : LeaseStep w e w')
    (hw : w.Good) {name : String} {checkpoint : Bson α}
    (hkept : ∃ lease, w.leases.lookup name = some lease ∧ lease.checkpoint = some checkpoint)
    (hother : ¬ e.Stores name) :
    ∃ lease, w'.leases.lookup name = some lease ∧ lease.checkpoint = some checkpoint := by
  obtain ⟨lease, hfound, hcheckpoint⟩ := hkept
  cases hstep with
  | wait | duplicate | load => exact ⟨lease, hfound, hcheckpoint⟩
  | expire other expired hexpired hkind hended =>
    have hne : name ≠ other := by
      rintro rfl
      obtain rfl := Option.some.inj (hfound.symm.trans hexpired)
      have hstored := hw.kinds name lease hfound (by rw [hcheckpoint]; rfl)
      rw [hkind] at hstored
      cases hstored
    exact ⟨lease, (AList.lookup_erase_ne hne).trans hfound, hcheckpoint⟩
  | acquire other holder ttl leaseId leases answer hfresh hok =>
    rcases acquireLease_fresh hw.exact hfresh hok with ⟨hfree, rfl, rfl⟩ | ⟨rfl, rfl⟩
    · by_cases hname : name = other
      · subst hname
        refine ⟨_, AList.lookup_insert w.leases, ?_⟩
        rw [hfound]
        exact hcheckpoint
      · exact ⟨lease, (AList.lookup_insert_ne hname).trans hfound, hcheckpoint⟩
    · exact ⟨lease, hfound, hcheckpoint⟩
  | renew token ttl leases answer htoken hok =>
    rcases updated_of_lookup (renewLease_ok hok) hfound with hsame | ⟨rfl, hfilter, hnew, -⟩
    · exact ⟨lease, hsame, hcheckpoint⟩
    · exact ⟨_, hnew, hcheckpoint⟩
  | delete token leases answer htoken hok =>
    rcases deleted_of_lookup hok hfound with hsame | ⟨rfl, hfilter⟩
    · exact ⟨lease, hsame, hcheckpoint⟩
    · have hnone := (Bool.and_eq_true_iff.mp hfilter).2
      rw [hcheckpoint] at hnone
      cases hnone
  | finish token clientNow leases answer htoken hok =>
    rcases updated_of_lookup hok hfound with hsame | ⟨rfl, hfilter, hnew, -⟩
    · exact ⟨lease, hsame, hcheckpoint⟩
    · exact ⟨_, hnew, hcheckpoint⟩
  | store token other clientNow leases answer htoken hok =>
    rcases updated_of_lookup hok hfound with hsame | ⟨rfl, hfilter, hnew, rfl⟩
    · exact ⟨lease, hsame, hcheckpoint⟩
    · have hunchanged := of_not_not fun hne => hother ⟨rfl, decide_eq_true hne⟩
      rw [hunchanged] at hnew
      exact ⟨lease, hnew, hcheckpoint⟩

/-- A release leaves the leases of others as they are. -/
theorem LeaseStep.spares {w w' : LeaseWorld α} {e : LeaseEvent α} (hstep : LeaseStep w e w')
    {token : LeaseToken} (hrelease : (∃ answer, e = .delete token answer) ∨
      ∃ clientNow answer, e = .finish token clientNow answer) {name : String}
    {lease : CoordinationLease α} (hfound : w.leases.lookup name = some lease)
    (hother : lease.leaseId ≠ token.leaseId) : w'.leases.lookup name = some lease := by
  rcases hrelease with ⟨answer, rfl⟩ | ⟨clientNow, answer, rfl⟩
  · cases hstep with
    | delete _ leases _ htoken hok =>
      rcases deleted_of_lookup hok hfound with hsame | ⟨rfl, hfilter⟩
      · exact hsame
      · exact absurd (exactLease_iff.mp (Bool.and_eq_true_iff.mp hfilter).1).2 hother
  · cases hstep with
    | finish _ _ leases _ htoken hok =>
      rcases updated_of_lookup hok hfound with hsame | ⟨rfl, hfilter, -, -⟩
      · exact hsame
      · exact absurd (exactLease_iff.mp (Bool.and_eq_true_iff.mp hfilter).1).2 hother

/-- A store that succeeds leaves its checkpoint under the name of the lease. -/
theorem LeaseStep.stored {w w' : LeaseWorld α} {token : LeaseToken} {checkpoint : Bson α}
    {clientNow : ℕ} (hstep : LeaseStep w (.store token checkpoint clientNow true) w') :
    ∃ lease, w'.leases.lookup token.name = some lease ∧ lease.checkpoint = some checkpoint := by
  cases hstep with
  | store _ _ _ leases _ htoken hok =>
    rcases updateOne_cases hok with ⟨lease, hfound, hfilter, rfl, -⟩ | ⟨-, -, hfalse⟩
    · exact ⟨_, AList.lookup_insert w.leases, rfl⟩
    · cases hfalse

theorem LeaseRun.keeps {w w' : LeaseWorld α} {events : List (LeaseEvent α)}
    (hrun : LeaseRun w events w') (hw : w.Good) {name : String} {checkpoint : Bson α}
    (hkept : ∃ lease, w.leases.lookup name = some lease ∧ lease.checkpoint = some checkpoint)
    (hother : ∀ e ∈ events, ¬ e.Stores name) :
    ∃ lease, w'.leases.lookup name = some lease ∧ lease.checkpoint = some checkpoint := by
  induction hrun with
  | stay => exact hkept
  | next hrun hstep ih =>
    have hbefore := ih fun e he => hother e (List.mem_append_left _ he)
    exact hstep.keeps (LeaseRun.good hrun hw) hbefore
      (hother _ (List.mem_append_right _ (List.mem_singleton_self _)))

/-- The value that a load returns for a stored one. -/
def Bson.read : Bson α → Option α
  | .null => none
  | .value v => some v

omit [DecidableEq α] in
/-- Whoever may rely on its lease loads the checkpoint under the name. -/
theorem LeaseWorld.Good.load {w : LeaseWorld α} (hw : w.Good) {token : LeaseToken}
    (htoken : token ∈ w.tokens) (hlive : w.Unexpired token.name token.leaseId)
    {checkpoint : Bson α} (hkept : ∃ lease, w.leases.lookup token.name = some lease ∧
      lease.checkpoint = some checkpoint) :
    loadCheckpoint w.now token w.leases = checkpoint.read := by
  obtain ⟨lease, hfound, hcheckpoint⟩ := hkept
  obtain ⟨until_, hgranted, hnow⟩ := hlive
  have hheld := hw.exact.kept token.name token.leaseId until_ hgranted hnow
  have hview := (Tenures.heldBy_of_lookup CoordinationLease.view hfound).symm.trans hheld
  obtain ⟨hlease, rfl⟩ := Prod.mk.inj (Option.some.inj hview)
  have hactive := activeLease_iff.mpr ⟨⟨hw.holders token htoken lease hfound hlease, hlease⟩, hnow⟩
  unfold loadCheckpoint
  rw [hfound, Option.filter, if_pos hactive]
  simp only [hcheckpoint]
  cases checkpoint with
  | null => rfl
  | value v => rfl

omit [DecidableEq α] in
/-- Unexpired leases exclude each other, and those in the store are among them. -/
theorem LeaseWorld.Good.exclusive {w : LeaseWorld α} (hw : w.Good) :
    (∀ name leaseId leaseId', w.Unexpired name leaseId → w.Unexpired name leaseId' →
      leaseId = leaseId') ∧
    ∀ name lease, w.leases.lookup name = some lease → w.now < lease.expiresAt →
      w.Unexpired name lease.leaseId := by
  refine ⟨fun name leaseId leaseId' h h' => ?_, fun name lease hfound hlive => ?_⟩
  · obtain ⟨until_, hgranted, hnow⟩ := h
    obtain ⟨until', hgranted', hnow'⟩ := h'
    exact hw.exact.exclusive ⟨until_, hgranted, hnow⟩ ⟨until', hgranted', hnow'⟩
  · have hheld := Tenures.heldBy_of_lookup CoordinationLease.view hfound
    exact ⟨lease.expiresAt, hw.exact.known name lease.leaseId lease.expiresAt hheld, hlive⟩

end NyxId.Coordination
