import NyxId.Coordination.Model

/-!
What an update of one document does, and what it means for the time of its holder.
-/

namespace NyxId.Coordination

open Interleave

theorem durationMillis_eq {millis ttlMs : ℕ} {name : String}
    (h : durationMillis millis name = .ok ttlMs) : ttlMs = millis := by
  unfold durationMillis at h
  split at h
  · cases h
  · split at h
    · cases h
    · exact (Except.ok.inj h).symm

/-- Code that went on after its duration was checked went on with that duration. -/
theorem of_durationMillis {β : Type} {millis : ℕ} {name : String} {f : ℕ → Except String β} {b : β}
    (h : durationMillis millis name >>= f = .ok b) : f millis = .ok b := by
  cases hmillis : durationMillis millis name with
  | error e =>
    rw [hmillis] at h
    cases h
  | ok ttlMs =>
    obtain rfl := durationMillis_eq hmillis
    rw [hmillis] at h
    exact h

/-- A document can be claimed when there is none or its time is over. -/
theorem claimable_iff {V : Type} {end_ : V → ℕ} {now : ℕ} {before : Option V} :
    claimable (before.map end_) now = true ↔ ∀ doc, before = some doc → end_ doc ≤ now := by
  cases before with
  | none => simp [claimable]
  | some doc => simp [claimable]

section

variable {V : Type} [DecidableEq V] {filter : V → Bool} {change : V → V}
  {docs docs' : Collection String V} {key : String} {answer : Bool}

omit [DecidableEq V] in
/-- Some document passes the filter, or none does. -/
theorem matched_cases (filter : V → Bool) (found : Option V) :
    (∃ doc, found = some doc ∧ filter doc = true) ∨ ∀ doc, found = some doc → filter doc = false := by
  cases found with
  | none => exact Or.inr fun doc hdoc => (nomatch hdoc)
  | some doc =>
    cases hfilter : filter doc with
    | true => exact Or.inl ⟨doc, rfl, hfilter⟩
    | false =>
      refine Or.inr fun other hother => ?_
      obtain rfl := Option.some.inj hother
      exact hfilter

/-- An update that no document passes changes nothing. -/
theorem updateOne_of_unmatched (h : ∀ doc, docs.lookup key = some doc → filter doc = false) :
    updateOne filter change docs key = (docs, false) := by
  unfold updateOne
  cases hfound : docs.lookup key with
  | none => rfl
  | some doc => simp only [h doc hfound, Bool.false_eq_true, if_false]

omit [DecidableEq V] in
theorem deleteOne_of_unmatched (h : ∀ doc, docs.lookup key = some doc → filter doc = false) :
    deleteOne filter docs key = (docs, false) := by
  unfold deleteOne
  cases hfound : docs.lookup key with
  | none => rfl
  | some doc => simp only [h doc hfound, Bool.false_eq_true, if_false]

theorem updateOne_cases (h : updateOne filter change docs key = (docs', answer)) :
    (∃ doc, docs.lookup key = some doc ∧ filter doc = true ∧ docs' = docs.insert key (change doc) ∧
        answer = decide (change doc ≠ doc)) ∨
      (∀ doc, docs.lookup key = some doc → filter doc = false) ∧ docs' = docs ∧ answer = false := by
  rcases matched_cases filter (docs.lookup key) with ⟨doc, hdoc, hfilter⟩ | hnone
  · simp only [updateOne, hdoc, hfilter, if_true, Prod.mk.injEq] at h
    exact Or.inl ⟨doc, hdoc, hfilter, h.1.symm, h.2.symm⟩
  · rw [updateOne_of_unmatched hnone, Prod.mk.injEq] at h
    exact Or.inr ⟨hnone, h.1.symm, h.2.symm⟩

omit [DecidableEq V] in
theorem deleteOne_cases (h : deleteOne filter docs key = (docs', answer)) :
    (∃ doc, docs.lookup key = some doc ∧ filter doc = true ∧ docs' = docs.erase key ∧
        answer = true) ∨
      (∀ doc, docs.lookup key = some doc → filter doc = false) ∧ docs' = docs ∧ answer = false := by
  rcases matched_cases filter (docs.lookup key) with ⟨doc, hdoc, hfilter⟩ | hnone
  · simp only [deleteOne, hdoc, hfilter, if_true, Prod.mk.injEq] at h
    exact Or.inl ⟨doc, hdoc, hfilter, h.1.symm, h.2.symm⟩
  · rw [deleteOne_of_unmatched hnone, Prod.mk.injEq] at h
    exact Or.inr ⟨hnone, h.1.symm, h.2.symm⟩

theorem updated_of_lookup (h : updateOne filter change docs key = (docs', answer)) {k : String}
    {doc : V} (hfound : docs.lookup k = some doc) :
    docs'.lookup k = some doc ∨
      k = key ∧ filter doc = true ∧ docs'.lookup k = some (change doc) ∧
        answer = decide (change doc ≠ doc) := by
  rcases updateOne_cases h with ⟨other, hother, hfilter, rfl, rfl⟩ | ⟨-, rfl, rfl⟩
  · by_cases hkey : k = key
    · subst hkey
      obtain rfl := Option.some.inj (hfound.symm.trans hother)
      exact Or.inr ⟨rfl, hfilter, AList.lookup_insert docs, rfl⟩
    · exact Or.inl ((AList.lookup_insert_ne hkey).trans hfound)
  · exact Or.inl hfound

theorem lookup_of_updated (h : updateOne filter change docs key = (docs', answer)) {k : String}
    {doc' : V} (hfound : docs'.lookup k = some doc') :
    docs.lookup k = some doc' ∨
      ∃ doc, k = key ∧ docs.lookup k = some doc ∧ filter doc = true ∧ doc' = change doc := by
  rcases updateOne_cases h with ⟨doc, hdoc, hfilter, rfl, rfl⟩ | ⟨-, rfl, rfl⟩
  · rcases Collection.lookup_insert_cases hfound with ⟨rfl, rfl⟩ | ⟨-, hother⟩
    · exact Or.inr ⟨doc, rfl, hdoc, hfilter, rfl⟩
    · exact Or.inl hother
  · exact Or.inl hfound

omit [DecidableEq V] in
theorem deleted_of_lookup (h : deleteOne filter docs key = (docs', answer)) {k : String} {doc : V}
    (hfound : docs.lookup k = some doc) :
    docs'.lookup k = some doc ∨ k = key ∧ filter doc = true := by
  rcases deleteOne_cases h with ⟨other, hother, hfilter, rfl, rfl⟩ | ⟨-, rfl, rfl⟩
  · by_cases hkey : k = key
    · subst hkey
      obtain rfl := Option.some.inj (hfound.symm.trans hother)
      exact Or.inr ⟨rfl, hfilter⟩
    · exact Or.inl ((AList.lookup_erase_ne hkey).trans hfound)
  · exact Or.inl hfound

omit [DecidableEq V] in
theorem lookup_of_erased {k : String} {doc : V} (hfound : (docs.erase key).lookup k = some doc) :
    k ≠ key ∧ docs.lookup k = some doc := by
  have hkey : k ≠ key := by
    rintro rfl
    rw [AList.lookup_erase] at hfound
    cases hfound
  exact ⟨hkey, (AList.lookup_erase_ne hkey).symm.trans hfound⟩

omit [DecidableEq V] in
theorem lookup_of_deleted (h : deleteOne filter docs key = (docs', answer)) {k : String} {doc : V}
    (hfound : docs'.lookup k = some doc) : docs.lookup k = some doc := by
  rcases deleteOne_cases h with ⟨other, hother, hfilter, rfl, rfl⟩ | ⟨-, rfl, rfl⟩
  · exact (lookup_of_erased hfound).2
  · exact hfound

end

section

variable {V : Type} [DecidableEq V] {filter : V → Bool} {change : V → V}
  {docs docs' : Collection String V} {key : String} {answer : Bool} {view : V → String × ℕ}
  {holder : String} {until_ now : ℕ} {granted : String → Option (String × ℕ)}

/-- An update that gives the holder of the document it matches a new time. -/
theorem held_updateOne (h : updateOne filter change docs key = (docs', answer))
    (hview : ∀ doc, filter doc = true →
      view (change doc) = (holder, until_) ∧ (view doc).1 = holder) :
    (∃ doc, Tenures.heldBy view docs key = some (holder, (view doc).2) ∧ filter doc = true ∧
        Tenures.heldBy view docs' =
          Function.update (Tenures.heldBy view docs) key (some (holder, until_)) ∧ answer = true) ∨
      Tenures.heldBy view docs' = Tenures.heldBy view docs ∧ answer = false := by
  rcases updateOne_cases h with ⟨doc, hfound, hfilter, rfl, rfl⟩ | ⟨-, rfl, rfl⟩
  · obtain ⟨hnew, hold⟩ := hview doc hfilter
    rw [Tenures.heldBy_insert]
    by_cases hsame : change doc = doc
    · refine Or.inr ⟨?_, decide_eq_false (not_not_intro hsame)⟩
      rw [hsame, ← Tenures.heldBy_of_lookup view hfound, Function.update_eq_self]
    · refine Or.inl ⟨doc, ?_, hfilter, ?_, decide_eq_true hsame⟩
      · rw [Tenures.heldBy_of_lookup view hfound, ← hold]
      · rw [hnew]
  · exact Or.inr ⟨rfl, rfl⟩

theorem steps_renewed (h : updateOne filter change docs key = (docs', answer))
    (hview : ∀ doc, filter doc = true → view (change doc) = (holder, until_) ∧ (view doc).1 = holder)
    (hlive : ∀ doc, filter doc = true → now < (view doc).2) :
    Tenures.Steps ⟨now, Tenures.heldBy view docs, granted⟩
      ⟨now, Tenures.heldBy view docs', Tenures.grantIf answer granted holder key until_⟩ := by
  rcases held_updateOne h hview with ⟨doc, hheld, hfilter, hdocs, rfl⟩ | ⟨hdocs, rfl⟩
  · rw [hdocs]
    exact .single (.extend key holder _ until_ hheld (hlive doc hfilter))
  · rw [hdocs]
    exact .refl

theorem steps_ended (h : updateOne filter change docs key = (docs', answer))
    (hview : ∀ doc, filter doc = true → view (change doc) = (holder, 0) ∧ (view doc).1 = holder) :
    Tenures.Steps ⟨now, Tenures.heldBy view docs, granted⟩
      ⟨now, Tenures.heldBy view docs', Tenures.grantIf answer granted holder key 0⟩ := by
  rcases held_updateOne h hview with ⟨doc, hheld, hfilter, hdocs, rfl⟩ | ⟨hdocs, rfl⟩
  · rw [hdocs]
    exact .single (.finish key holder _ _ hheld (Or.inr rfl))
  · rw [hdocs]
    exact .refl

omit [DecidableEq V] in
theorem steps_deleted (h : deleteOne filter docs key = (docs', answer))
    (hview : ∀ doc, filter doc = true → (view doc).1 = holder) :
    Tenures.Steps ⟨now, Tenures.heldBy view docs, granted⟩
      ⟨now, Tenures.heldBy view docs', Tenures.grantIf answer granted holder key 0⟩ := by
  rcases deleteOne_cases h with ⟨doc, hfound, hfilter, rfl, rfl⟩ | ⟨-, rfl, rfl⟩
  · rw [Tenures.heldBy_erase]
    have hheld := Tenures.heldBy_of_lookup view hfound
    rw [← hview doc hfilter]
    exact .single (.finish key _ _ none hheld (Or.inl rfl))
  · exact .refl

theorem held_unchanged (h : updateOne filter change docs key = (docs', answer))
    (hview : ∀ doc, view (change doc) = view doc) :
    Tenures.heldBy view docs' = Tenures.heldBy view docs := by
  rcases updateOne_cases h with ⟨doc, hfound, hfilter, rfl, rfl⟩ | ⟨-, rfl, rfl⟩
  · rw [Tenures.heldBy_insert, hview, ← Tenures.heldBy_of_lookup view hfound,
      Function.update_eq_self]
  · rfl

end

end NyxId.Coordination
