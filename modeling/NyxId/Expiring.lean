import Mathlib.Order.Defs.PartialOrder
import Mathlib.Tactic.Common

/-!
One stored document with an expiry, under requests at times that never go back. Every request
carries an id that no earlier one had, and an expired document may be deleted at any time.
-/

namespace Expiring

variable {T D I : Type} [Preorder T]

/-- When a document expires, and what a request at a time with an id makes of the document and
answers; no answer means that the request failed and changed nothing. -/
structure Store (T D I : Type) where
  expiresAt : D → T
  answer : T → I → Option D → Option (Option D × Bool)

/-- The answers so far with their times, the time, the ids that were used, and the document. -/
inductive Run (store : Store T D I) : List (T × Bool) → T → List I → Option D → Prop
  | start (now : T) : Run store [] now [] none
  | wait {trace now used doc later} : Run store trace now used doc → now ≤ later →
      Run store trace later used doc
  | request {trace now used doc id next admitted} : Run store trace now used doc → id ∉ used →
      store.answer now id doc = some (next, admitted) →
      Run store (trace ++ [(now, admitted)]) now (id :: used) next
  | expire {trace now used doc} : Run store trace now used (some doc) →
      store.expiresAt doc ≤ now → Run store trace now used none

variable {store : Store T D I} {trace : List (T × Bool)} {now : T} {used : List I} {doc : Option D}

/-- No answer is later than the time. -/
theorem Run.le (h : Run store trace now used doc) : ∀ answer ∈ trace, answer.1 ≤ now := by
  induction h with
  | start now => simp
  | wait _ hle ih => exact fun answer hanswer => le_trans (ih answer hanswer) hle
  | request _ _ _ ih =>
    intro answer hanswer
    obtain hbefore | hnew := List.mem_append.mp hanswer
    · exact ih answer hbefore
    · exact le_of_eq (congrArg Prod.fst (List.mem_singleton.mp hnew))
  | expire _ _ ih => exact ih

end Expiring
