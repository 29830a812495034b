import Mathlib.Order.Bounds.Basic
import StoneBoard.Proofs.Refining

/-!
# What types tell together

Two types are compatible if there is a type that tells all that they tell, and what they tell
together is the least of these.  To be compatible is not transitive; but whatever is compatible
with each of two compatible types is compatible with both of them together.
-/

namespace StoneBoard

namespace Ty

variable {first second third : Ty}

theorem Below.antisymm (below : first.Below second) (above : second.Below first) :
    first = second := by
  induction first generalizing second with
  | unknown => exact (below_unknown.mp above).symm
  | basic => exact (eq_of_basic_below below).symm
  | list elem ih =>
    cases second with
    | unknown | basic => exact below.elim
    | list other => exact congrArg list (ih below above)

instance : PartialOrder Ty where
  le := Below
  le_refl := Below.refl
  le_trans _ _ _ := Below.trans
  le_antisymm _ _ := Below.antisymm

theorem compatible_self (ty : Ty) : ty.compatible ty = true := by
  induction ty with
  | unknown => rfl
  | basic => exact beq_self_eq_true _
  | list elem ih => exact ih

theorem isLUB_unify (agree : first.compatible second = true) :
    IsLUB {first, second} (first.unify second) := by
  constructor
  · rintro _ (rfl | rfl)
    · exact below_unify_left _ _
    · exact below_unify_right agree
  · intro upper isUpper
    exact Below.unify (isUpper (.inl rfl)) (isUpper (.inr rfl))

theorem compatible_iff_bddAbove : first.compatible second = true ↔ BddAbove {first, second} := by
  constructor
  · intro agree
    exact ⟨_, (isLUB_unify agree).1⟩
  · rintro ⟨upper, isUpper⟩
    exact Below.compatible (isUpper (.inl rfl)) (isUpper (.inr rfl)) (compatible_self upper)

theorem compatible_symm (agree : first.compatible second = true) :
    second.compatible first = true := by
  rw [compatible_iff_bddAbove, Set.pair_comm, ← compatible_iff_bddAbove]
  exact agree

theorem unify_comm (agree : first.compatible second = true) :
    first.unify second = second.unify first := by
  have swapped := isLUB_unify (compatible_symm agree)
  rw [Set.pair_comm] at swapped
  exact (isLUB_unify agree).unique swapped

theorem compatible_unify (agree : first.compatible second = true)
    (firstAgrees : first.compatible third = true) (secondAgrees : second.compatible third = true) :
    (first.unify second).compatible third = true := by
  induction first generalizing second third with
  | unknown => exact secondAgrees
  | basic => cases second <;> exact firstAgrees
  | list elem ih =>
    cases second with
    | unknown | basic => exact firstAgrees
    | list other =>
      cases third with
      | unknown => rfl
      | basic => cases firstAgrees
      | list last => exact ih agree firstAgrees secondAgrees

theorem unify_assoc (agree : first.compatible second = true)
    (firstAgrees : first.compatible third = true) (secondAgrees : second.compatible third = true) :
    (first.unify second).unify third = first.unify (second.unify third) := by
  have early := compatible_unify agree firstAgrees secondAgrees
  have late : first.compatible (second.unify third) = true :=
    compatible_symm (compatible_unify secondAgrees (compatible_symm agree)
      (compatible_symm firstAgrees))
  have above : second.Below (first.unify second) ∧ third.Below (second.unify third) ∧
      (second.unify third).Below (first.unify (second.unify third)) :=
    ⟨below_unify_right agree, below_unify_right secondAgrees, below_unify_right late⟩
  apply Below.antisymm
  · exact .unify (.unify (below_unify_left _ _) ((below_unify_left _ _).trans above.2.2))
      (above.2.1.trans above.2.2)
  · exact .unify ((below_unify_left _ _).trans (below_unify_left _ _))
      (.unify (above.1.trans (below_unify_left _ _)) (below_unify_right early))

/-- Types have a common upper bound exactly if they are compatible, and their least one is what
they tell together. -/
theorem unify_least_upper_bound (first second third : Ty) :
    (first.compatible second = true ↔ BddAbove {first, second}) ∧
    (first.compatible second = true →
      IsLUB {first, second} (first.unify second) ∧ first.unify second = second.unify first) ∧
    first.unify first = first ∧
    (∀ less other, less ≤ first → other ≤ second → first.compatible second = true →
      less.compatible other = true ∧ less.unify other ≤ first.unify second) ∧
    (first.compatible second = true → first.compatible third = true →
      second.compatible third = true → (first.unify second).compatible third = true ∧
        (first.unify second).unify third = first.unify (second.unify third)) := by
  have idempotent : IsLUB {first} (first.unify first) := by
    simpa using isLUB_unify (compatible_self first)
  exact ⟨compatible_iff_bddAbove, fun agree => ⟨isLUB_unify agree, unify_comm agree⟩,
    idempotent.unique isLUB_singleton, fun _ _ below others agree =>
      ⟨Below.compatible below others agree, Below.unify_both below others agree⟩,
    fun agree firstAgrees secondAgrees => ⟨compatible_unify agree firstAgrees secondAgrees,
      unify_assoc agree firstAgrees secondAgrees⟩⟩

end Ty

end StoneBoard
