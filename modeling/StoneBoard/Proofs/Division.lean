import StoneBoard.Builtin
import Mathlib.Order.Bounds.Basic
import Mathlib.Algebra.Order.Ring.Int

/-!
# Division

Quotients are rounded down.  Both operations start from division that rounds towards zero, and
each of them corrects what it gets on its own; the corrections fit together.
-/

namespace StoneBoard

/-- The quotient of a division that rounds down, and its remainder. -/
structure RoundsDown (dividend divisor quotient remainder : Int) : Prop where
  whole : dividend = divisor * quotient + remainder
  sign : remainder = 0 ∨ remainder.sign = divisor.sign
  small : |remainder| < |divisor|
  greatest : 0 < divisor → IsGreatest {other | other * divisor ≤ dividend} quotient
  greatestOfNeg : divisor < 0 → IsGreatest {other | dividend ≤ other * divisor} quotient

theorem roundsDown_of_between {dividend divisor quotient remainder : Int}
    (whole : dividend = divisor * quotient + remainder)
    (between : (0 ≤ remainder ∧ remainder < divisor) ∨ (divisor < remainder ∧ remainder ≤ 0)) :
    RoundsDown dividend divisor quotient remainder := by
  have next : (quotient + 1) * divisor = divisor * quotient + divisor := by
    rw [Int.add_mul, Int.one_mul, Int.mul_comm]
  have multiple := Int.mul_comm quotient divisor
  refine ⟨whole, ?_, ?_, fun positive => ⟨?_, fun other fits => ?_⟩,
    fun negative => ⟨?_, fun other fits => ?_⟩⟩
  · grind [Int.sign_eq_one_of_pos, Int.sign_eq_neg_one_of_neg]
  · grind
  · show quotient * divisor ≤ dividend
    omega
  · have below : other * divisor < (quotient + 1) * divisor := Int.lt_of_le_of_lt fits (by omega)
    exact Int.lt_add_one_iff.mp (lt_of_mul_lt_mul_right below positive.le)
  · show dividend ≤ quotient * divisor
    omega
  · have below : (quotient + 1) * divisor < other * divisor := Int.lt_of_lt_of_le (by omega) fits
    exact Int.lt_add_one_iff.mp (lt_of_mul_lt_mul_of_nonpos_right below negative.le)

/-- The corrected quotient and the corrected remainder belong together. -/
theorem roundsDown_of_integerDiv (dividend : Int) {divisor : Int} (nonzero : divisor ≠ 0) :
    ∃ quotient remainder, integerDiv dividend divisor = .ok quotient ∧
      integerMod dividend divisor = .ok remainder ∧
      RoundsDown dividend divisor quotient remainder := by
  have whole := Int.mul_tdiv_add_tmod dividend divisor
  have small : (dividend.tmod divisor).natAbs < divisor.natAbs := by
    rw [Int.natAbs_tmod]
    exact Nat.mod_lt _ (Int.natAbs_pos.mpr nonzero)
  simp only [integerDiv, integerMod, if_neg nonzero]
  refine ⟨_, _, rfl, rfl, ?_⟩
  split
  next strays =>
    refine roundsDown_of_between ?_ (by omega)
    rw [Int.mul_sub]
    omega
  next fits => exact roundsDown_of_between whole.symm (by omega)

theorem Builtin.run_arithmetic {op : Operation} {operate : Int → Int → Except Cause Int}
    {board : Board}
    (applies : ∀ first second, op.apply [first, second] board = arithmetic operate first second)
    (first second : Int) : (Builtin.operation op).run [.int first, .int second] board =
      (operate first second).map fun result => (board, some (.int result)) := by
  change ((op.apply [.int first, .int second] board) >>= fun value => pure (board, some value)) = _
  rw [applies]
  change ((operate first second >>= fun result => pure (Value.int result)) >>= _) = _
  cases operate first second <;> rfl

/-- Division fails for a divisor of zero and for no other one.  Otherwise it rounds down. -/
theorem division_rounds_down (dividend divisor : Int) (board : Board) :
    ((Builtin.operation .div).run [.int dividend, .int divisor] board =
      .error .divisionByZero ↔ divisor = 0) ∧
    ((Builtin.operation .mod).run [.int dividend, .int divisor] board =
      .error .divisionByZero ↔ divisor = 0) ∧
    (divisor ≠ 0 → ∃ quotient remainder,
      (Builtin.operation .div).run [.int dividend, .int divisor] board =
        .ok (board, some (.int quotient)) ∧
      (Builtin.operation .mod).run [.int dividend, .int divisor] board =
        .ok (board, some (.int remainder)) ∧
      RoundsDown dividend divisor quotient remainder) := by
  have divides : (Builtin.operation .div).run [.int dividend, .int divisor] board = _ :=
    Builtin.run_arithmetic (fun _ _ => rfl) dividend divisor
  have leaves : (Builtin.operation .mod).run [.int dividend, .int divisor] board = _ :=
    Builtin.run_arithmetic (fun _ _ => rfl) dividend divisor
  rw [divides, leaves]
  by_cases zero : divisor = 0
  · simp only [integerDiv, integerMod, if_pos zero]
    exact ⟨⟨fun _ => zero, fun _ => rfl⟩, ⟨fun _ => zero, fun _ => rfl⟩, (absurd zero ·)⟩
  · obtain ⟨quotient, remainder, divided, left, roundsDown⟩ :=
      roundsDown_of_integerDiv dividend zero
    rw [divided, left]
    exact ⟨⟨nofun, (absurd · zero)⟩, ⟨nofun, (absurd · zero)⟩,
      fun _ => ⟨quotient, remainder, rfl, rfl, roundsDown⟩⟩

theorem minusSeven_rounds_down :
    ∃ quotient remainder, RoundsDown (-7) 2 quotient remainder ∧
      (Builtin.operation .div).run [.int (-7), .int 2] (.blank 1 1) =
        .ok (.blank 1 1, some (.int quotient)) := by
  obtain ⟨quotient, remainder, divided, -, roundsDown⟩ :=
    (division_rounds_down (-7) 2 (.blank 1 1)).2.2 (by decide)
  exact ⟨quotient, remainder, roundsDown, divided⟩

end StoneBoard
