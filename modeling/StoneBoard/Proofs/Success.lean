import StoneBoard.Error

/-!
# Computations that succeed

When a sequence of steps that may fail has a result, so has each of its steps.
-/

namespace StoneBoard

variable {fault α β : Type} {result : β} {outcome : Except fault α}

@[simp]
theorem bind_eq_ok {first : Except fault α} {next : α → Except fault β} :
    (first >>= next) = .ok result ↔
      ∃ value, first = .ok value ∧ next value = .ok result := by
  cases first <;> simp [bind, Except.bind]

@[simp]
theorem exists_unit {holds : Unit → Prop} : (∃ value, holds value) ↔ holds () :=
  ⟨fun ⟨_, proof⟩ => proof, fun proof => ⟨(), proof⟩⟩

@[simp]
theorem pure_eq_ok {value result : α} :
    (pure value : Except fault α) = .ok result ↔ value = result := by
  simp [pure, Except.pure]

@[simp]
theorem map_eq_ok {change : α → β} :
    (change <$> outcome) = .ok result ↔ ∃ value, outcome = .ok value ∧ change value = result := by
  cases outcome <;> simp [Functor.map, Except.map]

@[simp]
theorem mapError_eq_ok {other : Type} {change : fault → other} {result : α} :
    outcome.mapError change = .ok result ↔ outcome = .ok result := by
  cases outcome with
  | error found => exact iff_of_false (by rintro ⟨⟩) (by rintro ⟨⟩)
  | ok value =>
    change Except.ok value = .ok result ↔ _
    rw [Except.ok.injEq, Except.ok.injEq]

end StoneBoard
