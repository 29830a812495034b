import StoneBoard.Proofs.Evaluation

/-!
# Machines that follow an evaluation

A machine follows an evaluation if it comes to the same end: where the evaluation has a
value, the machine reaches a state that fits the value; where the evaluation fails, the
machine fails for the same cause; and as long as the evaluation runs out of fuel, the
machine goes on for as many steps as there was fuel.  Board and log agree in the end.

The rules of this file let a proof go through code and evaluation side by side, without
looking into the monad.
-/

namespace StoneBoard

namespace Evaluation

variable {α β : Type}

theorem run_bind (first : Evaluation α) (next : α → Evaluation β) (scene : Scene) :
    (first >>= next).run.run scene =
      match first.run.run scene with
      | none => none
      | some (.ok value, after) => (next value).run.run after
      | some (.error cause, after) => some (.error cause, after) := by
  change (Option.bind (first.run.run scene) _) = _
  rcases first.run.run scene with _ | ⟨outcome, after⟩
  · rfl
  · cases outcome <;> rfl

end Evaluation

namespace Machine

/-- Steps of a machine, each of which begins with at least `floor` callers waiting. -/
inductive Steps (maxDepth floor : Nat) : Nat → Machine → Machine → Prop
  | refl (machine : Machine) : Steps maxDepth floor 0 machine machine
  | head {count : Nat} {first second last : Machine}
      (deep : floor ≤ first.callers.length)
      (stepped : first.step maxDepth = .next second)
      (rest : Steps maxDepth floor count second last) :
      Steps maxDepth floor (count + 1) first last

namespace Steps

variable {limit floor : Nat}
variable {count : Nat} {first : Machine}
variable {more other : Nat} {last : Machine}

theorem trans {second third : Machine} (early : Steps limit floor count first second)
    (late : Steps limit floor more second third) :
    Steps limit floor (count + more) first third := by
  induction early with
  | refl => simpa using late
  | head deep stepped rest ih =>
    rw [Nat.add_right_comm]
    exact .head deep stepped (ih late)

theorem lower (below : other ≤ floor) (steps : Steps limit floor count first last) :
    Steps limit other count first last := by
  induction steps with
  | refl => exact .refl _
  | head deep stepped rest ih => exact .head (Nat.le_trans below deep) stepped ih

theorem take (steps : Steps limit floor (count + more) first last) :
    ∃ middle, Steps limit floor count first middle ∧
      Steps limit floor more middle last := by
  induction count generalizing first with
  | zero => exact ⟨first, .refl _, by simpa using steps⟩
  | succ count ih =>
    rw [Nat.add_right_comm] at steps
    cases steps with
    | head deep stepped rest =>
      obtain ⟨middle, early, late⟩ := ih rest
      exact ⟨middle, .head deep stepped early, late⟩

theorem unique {left right : Machine} (toLeft : Steps limit floor count first left)
    (toRight : Steps limit other count first right) : left = right := by
  induction toLeft with
  | refl => cases toRight; rfl
  | head deep stepped rest ih =>
    cases toRight with
    | head _ steppedToo restToo =>
      rw [stepped] at steppedToo
      cases steppedToo
      exact ih restToo

end Steps

/-- A machine comes to the end of an evaluation, with `ends` relating values and states. -/
def Follows {α : Type} (maxDepth floor fuel : Nat) (machine : Machine)
    (evaluation : Evaluation α) (ends : α → Machine → Prop) : Prop :=
  match evaluation.run.run machine.scene with
  | none => ∃ last, Steps maxDepth floor fuel machine last
  | some (.ok value, scene) => ∃ count last,
      Steps maxDepth floor count machine last ∧ last.scene = scene ∧ ends value last
  | some (.error cause, scene) => ∃ count last error,
      Steps maxDepth floor count machine last ∧ floor ≤ last.callers.length ∧
        last.step maxDepth = .fault error scene ∧ error.cause = cause

namespace Follows

variable {α β : Type} {limit floor fuel : Nat} {machine : Machine}
variable {next : Machine}
variable {ends others : α → Machine → Prop} {eval : Evaluation α}

theorem pure {value : α} (here : ends value machine) :
    Follows limit floor fuel machine (Pure.pure value) ends :=
  ⟨0, machine, .refl _, rfl, here⟩

theorem weaken {less lower : Nat} (follows : Follows limit floor fuel machine eval ends)
    (lessFuel : less ≤ fuel) (lowerFloor : lower ≤ floor)
    (implies : ∀ value last, ends value last → others value last) :
    Follows limit lower less machine eval others := by
  unfold Follows at follows ⊢
  split at follows
  · obtain ⟨last, steps⟩ := follows
    obtain ⟨more, rfl⟩ := Nat.exists_eq_add_of_le lessFuel
    obtain ⟨middle, early, -⟩ := steps.take
    exact ⟨middle, early.lower lowerFloor⟩
  · obtain ⟨count, last, steps, sameScene, there⟩ := follows
    exact ⟨count, last, steps.lower lowerFloor, sameScene, implies _ _ there⟩
  · obtain ⟨count, last, error, steps, deep, failed, sameCause⟩ := follows
    exact ⟨count, last, error, steps.lower lowerFloor, Nat.le_trans lowerFloor deep, failed,
      sameCause⟩

/-- Steps before an evaluation begins, at least `early` of them, buy as much fuel. -/
theorem after {count early : Nat} {begun : Machine} (steps : Steps limit floor count machine begun)
    (sameScene : begun.scene = machine.scene) (enough : early ≤ count)
    (follows : Follows limit floor fuel begun eval ends) :
    Follows limit floor (early + fuel) machine eval ends := by
  unfold Follows at follows ⊢
  rw [sameScene] at follows
  split at follows
  · obtain ⟨last, later⟩ := follows
    obtain ⟨more, rfl⟩ := Nat.exists_eq_add_of_le enough
    have all := steps.trans later
    rw [Nat.add_right_comm] at all
    obtain ⟨middle, first, -⟩ := all.take
    exact ⟨middle, first⟩
  · obtain ⟨more, last, later, rest⟩ := follows
    exact ⟨_, last, steps.trans later, rest⟩
  · obtain ⟨more, last, error, later, rest⟩ := follows
    exact ⟨_, last, error, steps.trans later, rest⟩

theorem step (deep : floor ≤ machine.callers.length) (stepped : machine.step limit = .next next)
    (sameScene : next.scene = machine.scene) (follows : Follows limit floor fuel next eval ends) :
    Follows limit floor fuel machine eval ends := by
  have longer := follows.after (.head deep stepped (.refl _)) sameScene (Nat.zero_le _)
  rwa [Nat.zero_add] at longer

theorem stepPaid (deep : floor ≤ machine.callers.length) (stepped : machine.step limit = .next next)
    (sameScene : next.scene = machine.scene) (follows : Follows limit floor fuel next eval ends) :
    Follows limit floor (fuel + 1) machine eval ends := by
  have longer := follows.after (.head deep stepped (.refl _)) sameScene (Nat.le_refl 1)
  rwa [Nat.add_comm] at longer

theorem bind {first : Evaluation α} {next : α → Evaluation β} {between : α → Machine → Prop}
    {ends : β → Machine → Prop} (follows : Follows limit floor fuel machine first between)
    (continues : ∀ value middle, between value middle →
      Follows limit floor fuel middle (next value) ends) :
    Follows limit floor fuel machine (first >>= next) ends := by
  unfold Follows at follows
  rw [Follows, Evaluation.run_bind]
  split at follows
  next exhausted => exact follows
  next value scene finished =>
    obtain ⟨count, middle, steps, rfl, there⟩ := follows
    have rest := continues value middle there
    unfold Follows at rest
    split at rest
    next exhausted =>
      -- the steps of the first part come on top of those that the fuel stands for
      obtain ⟨last, later⟩ := rest
      have all := steps.trans later
      rw [Nat.add_comm] at all
      obtain ⟨stop, early, -⟩ := all.take
      rw [exhausted]
      exact ⟨stop, early⟩
    next result final finishedToo =>
      obtain ⟨more, last, later, ending⟩ := rest
      rw [finishedToo]
      exact ⟨count + more, last, steps.trans later, ending⟩
    next cause final failed =>
      obtain ⟨more, last, error, later, ending⟩ := rest
      rw [failed]
      exact ⟨count + more, last, error, steps.trans later, ending⟩
  next cause scene failed => exact follows

theorem andThen (follows : Follows limit floor fuel machine eval ends)
    (continues : ∀ value last, ends value last →
      Follows limit floor fuel last (Pure.pure value) others) :
    Follows limit floor fuel machine eval others := by
  have longer := follows.bind continues
  rwa [bind_pure] at longer

theorem throw {cause : Cause} {error : Error} (deep : floor ≤ machine.callers.length)
    (failed : machine.step limit = .fault error machine.scene) (sameCause : error.cause = cause) :
    Follows limit floor fuel machine (MonadExcept.throw cause) ends :=
  ⟨0, machine, error, .refl _, deep, failed, sameCause⟩

theorem exhausted : Follows limit floor 0 machine Evaluation.exhausted ends :=
  ⟨machine, .refl _⟩

end Follows

end Machine

end StoneBoard
