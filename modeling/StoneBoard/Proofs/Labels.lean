import Mathlib.Tactic.SplitIfs
import StoneBoard.Proofs.Layout

/-!
# Labels

A fragment of code places each of the labels that it has taken exactly once, and it jumps to
these labels only, or to one that the code around it places.  A table of labels can be made for
code that places no label twice and jumps to none that it does not place.
-/

namespace StoneBoard

open List

def Instruction.label? : Instruction → Option Nat
  | label placed => some placed
  | _ => none

theorem Instruction.eq_label {instr : Instruction} {placed : Nat}
    (places : instr.label? = some placed) : instr = label placed := by
  cases instr with
  | label => exact congrArg label (Option.some.inj places)
  | _ => cases places

def placings (label : Nat) (lines : List Line) : Nat :=
  lines.countP fun line => line.1.label? == some label

@[simp, grind =]
theorem placings_nil (label : Nat) : placings label [] = 0 := rfl

@[simp, grind =]
theorem placings_cons (label : Nat) (line : Line) (rest : List Line) :
    placings label (line :: rest) =
      (if line.1.label? = some label then 1 else 0) + placings label rest := by
  simp [placings, countP_cons, Nat.add_comm]

@[simp, grind =]
theorem placings_append (label : Nat) (first second : List Line) :
    placings label (first ++ second) = placings label first + placings label second := by
  simp [placings]

theorem exists_of_placings {label : Nat} {lines : List Line} (placed : 0 < placings label lines) :
    ∃ (index : Nat) (span : Span), lines[index]? = some (.label label, span) := by
  obtain ⟨⟨instr, span⟩, mem, places⟩ := List.countP_pos_iff.mp placed
  obtain ⟨index, isLine⟩ := mem_iff_getElem?.mp mem
  have isLabel : instr = .label label := Instruction.eq_label (by simpa using places)
  exact ⟨index, span, isLabel ▸ isLine⟩

attribute [grind =] Instruction.label? Instruction.target?

def jumpTargets (lines : List Line) : List Nat := lines.filterMap fun line => line.1.target?

@[simp, grind =]
theorem jumpTargets_nil : jumpTargets [] = [] := rfl

@[simp, grind =]
theorem jumpTargets_cons (line : Line) (rest : List Line) :
    jumpTargets (line :: rest) = line.1.target?.toList ++ jumpTargets rest := by
  cases jumps : line.1.target? <;> simp [jumpTargets, jumps]

@[simp, grind =]
theorem jumpTargets_append (first second : List Line) :
    jumpTargets (first ++ second) = jumpTargets first ++ jumpTargets second := by
  simp [jumpTargets]

/-- Code that places the labels from `first` up to `last`, and jumps to these and to those
in `outside`. -/
structure Numbered (first last : Nat) (outside : List Nat) (code : List Line) : Prop where
  le : first ≤ last
  placed : ∀ label, placings label code = if first ≤ label ∧ label < last then 1 else 0
  targets : ∀ label ∈ jumpTargets code, (first ≤ label ∧ label < last) ∨ label ∈ outside

namespace Numbered

variable {first last : Nat} {outside : List Nat} {code : List Line}
variable {middle : Nat}

theorem nil (label : Nat) (outside : List Nat) : Numbered label label outside [] := by
  refine ⟨Nat.le_refl _, fun other => ?_, by simp⟩
  rw [placings_nil, if_neg (by omega)]

theorem append {early late : List Line} (earlyNumbered : Numbered first middle outside early)
    (lateNumbered : Numbered middle last outside late) :
    Numbered first last outside (early ++ late) := by
  have early_le := earlyNumbered.le
  have late_le := lateNumbered.le
  refine ⟨by omega, fun label => ?_, ?_⟩
  · rw [placings_append, earlyNumbered.placed, lateNumbered.placed]
    split_ifs <;> omega
  · intro label mem
    rw [jumpTargets_append, mem_append] at mem
    rcases mem with isEarly | isLate
    · rcases earlyNumbered.targets label isEarly with inside | isOutside
      · exact .inl (by omega)
      · exact .inr isOutside
    · rcases lateNumbered.targets label isLate with inside | isOutside
      · exact .inl (by omega)
      · exact .inr isOutside

theorem plain (label : Nat)
    (simple : code.all (fun line => line.1.label?.isNone && line.1.target?.isNone) = true) :
    Numbered label label outside code := by
  induction code with
  | nil => exact .nil label outside
  | cons line rest ih =>
    simp only [all_cons, Bool.and_eq_true, Option.isNone_iff_eq_none] at simple
    obtain ⟨⟨places, jumps⟩, restSimple⟩ := simple
    have restNumbered := ih restSimple
    refine ⟨Nat.le_refl _, fun other => ?_, ?_⟩
    · rw [placings_cons, restNumbered.placed, places]
      simp
    · rw [jumpTargets_cons, jumps]
      exact restNumbered.targets

theorem weaken {more : List Nat} (numbered : Numbered first last outside code)
    (subset : outside ⊆ more) : Numbered first last more code :=
  ⟨numbered.le, numbered.placed, fun label mem =>
    (numbered.targets label mem).imp_right fun isOutside => subset isOutside⟩

/-- Code around a fragment, which places the labels before those of the fragment. -/
theorem around {inside : List Nat} {inner : List Line}
    (innerNumbered : Numbered middle last inside inner) (le : first ≤ middle) (surrounds : ∀ label,
      placings label code =
        (if first ≤ label ∧ label < middle then 1 else 0) + placings label inner ∧
      (label ∈ jumpTargets code →
        label ∈ jumpTargets inner ∨ (first ≤ label ∧ label < middle) ∨ label ∈ outside))
    (known : ∀ label ∈ inside, (first ≤ label ∧ label < middle) ∨ label ∈ outside) :
    Numbered first last outside code := by
  have inner_le := innerNumbered.le
  refine ⟨by omega, fun label => ?_, ?_⟩
  · rw [(surrounds label).1, innerNumbered.placed]
    split_ifs <;> omega
  · intro label mem
    have widen : (first ≤ label ∧ label < middle) ∨ label ∈ outside →
        (first ≤ label ∧ label < last) ∨ label ∈ outside := by
      rintro (here | there)
      · exact .inl (by omega)
      · exact .inr there
    rcases (surrounds label).2 mem with isInner | isOwn
    · rcases innerNumbered.targets label isInner with here | there
      · exact .inl (by omega)
      · exact widen (known label there)
    · exact widen isOwn

end Numbered

/-! ## Label tables -/

namespace Routine

variable {lines : List Line}

/-- How often a label is placed by a table and by the lines that follow. -/
def occurrences (labels : LabelTable) (lines : List Line) (label : Nat) : Nat :=
  placings label lines + if (labels.lookup label).isSome then 1 else 0

theorem placeLabels_spec (name : String) (labels : LabelTable) (offset : Nat) (lines : List Line) :
    ((placeLabels name labels offset lines).2 = none ↔
      ∀ label, occurrences labels lines label ≤ 1) ∧
    ((placeLabels name labels offset lines).2 = none → ∀ label,
      ((placeLabels name labels offset lines).1.lookup label).isSome ↔
        0 < occurrences labels lines label) := by
  fun_induction placeLabels name labels offset lines with
  | case1 labels =>
    simp only [occurrences, placings_nil, Nat.zero_add]
    refine ⟨iff_of_true trivial fun label => by split <;> omega, fun _ label => ?_⟩
    split
    next known => exact iff_of_true known Nat.one_pos
    next unknown => exact iff_of_false unknown (Nat.lt_irrefl 0)
  | case2 labels offset label span rest extended known fault =>
    refine ⟨iff_of_false (by simp) fun once => ?_, by simp⟩
    have here := once label
    simp only [occurrences, placings_cons, Instruction.label?, known, if_true] at here
    omega
  | case3 labels offset label span rest extended unknown ih =>
    have same : occurrences extended rest = occurrences labels ((.label label, span) :: rest) := by
      funext other
      by_cases isLabel : other = label
      · simp [occurrences, extended, Instruction.label?, isLabel, unknown, Nat.add_comm]
      · have skipped : extended.lookup other = labels.lookup other := by
          rw [lookup_cons, show (other == label) = false by simpa using isLabel]
        rw [occurrences, skipped, occurrences, placings_cons]
        simp [Instruction.label?, Ne.symm isLabel]
    rwa [same] at ih
  | case4 labels offset line rest notLabel ih =>
    have same : occurrences labels rest = occurrences labels (line :: rest) := by
      funext other
      have places : line.1.label? ≠ some other :=
        fun places => notLabel other line.2 (Prod.ext (Instruction.eq_label places) rfl)
      simp [occurrences, places]
    rwa [same] at ih

theorem undefinedTarget?_eq_none_iff {name : String} {labels : LabelTable} :
    undefinedTarget? name labels lines = none ↔
      ∀ label ∈ jumpTargets lines, (labels.lookup label).isSome := by
  fun_induction undefinedTarget? name labels lines <;> simp_all

/-- No label is placed twice, and every jump leads to a label. -/
def Resolvable (lines : List Line) : Prop :=
  (∀ label, placings label lines ≤ 1) ∧ ∀ label ∈ jumpTargets lines, 0 < placings label lines

theorem resolveLabels_spec (routine : Routine) :
    (routine.resolveLabels.2 = none ↔ Resolvable routine.code.toList) ∧
    (routine.resolveLabels.2 = none → routine.resolveLabels.1.Placed ∧
      ∀ label, placings label routine.code.toList = 0 →
        routine.resolveLabels.1.target? label = none) := by
  obtain ⟨once, known⟩ := placeLabels_spec routine.name [] 0 routine.code.toList
  have fresh (label : Nat) : occurrences [] routine.code.toList label =
      placings label routine.code.toList := by simp [occurrences]
  simp only [fresh] at once known
  rcases placed : placeLabels routine.name [] 0 routine.code.toList with ⟨labels, _ | fault⟩
  · rw [placed] at once known
    have resolved : routine.resolveLabels =
        ({ routine with labels }, undefinedTarget? routine.name labels routine.code.toList) := by
      simp only [resolveLabels, placed]
    rw [resolved]
    refine ⟨?_, fun _ => ⟨fun offset label span found => ?_, fun label absent => ?_⟩⟩
    · rw [undefinedTarget?_eq_none_iff, Resolvable, and_iff_right (once.mp rfl)]
      simp only [known rfl]
    · have there := placeLabels_places placed (by simpa using found)
      rwa [Nat.zero_add] at there
    · rw [target?, ← Option.not_isSome_iff_eq_none, known rfl, absent]
      exact Nat.lt_irrefl 0
  · rw [placed] at once
    have fails : routine.resolveLabels.2 ≠ none := by simp [resolveLabels, placed]
    exact ⟨iff_of_false fails fun resolvable => by simpa using once.mpr resolvable.1,
      fun resolved => absurd resolved fails⟩

theorem assemble_of_resolvable (resolvable : Resolvable lines) (name : String) (kind : RoutineKind)
    (params : List String) : ∃ routine, assemble name kind params lines = .ok routine := by
  have resolved := (resolveLabels_spec ⟨name, kind, params, lines.toArray, []⟩).1.mpr resolvable
  rw [assemble]
  split
  next routine _ => exact ⟨routine, rfl⟩
  next failed => simp [failed] at resolved

theorem resolveLabels_again (routine : Routine) :
    routine.resolveLabels.1.resolveLabels = routine.resolveLabels := by
  rcases placed : placeLabels routine.name [] 0 routine.code.toList with ⟨labels, _ | fault⟩ <;>
    simp [resolveLabels, placed]

theorem resolveLabels_of_assemble {name : String} {kind : RoutineKind} {params : List String}
    {routine : Routine} (assembled : assemble name kind params lines = .ok routine) :
    routine.resolveLabels = (routine, none) := by
  rw [assemble] at assembled
  split at assembled
  next isResolved =>
    cases assembled
    have again := resolveLabels_again ⟨name, kind, params, lines.toArray, []⟩
    rwa [isResolved] at again
  next => cases assembled

end Routine

theorem Numbered.resolvable {first last : Nat} {lines : List Line}
    (numbered : Numbered first last [] lines) : Routine.Resolvable lines := by
  refine ⟨fun label => ?_, fun label isTarget => ?_⟩
  · rw [numbered.placed]
    split <;> omega
  · rw [numbered.placed, if_pos ((numbered.targets label isTarget).resolve_right not_mem_nil)]
    exact Nat.one_pos

end StoneBoard
