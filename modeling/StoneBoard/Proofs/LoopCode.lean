import Mathlib.Tactic.Set
import StoneBoard.Proofs.CommandCode
import StoneBoard.Proofs.Spared

/-!
# Loops in code

Every loop of a definition has its code in the routine that the definition is compiled to.  The
body of the loop is a stretch of this code that control enters at the front and leaves at the end,
and in which neither the index of the loop nor its hidden limit is written.
-/

namespace StoneBoard

variable {body : List Stmt} {span : Span} {counters after : Counters} {index : String}
variable {branches : List Branch} {literals : List Value} {outer : Stmt} {lower upper : Expr}
  {type : Option BasicTy}

/-! ## Loops in definitions -/

namespace Stmt

variable {shapes : String → Option Shape} {fixed : List String} {stmt : Stmt}

inductive Inside (stmt : Stmt) : Stmt → Prop
  | here : Inside stmt stmt
  | thenBranch {condition : Expr} {thenBranch : List Stmt} {elseBranch : Option (List Stmt)}
      {span : Span} {outer : Stmt} (member : outer ∈ thenBranch) (inside : Inside stmt outer) :
      Inside stmt (.ifElse condition thenBranch elseBranch span)
  | elseBranch {condition : Expr} {thenBranch elseBranch : List Stmt} {span : Span} {outer : Stmt}
      (member : outer ∈ elseBranch) (inside : Inside stmt outer) :
      Inside stmt (.ifElse condition thenBranch (some elseBranch) span)
  | whileLoop {condition : Expr} {body : List Stmt} {span : Span} {outer : Stmt}
      (member : outer ∈ body) (inside : Inside stmt outer) :
      Inside stmt (.whileLoop condition body span)
  | repeatWith {index : String} {lower upper : Expr} {body : List Stmt} {span : Span}
      {type : Option BasicTy} {outer : Stmt} (member : outer ∈ body)
      (inside : Inside stmt outer) :
      Inside stmt (.repeatWith index lower upper body span type)
  | branch {scrutinee : Expr} {branches : List Branch} {fallback : Option (List Stmt)}
      {span : Span} {literals : List Value} {body : List Stmt} {branchSpan : Span} {outer : Stmt}
      (chosen : .on literals body branchSpan ∈ branches) (member : outer ∈ body)
      (inside : Inside stmt outer) : Inside stmt (.caseOf scrutinee branches fallback span)
  | fallback {scrutinee : Expr} {branches : List Branch} {fallback : List Stmt} {span : Span}
      {outer : Stmt} (member : outer ∈ fallback) (inside : Inside stmt outer) :
      Inside stmt (.caseOf scrutinee branches (some fallback) span)
  | block {body : List Stmt} {span : Span} {outer : Stmt} (member : outer ∈ body)
      (inside : Inside stmt outer) : Inside stmt (.block body span)

/-- What is known of the commands of an accepted program. -/
structure Tame (shapes : String → Option Shape) (fixed : List String) (stmt : Stmt) : Prop where
  regular : stmt.Regular shapes
  named : stmt.Named
  spares : stmt.Spares fixed

theorem tame_of_mem (regular : RegularAll shapes body) (named : NamedAll body)
    (spares : SparesAll fixed body) (mem : stmt ∈ body) : stmt.Tame shapes fixed :=
  ⟨(regularAll_iff _ _).mp regular stmt mem, (namedAll_iff _).mp named stmt mem,
    (sparesAll_iff _ _).mp spares stmt mem⟩

theorem tame_of_branch (regular : RegularBranches shapes branches) (named : NamedBranches branches)
    (spares : SparesBranches fixed branches) (chosen : .on literals body span ∈ branches)
    (mem : stmt ∈ body) : stmt.Tame shapes fixed := by
  induction branches with
  | nil => cases chosen
  | cons first rest ih =>
    obtain ⟨firstLiterals, firstBody, firstSpan⟩ := first
    rcases List.mem_cons.mp chosen with same | later
    · cases same
      exact tame_of_mem regular.1 named.1 spares.1 mem
    · exact ih regular.2 named.2 spares.2 later

theorem Inside.tame (inside : stmt.Inside outer) (tame : outer.Tame shapes fixed) :
    ∃ more, stmt.Tame shapes more := by
  induction inside generalizing fixed with
  | here => exact ⟨fixed, tame⟩
  | thenBranch mem _ ih =>
    exact ih (tame_of_mem tame.regular.2.1 tame.named.2.1 tame.spares.1 mem)
  | whileLoop mem _ ih => exact ih (tame_of_mem tame.regular.2 tame.named.2 tame.spares mem)
  | repeatWith mem _ ih =>
    exact ih (tame_of_mem tame.regular.2.2 tame.named.2.2.2 tame.spares.2 mem)
  | branch chosen mem _ ih =>
    exact ih (tame_of_branch tame.regular.2.1 tame.named.2.1 tame.spares.1 chosen mem)
  | elseBranch mem _ ih | fallback mem _ ih =>
    exact ih (tame_of_mem tame.regular.2.2 tame.named.2.2 tame.spares.2 mem)
  | block mem _ ih => exact ih (tame_of_mem tame.regular tame.named tame.spares mem)

end Stmt

/-! ## Loops in code -/

namespace Compilation

/-- The code of a loop up to its body, and the numbers that are left for the body. -/
def loopHead (counters : Counters) (index : String) (lower upper : Expr) (span : Span) :
    List Line × Counters :=
  let (lowerCode, inner) := compileValue (counters.takeHidden.takeLabels 2) lower
  let (upperCode, inner) := compileValue inner upper
  (lowerCode ++ [(.assign index, span)] ++ upperCode ++ [(.assign counters.hiddenName, span)] ++
    loopTest index counters.hiddenName Operation.lessEqual.name (counters.label + 1) span ++
    [(.label counters.label, span)], inner)

def loopTail (counters : Counters) (index : String) (span : Span) (type : Option BasicTy) :
    List Line :=
  loopTest index counters.hiddenName Operation.notEqual.name (counters.label + 1) span ++
    loopAdvance index type span ++
    [(.jump counters.label, span), (.label (counters.label + 1), span),
      (.deleteVariable index, span)]

theorem compileStmt_repeatWith {code : List Line}
    (compiled : compileStmt counters (.repeatWith index lower upper body span type) =
      .ok (code, after)) : ∃ bodyCode,
      compileBlock (loopHead counters index lower upper span).2 body = .ok (bodyCode, after) ∧
      code = (loopHead counters index lower upper span).1 ++ bodyCode ++
        loopTail counters index span type := by
  simp only [compileStmt, bind_eq_ok, pure_eq_ok, Prod.mk.injEq, Prod.exists] at compiled
  obtain ⟨bodyCode, _, compiledBody, rfl, rfl⟩ := compiled
  exact ⟨bodyCode, compiledBody, by simp [loopHead, loopTail]⟩

theorem hidden_loopHead (counters : Counters) (index : String) (lower upper : Expr) (span : Span) :
    (loopHead counters index lower upper span).2.hidden = counters.hidden + 1 := rfl

end Compilation

open Compilation

namespace Routine

variable {routine : Routine} {offset : Nat} {code : List Line} {stmt : Stmt}
variable {start : Nat}

/-- The body of a loop stands in a routine from `start` up to `stop`, with the code of the loop
around it. -/
inductive HasLoop (routine : Routine) :
    Stmt → (index limit : String) → (start stop : Nat) → Prop
  | intro {index : String} {lower upper : Expr} {body : List Stmt} {span : Span}
      {type : Option BasicTy} {counters after : Counters} {bodyCode : List Line} {offset : Nat}
      (compiled :
        compileBlock (loopHead counters index lower upper span).2 body = .ok (bodyCode, after))
      (stands : routine.HasCode offset ((loopHead counters index lower upper span).1 ++ bodyCode ++
        loopTail counters index span type)) :
      HasLoop routine (.repeatWith index lower upper body span type) index counters.hiddenName
        (offset + (loopHead counters index lower upper span).1.length)
        (offset + (loopHead counters index lower upper span).1.length + bodyCode.length)

def HasStmt (routine : Routine) (stmt : Stmt) : Prop :=
  ∃ offset counters code after, compileStmt counters stmt = .ok (code, after) ∧
    routine.HasCode offset code

theorem hasStmt_of_block (compiled : compileBlock counters body = .ok (code, after))
    (stands : routine.HasCode offset code) (mem : stmt ∈ body) : routine.HasStmt stmt := by
  induction body generalizing offset counters code with
  | nil => cases mem
  | cons first rest ih =>
    simp only [compileBlock, bind_eq_ok, pure_eq_ok, Prod.mk.injEq, Prod.exists] at compiled
    obtain ⟨firstCode, between, compiledFirst, restCode, _, compiledRest, rfl, rfl⟩ := compiled
    obtain ⟨firstStands, restStands⟩ := hasCode_append.mp stands
    rcases List.mem_cons.mp mem with rfl | later
    · exact ⟨offset, counters, firstCode, between, compiledFirst, firstStands⟩
    · exact ih compiledRest restStands later

theorem hasStmt_of_branch {done : Nat} {subject : String}
    (compiled : compileBranches subject done counters branches = .ok (code, after))
    (stands : routine.HasCode offset code) (chosen : .on literals body span ∈ branches)
    (mem : stmt ∈ body) : routine.HasStmt stmt := by
  induction branches generalizing offset counters code with
  | nil => cases chosen
  | cons first rest ih =>
    obtain ⟨firstLiterals, firstBody, firstSpan⟩ := first
    simp only [compileBranches, bind_eq_ok, pure_eq_ok, Prod.mk.injEq, Prod.exists] at compiled
    obtain ⟨bodyCode, between, compiledBody, restCode, _, compiledRest, rfl, rfl⟩ := compiled
    simp only [hasCode_append] at stands
    obtain ⟨⟨⟨-, bodyStands⟩, -⟩, restStands⟩ := stands
    rcases List.mem_cons.mp chosen with same | later
    · cases same
      exact hasStmt_of_block compiledBody bodyStands mem
    · exact ih compiledRest restStands later

/-- Whatever occurs in a command whose code stands in a routine has its own code there. -/
theorem HasStmt.inside (stands : routine.HasStmt outer) (inside : stmt.Inside outer) :
    routine.HasStmt stmt := by
  induction inside with
  | here => exact stands
  | @thenBranch _ _ elseBranch _ _ mem _ ih =>
    apply ih
    obtain ⟨offset, counters, code, after, compiled, stands⟩ := stands
    cases elseBranch with
    | none =>
      simp only [compileStmt, bind_eq_ok, pure_eq_ok, Prod.mk.injEq, Prod.exists] at compiled
      obtain ⟨thenCode, _, compiledThen, rfl, rfl⟩ := compiled
      simp only [hasCode_append] at stands
      exact hasStmt_of_block compiledThen stands.1.2 mem
    | some elseBranch =>
      simp only [compileStmt, bind_eq_ok, pure_eq_ok, Prod.mk.injEq, Prod.exists] at compiled
      obtain ⟨thenCode, between, compiledThen, elseCode, _, compiledElse, rfl, rfl⟩ := compiled
      simp only [hasCode_append] at stands
      exact hasStmt_of_block compiledThen stands.1.1.1.2 mem
  | elseBranch mem _ ih =>
    apply ih
    obtain ⟨offset, counters, code, after, compiled, stands⟩ := stands
    simp only [compileStmt, bind_eq_ok, pure_eq_ok, Prod.mk.injEq, Prod.exists] at compiled
    obtain ⟨thenCode, between, compiledThen, elseCode, _, compiledElse, rfl, rfl⟩ := compiled
    simp only [hasCode_append] at stands
    exact hasStmt_of_block compiledElse stands.1.2 mem
  | whileLoop mem _ ih =>
    apply ih
    obtain ⟨offset, counters, code, after, compiled, stands⟩ := stands
    simp only [compileStmt, bind_eq_ok, pure_eq_ok, Prod.mk.injEq, Prod.exists] at compiled
    obtain ⟨bodyCode, _, compiledBody, rfl, rfl⟩ := compiled
    simp only [hasCode_append] at stands
    exact hasStmt_of_block compiledBody stands.1.2 mem
  | repeatWith mem _ ih =>
    apply ih
    obtain ⟨offset, counters, code, after, compiled, stands⟩ := stands
    obtain ⟨bodyCode, compiledBody, rfl⟩ := compileStmt_repeatWith compiled
    simp only [hasCode_append] at stands
    exact hasStmt_of_block compiledBody stands.1.2 mem
  | branch chosen mem _ ih =>
    apply ih
    obtain ⟨offset, counters, code, after, compiled, stands⟩ := stands
    simp only [compileStmt, bind_eq_ok, pure_eq_ok, Prod.mk.injEq, Prod.exists] at compiled
    obtain ⟨branchCode, between, compiledBranches, fallbackCode, _, compiledFallback, rfl, rfl⟩ :=
      compiled
    simp only [hasCode_append] at stands
    exact hasStmt_of_branch compiledBranches stands.1.1.2 chosen mem
  | fallback mem _ ih =>
    apply ih
    obtain ⟨offset, counters, code, after, compiled, stands⟩ := stands
    simp only [compileStmt, bind_eq_ok, pure_eq_ok, Prod.mk.injEq, Prod.exists] at compiled
    obtain ⟨branchCode, between, compiledBranches, fallbackCode, _, compiledFallback, rfl, rfl⟩ :=
      compiled
    simp only [hasCode_append] at stands
    exact hasStmt_of_block compiledFallback stands.1.2 mem
  | block mem _ ih =>
    apply ih
    obtain ⟨offset, counters, code, after, compiled, stands⟩ := stands
    rw [compileStmt] at compiled
    exact hasStmt_of_block compiled stands mem

theorem HasStmt.hasLoop (stands : routine.HasStmt (.repeatWith index lower upper body span type)) :
    ∃ limit start stop,
      routine.HasLoop (.repeatWith index lower upper body span type) index limit start stop := by
  obtain ⟨offset, counters, code, after, compiled, stands⟩ := stands
  obtain ⟨bodyCode, compiledBody, rfl⟩ := compileStmt_repeatWith compiled
  exact ⟨_, _, _, .intro compiledBody stands⟩

/-- A stretch of code that control leaves at its end only and never comes back to the front of,
and that does not write to some names. -/
structure Encloses (routine : Routine) (names : List String) (start stop : Nat) : Prop where
  lines : ∀ offset, start ≤ offset → offset < stop → ∀ instruction span,
    routine.code[offset]? = some (instruction, span) →
      instruction.isPlain = true ∧ (∀ name ∈ names, instruction.written? ≠ some name) ∧
      ∀ label target, instruction.target? = some label → routine.target? label = some target →
        start < target ∧ target ≤ stop

theorem target?_of_placings (placed : routine.Placed) {label : Nat}
    (stands : routine.HasCode offset code) (once : placings label code = 1) :
    ∃ target, routine.target? label = some target ∧ offset < target ∧
      target ≤ offset + code.length := by
  obtain ⟨index, span, found⟩ := exists_of_placings (Nat.lt_of_lt_of_eq Nat.one_pos once.symm)
  obtain ⟨inCode, -⟩ := List.getElem?_eq_some_iff.mp found
  refine ⟨offset + index + 1, placed _ _ _ (stands index _ found), ?_, ?_⟩ <;> omega

theorem encloses_of_numbered (placed : routine.Placed) {first last : Nat}
    (stands : routine.HasCode start code) (numbered : Numbered first last [] code)
    {names : List String} (lines : ∀ line ∈ code, line.1.isPlain = true ∧
      ∀ name ∈ names, line.1.written? ≠ some name) :
    routine.Encloses names start (start + code.length) := by
  refine ⟨fun offset fromStart toStop instr lineSpan found => ?_⟩
  obtain ⟨place, rfl⟩ := Nat.exists_eq_add_of_le fromStart
  have inCode : place < code.length := by omega
  have isLine : code[place] = (instr, lineSpan) := by
    have there := stands place _ (List.getElem?_eq_getElem inCode)
    rw [found] at there
    exact (Option.some.inj there).symm
  have mem : (instr, lineSpan) ∈ code := isLine ▸ List.getElem_mem inCode
  obtain ⟨noReturn, unwritten⟩ := lines _ mem
  refine ⟨noReturn, unwritten, fun label target jumps leads => ?_⟩
  have isTarget : label ∈ jumpTargets code := List.mem_filterMap.mpr ⟨_, mem, jumps⟩
  have once : placings label code = 1 := by
    rcases numbered.targets label isTarget with inside | outside
    · rw [numbered.placed, if_pos inside]
    · cases outside
  obtain ⟨_, leadsTo, above, below⟩ := target?_of_placings placed stands once
  rw [leads] at leadsTo
  cases leadsTo
  exact ⟨above, below⟩

theorem HasLoop.encloses (placed : routine.Placed) {shapes : String → Option Shape}
    {fixed : List String} {loop : Stmt} {limit : String} {stop : Nat}
    (hasLoop : routine.HasLoop loop index limit start stop) (tame : loop.Tame shapes fixed) :
    routine.Encloses [index, limit] start stop := by
  obtain @⟨index, lower, upper, body, span, _, counters, after, bodyCode, _, compiled, stands⟩ :=
    hasLoop
  have hidden := hidden_loopHead counters index lower upper span
  set first := (loopHead counters index lower upper span).2
  obtain ⟨isName, -, -, bodyNamed⟩ := tame.named
  have emits := emits_block body compiled
  have gentle := emits.gentle _ ⟨bodyNamed, tame.spares.2⟩
  simp only [hasCode_append] at stands
  obtain ⟨⟨-, bodyStands⟩, -⟩ := stands
  refine encloses_of_numbered placed bodyStands emits.numbered fun line mem => ?_
  obtain ⟨noReturn, writes⟩ := gentle line mem
  refine ⟨noReturn, fun name isKept written => ?_⟩
  rcases writes name written with ⟨isIdentifier, free⟩ | ⟨own, above, isHidden⟩
  · rcases List.mem_pair.mp isKept with rfl | rfl
    · exact free List.mem_cons_self
    · exact counters.hiddenName_ne isIdentifier rfl
  · rcases List.mem_pair.mp isKept with rfl | rfl
    · exact own.hiddenName_ne isName isHidden.symm
    · have sameNumber := Counters.hidden_eq_of_hiddenName_eq isHidden
      omega

end Routine

end StoneBoard
