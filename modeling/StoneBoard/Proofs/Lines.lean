import StoneBoard.Proofs.Checked
import StoneBoard.Proofs.Instructions
import StoneBoard.Proofs.Labels

/-!
# Lines of code

Every line of compiled code stands for a place in the text of what has been compiled.  It gives a
value to a variable that the text may assign there, to a hidden variable of its own, or to none.
All labels that are taken for a piece of code are placed in it.
-/

namespace StoneBoard

open List

/-! ## Places -/

def LinesWithin (places : Span → Prop) (lines : List Line) : Prop := ∀ line ∈ lines, places line.2

section LinesWithin

variable {places : Span → Prop} {lines others : List Line}

@[simp]
theorem linesWithin_nil : LinesWithin places [] := fun _ mem => by cases mem

@[simp]
theorem linesWithin_cons {line : Line} :
    LinesWithin places (line :: lines) ↔ places line.2 ∧ LinesWithin places lines :=
  forall_mem_cons

@[simp]
theorem linesWithin_append :
    LinesWithin places (lines ++ others) ↔ LinesWithin places lines ∧ LinesWithin places others :=
  forall_mem_append

end LinesWithin

namespace Compilation

/-! ## Names -/

/-- A name of the program that is not fixed, or of a hidden variable from a number on. -/
def MayWrite (fixed : List String) (hidden : Nat) (name : String) : Prop :=
  (IsIdentifier name ∧ name ∉ fixed) ∨
    ∃ own : Counters, hidden ≤ own.hidden ∧ name = own.hiddenName

/-- Lines that do not begin or end a routine, and write to names that they may write to. -/
def Gentle (fixed : List String) (hidden : Nat) (code : List Line) : Prop :=
  ∀ line ∈ code, line.1.isPlain = true ∧
    ∀ name, line.1.written? = some name → MayWrite fixed hidden name

section Gentle

variable {fixed : List String} {hidden : Nat} {code : List Line}

@[simp]
theorem gentle_nil : Gentle fixed hidden [] := forall_mem_nil _

@[simp]
theorem gentle_cons {line : Line} : Gentle fixed hidden (line :: code) ↔ (line.1.isPlain = true ∧
      ∀ name, line.1.written? = some name → MayWrite fixed hidden name) ∧
        Gentle fixed hidden code :=
  forall_mem_cons

@[simp]
theorem gentle_append {first second : List Line} : Gentle fixed hidden (first ++ second) ↔
      Gentle fixed hidden first ∧ Gentle fixed hidden second :=
  forall_mem_append

theorem Gentle.mono {more : List String} {less : Nat} (gentle : Gentle more hidden code)
    (subset : fixed ⊆ more) (le : less ≤ hidden) : Gentle fixed less code := by
  intro line mem
  obtain ⟨noReturn, writes⟩ := gentle line mem
  refine ⟨noReturn, fun name written => ?_⟩
  rcases writes name written with ⟨isName, free⟩ | ⟨own, above, isHidden⟩
  · exact .inl ⟨isName, fun isFixed => free (subset isFixed)⟩
  · exact .inr ⟨own, Nat.le_trans le above, isHidden⟩

theorem Gentle.later {less : Nat} (gentle : Gentle fixed hidden code) (le : less ≤ hidden) :
    Gentle fixed less code :=
  gentle.mono (List.Subset.refl _) le

theorem mayWrite_of_free {name : String} (isName : IsIdentifier name) (free : name ∉ fixed) :
    MayWrite fixed hidden name := .inl ⟨isName, free⟩

theorem mayWrite_hiddenName (own : Counters) : MayWrite fixed own.hidden own.hiddenName :=
  .inr ⟨own, Nat.le_refl _, rfl⟩

end Gentle

/-! ## Expressions -/

def Quiet (code : List Line) : Prop :=
  ∀ line ∈ code, line.1.isPlain = true ∧ line.1.written? = none

@[simp]
theorem quiet_nil : Quiet [] := forall_mem_nil _

@[simp]
theorem quiet_cons {line : Line} {code : List Line} : Quiet (line :: code) ↔
      (line.1.isPlain = true ∧ line.1.written? = none) ∧ Quiet code :=
  forall_mem_cons

@[simp]
theorem quiet_append {first second : List Line} :
    Quiet (first ++ second) ↔ Quiet first ∧ Quiet second :=
  forall_mem_append

theorem Quiet.gentle {code : List Line} (quiet : Quiet code) (fixed : List String)
    (hidden : Nat) : Gentle fixed hidden code := by
  intro line mem
  obtain ⟨plain, writesNothing⟩ := quiet line mem
  refine ⟨plain, fun name written => ?_⟩
  cases writesNothing.symm.trans written

/-- The code of an expression: it stands for what has been read, and writes to no variable. -/
structure Computes (Reads : (Span → Prop) → Prop) (first : Nat) (code : List Line) (last : Nat) :
    Prop where
  within : ∀ places, Reads places → LinesWithin places code
  quiet : Quiet code
  numbered : Numbered first last [] code

mutual

theorem computes_expr (label : Nat) (expr : Expr) :
    Computes (expr.bare.AsRead ·) label (compileExpr label expr).1 (compileExpr label expr).2 := by
  match expr with
  | .literal _ _ =>
    exact ⟨fun _ read => linesWithin_cons.mpr ⟨read, linesWithin_nil⟩, by simp [compileExpr],
      .plain _ rfl⟩
  | .variableRef _ _ =>
    exact ⟨fun _ read => linesWithin_cons.mpr ⟨read.2, linesWithin_nil⟩, by simp [compileExpr],
      .plain _ rfl⟩
  | .call _ args _ _ =>
    have inner := computes_exprs label args
    simp only [compileExpr]
    refine ⟨fun places read => ?_, by simp [inner.quiet], inner.numbered.append (.plain _ rfl)⟩
    simp [inner.within places read.1, read.2.1]
  | .binary _ left right _ =>
    have first := computes_expr label left
    have second := computes_expr (compileExpr label left).2 right
    simp only [compileExpr]
    refine ⟨fun places read => ?_, by simp [first.quiet, second.quiet],
      (first.numbered.append second.numbered).append (.plain _ rfl)⟩
    simp [first.within places read.1, second.within places read.2.1, read.2.2]
  | .not operand _ =>
    have inner := computes_expr label operand
    simp only [compileExpr]
    refine ⟨fun places read => ?_, by simp [inner.quiet], inner.numbered.append (.plain _ rfl)⟩
    simp [inner.within places read.1, read.2]
  | .negate operand _ _ =>
    have inner := computes_expr label operand
    simp only [compileExpr]
    refine ⟨fun places read => ?_, by simp [inner.quiet], inner.numbered.append (.plain _ rfl)⟩
    simp [inner.within places read.1, read.2.1]
  | .logical .and left right _ | .logical .or left right _ =>
    have first := computes_expr (label + 2) left
    have second := computes_expr (compileExpr (label + 2) left).2 right
    have operands := first.numbered.append second.numbered
    simp only [compileExpr]
    refine ⟨fun places read => ?_, by simp [first.quiet, second.quiet],
      operands.around (by omega) (fun other => ?_) (by simp)⟩
    · simp [first.within places read.1, second.within places read.2.1, read.2.2]
    · simp [Instruction.label?, Instruction.target?]
      grind

theorem computes_exprs (label : Nat) (exprs : List Expr) :
    Computes (Expr.AsReadAll · (Expr.bareAll exprs)) label (compileExprs label exprs).1
      (compileExprs label exprs).2 := by
  match exprs with
  | [] => exact ⟨fun _ _ => linesWithin_nil, quiet_nil, .nil _ _⟩
  | first :: rest =>
    have early := computes_expr label first
    have late := computes_exprs (compileExpr label first).2 rest
    simp only [compileExprs]
    refine ⟨fun places read => ?_, by simp [early.quiet, late.quiet],
      early.numbered.append late.numbered⟩
    simp [early.within places read.1, late.within places read.2]

end

theorem computes_value (counters : Counters) (value : Expr) :
    Computes (value.bare.AsRead ·) counters.label (compileValue counters value).1
      (compileValue counters value).2.label :=
  computes_expr counters.label value

/-! ## Commands -/

/-- The code of commands: it stands for what has been read.  The code of commands that spare some
names does not write to them.  Its jumps lead to its own labels or to some `outside`. -/
structure Emits (Reads : (Span → Prop) → Prop) (Spares : List String → Prop) (outside : List Nat)
    (counters : Counters) (code : List Line) (after : Counters) : Prop where
  hidden : counters.hidden ≤ after.hidden
  numbered : Numbered counters.label after.label outside code
  within : ∀ places, Reads places → LinesWithin places code
  gentle : ∀ fixed, Spares fixed → Gentle fixed counters.hidden code

theorem Emits.nil {Reads : (Span → Prop) → Prop} {Spares : List String → Prop}
    {outside : List Nat} (counters : Counters) : Emits Reads Spares outside counters [] counters :=
  ⟨Nat.le_refl _, .nil _ _, fun _ _ => linesWithin_nil, fun _ _ => gentle_nil⟩

mutual

theorem emits_stmt {counters after : Counters} (stmt : Stmt) {code : List Line}
    (compiled : compileStmt counters stmt = .ok (code, after)) :
    Emits (stmt.bare.AsRead ·) (fun fixed => stmt.Named ∧ stmt.Spares fixed) [] counters code
      after := by
  match stmt with
  | .skip _ =>
    cases compiled
    exact .nil counters
  | .boom _ _ =>
    cases compiled
    exact ⟨Nat.le_refl _, .plain _ rfl,
      fun _ read => linesWithin_cons.mpr ⟨read, linesWithin_nil⟩, by simp⟩
  | .procedureCall _ args _ =>
    cases compiled
    have inner := computes_exprs counters.label args
    refine ⟨Nat.le_refl _, inner.numbered.append (.plain _ rfl), fun places read => ?_, fun fixed _ => ?_⟩
    · simp [inner.within places read.1, read.2]
    · simp [inner.quiet.gentle]
  | .assign _ value _ =>
    cases compiled
    have inner := computes_expr counters.label value
    refine ⟨Nat.le_refl _, inner.numbered.append (.plain _ rfl), fun places read => ?_,
      fun fixed tame => ?_⟩
    · simp [inner.within places read.2.1, read.2.2]
    · simp [inner.quiet.gentle, mayWrite_of_free tame.1.1 tame.2]
  | .tupleAssign names value span =>
    cases compiled
    have inner := computes_value counters value
    refine ⟨Nat.le_refl _, inner.numbered.append
      (.plain _ (by simp [Instruction.label?, Instruction.target?])), fun places read => ?_,
      fun fixed tame => ?_⟩
    · refine linesWithin_append.mpr ⟨inner.within places read.2.1, ?_⟩
      exact List.forall_mem_map.mpr fun _ _ => read.2.2
    · refine gentle_append.mpr ⟨inner.quiet.gentle _ _, List.forall_mem_map.mpr ?_⟩
      intro name mem
      have target := List.mem_reverse.mp mem
      simp [mayWrite_of_free (tame.1.1 name target) (tame.2 name target)]
  | .ifElse cond thenBranch none _ =>
    simp only [compileStmt, bind_eq_ok, pure_eq_ok, Prod.exists, Prod.mk.injEq] at compiled
    obtain ⟨thenCode, _, compiledThen, rfl, rfl⟩ := compiled
    have test := computes_value (counters.takeLabels 1) cond
    have branch := emits_block thenBranch compiledThen
    have parts := test.numbered.append branch.numbered
    refine ⟨branch.hidden, parts.around (Nat.le_succ _) ?_ (by simp), fun places read => ?_,
      fun fixed tame => ?_⟩
    · intro other
      simp [Instruction.label?, Instruction.target?, Counters.takeLabels]
      grind
    · simp [test.within places read.1, branch.within places read.2.1, read.2.2.2]
    · have gentle : Gentle fixed counters.hidden thenCode :=
        branch.gentle fixed ⟨tame.1.2.1, tame.2.1⟩
      simp [test.quiet.gentle, gentle]
  | .ifElse cond thenBranch (some elseBranch) span =>
    simp only [compileStmt, bind_eq_ok, pure_eq_ok, Prod.exists, Prod.mk.injEq] at compiled
    obtain ⟨thenCode, between, compiledThen, elseCode, last, compiledElse, rfl, rfl⟩ := compiled
    have test := computes_value (counters.takeLabels 1) cond
    have branch := emits_block thenBranch compiledThen
    have otherwise := emits_block elseBranch compiledElse
    have le : counters.hidden ≤ between.hidden := branch.hidden
    -- the label behind the else branch is taken between the two branches
    have elseNumbered : Numbered between.label last.label []
        ([(.jump between.label, span)] ++ elseCode ++ [(.label between.label, span)]) := by
      refine otherwise.numbered.around (Nat.le_succ _) ?_ (by simp)
      intro other
      simp [Instruction.label?, Instruction.target?, Counters.takeLabels]
      grind
    have parts := (test.numbered.append branch.numbered).append elseNumbered
    refine ⟨Nat.le_trans le otherwise.hidden, parts.around (Nat.le_succ _) ?_ (by simp),
      fun places read => ?_, fun fixed tame => ?_⟩
    · intro other
      simp [Instruction.label?, Instruction.target?, Counters.takeLabels]
      grind
    · simp [test.within places read.1, branch.within places read.2.1,
        otherwise.within places read.2.2.1, read.2.2.2]
    · have gentle : Gentle fixed counters.hidden thenCode :=
        branch.gentle fixed ⟨tame.1.2.1, tame.2.1⟩
      have other := (otherwise.gentle fixed ⟨tame.1.2.2, tame.2.2⟩).later le
      simp [test.quiet.gentle, gentle, other]
  | .whileLoop cond body _ =>
    simp only [compileStmt, bind_eq_ok, pure_eq_ok, Prod.exists, Prod.mk.injEq] at compiled
    obtain ⟨bodyCode, _, compiledBody, rfl, rfl⟩ := compiled
    have test := computes_value (counters.takeLabels 2) cond
    have inner := emits_block body compiledBody
    have parts := test.numbered.append inner.numbered
    refine ⟨inner.hidden, parts.around (Nat.le_add_right _ 2) ?_ (by simp), fun places read => ?_,
      fun fixed tame => ?_⟩
    · intro other
      simp [Instruction.label?, Instruction.target?, Counters.takeLabels]
      grind
    · simp [test.within places read.1, inner.within places read.2.1, read.2.2]
    · have gentle : Gentle fixed counters.hidden bodyCode := inner.gentle fixed ⟨tame.1.2, tame.2⟩
      simp [test.quiet.gentle, gentle]
  | .repeatWith index lower upper body _ _ =>
    simp only [compileStmt, bind_eq_ok, pure_eq_ok, Prod.exists, Prod.mk.injEq] at compiled
    obtain ⟨bodyCode, after, compiledBody, rfl, rfl⟩ := compiled
    have first (own : Counters) := computes_value own lower
    have last (own : Counters) := computes_value own upper
    have inner := emits_block body compiledBody
    have le : counters.hidden + 1 ≤ after.hidden := inner.hidden
    have parts := ((first _).numbered.append (last _).numbered).append inner.numbered
    refine ⟨Nat.le_of_succ_le le, parts.around (Nat.le_add_right _ 2) (fun other => ?_) (by simp),
      fun places read => ?_, fun fixed tame => ?_⟩
    · simp [Instruction.label?, Instruction.target?, Counters.takeLabels, Counters.takeHidden,
        loopTest, loopAdvance]
      clear first last inner parts
      grind
    · obtain ⟨-, lowerRead, upperRead, bodyRead, within, -⟩ := read
      simp [(first _).within places lowerRead, (last _).within places upperRead,
        inner.within places bodyRead, loopTest, loopAdvance, within]
    · obtain ⟨⟨isName, -, -, bodyNamed⟩, free, spares⟩ := tame
      have gentle : Gentle fixed counters.hidden bodyCode :=
        (inner.gentle (index :: fixed) ⟨bodyNamed, spares⟩).mono (subset_cons_self _ _)
          (Nat.le_succ _)
      simp [(first _).quiet.gentle, (last _).quiet.gentle, gentle, loopTest, loopAdvance,
        mayWrite_of_free isName free, mayWrite_hiddenName]
  | .caseOf scrutinee branches fallback _ =>
    simp only [compileStmt, bind_eq_ok, pure_eq_ok, Prod.exists, Prod.mk.injEq] at compiled
    obtain ⟨branchCode, between, compiledBranches, fallbackCode, _, compiledFallback, rfl, rfl⟩ :=
      compiled
    have subject := computes_value (counters.takeHidden.takeLabels 1) scrutinee
    have inner := emits_branches branches compiledBranches
    have last := emits_optional fallback compiledFallback
    have le : counters.hidden + 1 ≤ between.hidden := inner.hidden
    have parts := ((subject.numbered.weaken (nil_subset _)).append inner.numbered).append
      (last.numbered.weaken (nil_subset _))
    refine ⟨Nat.le_trans (Nat.le_of_succ_le le) last.hidden,
      parts.around (Nat.le_succ _) ?_ (by simp [Counters.takeLabels, Counters.takeHidden]),
      fun places read => ?_, fun fixed tame => ?_⟩
    · intro other
      simp [Instruction.label?, Instruction.target?, Counters.takeLabels, Counters.takeHidden]
      grind
    · simp [subject.within places read.1, inner.within places read.2.1,
        last.within places read.2.2.1, read.2.2.2]
    · have gentle : Gentle fixed counters.hidden branchCode :=
        (inner.gentle fixed ⟨tame.1.2.1, tame.2.1⟩).later (Nat.le_succ _)
      have other := (last.gentle fixed ⟨tame.1.2.2, tame.2.2⟩).later (Nat.le_of_succ_le le)
      simp [subject.quiet.gentle, gentle, other, mayWrite_hiddenName]
  | .block body _ =>
    have inner := emits_block body compiled
    exact ⟨inner.hidden, inner.numbered, fun places read => inner.within places read.1,
      inner.gentle⟩
  | .returns _ _ _ => cases compiled

theorem emits_block {counters after : Counters} (body : List Stmt) {code : List Line}
    (compiled : compileBlock counters body = .ok (code, after)) :
    Emits (Stmt.AsReadAll · (Stmt.bareAll body))
      (fun fixed => Stmt.NamedAll body ∧ Stmt.SparesAll fixed body) [] counters code after := by
  match body with
  | [] =>
    cases compiled
    exact .nil counters
  | first :: rest =>
    simp only [compileBlock, bind_eq_ok, pure_eq_ok, Prod.exists, Prod.mk.injEq] at compiled
    obtain ⟨firstCode, between, compiledFirst, restCode, _, compiledRest, rfl, rfl⟩ := compiled
    have early := emits_stmt first compiledFirst
    have late := emits_block rest compiledRest
    refine ⟨Nat.le_trans early.hidden late.hidden, early.numbered.append late.numbered,
      fun places read => ?_, fun fixed tame => ?_⟩
    · exact linesWithin_append.mpr ⟨early.within places read.1, late.within places read.2⟩
    · exact gentle_append.mpr ⟨early.gentle fixed ⟨tame.1.1, tame.2.1⟩,
        (late.gentle fixed ⟨tame.1.2, tame.2.2⟩).later early.hidden⟩

theorem emits_optional {counters after : Counters} (body : Option (List Stmt)) {code : List Line}
    (compiled : compileOptional counters body = .ok (code, after)) :
    Emits (Stmt.AsReadOptional · (Stmt.bareOptional body))
      (fun fixed => Stmt.NamedOptional body ∧ Stmt.SparesOptional fixed body) [] counters code
      after := by
  match body with
  | none =>
    cases compiled
    exact .nil counters
  | some body => exact emits_block body compiled

theorem emits_branches {subject : String} {done : Nat} {counters after : Counters}
    (branches : List Branch) {code : List Line}
    (compiled : compileBranches subject done counters branches = .ok (code, after)) :
    Emits (Stmt.AsReadBranches · (Stmt.bareBranches branches))
      (fun fixed => Stmt.NamedBranches branches ∧ Stmt.SparesBranches fixed branches) [done]
      counters code after := by
  match branches with
  | [] =>
    cases compiled
    exact .nil counters
  | .on _ body _ :: rest =>
    simp only [compileBranches, bind_eq_ok, pure_eq_ok, Prod.exists, Prod.mk.injEq] at compiled
    obtain ⟨bodyCode, between, compiledBody, restCode, _, compiledRest, rfl, rfl⟩ := compiled
    have inner := emits_block body compiledBody
    have late := emits_branches rest compiledRest
    have le : counters.hidden ≤ between.hidden := inner.hidden
    have parts := (inner.numbered.weaken (nil_subset [done])).append late.numbered
    refine ⟨Nat.le_trans le late.hidden, parts.around (Nat.le_succ _) ?_ (by simp),
      fun places read => ?_, fun fixed tame => ?_⟩
    · intro other
      simp [Instruction.label?, Instruction.target?, Counters.takeLabels]
      grind
    · simp [inner.within places read.1, late.within places read.2.2, read.2.1]
    · have gentle : Gentle fixed counters.hidden bodyCode := inner.gentle fixed ⟨tame.1.1, tame.2.1⟩
      have other := (late.gentle fixed ⟨tame.1.2, tame.2.2⟩).later le
      simp [gentle, other]

end

/-! ## Routines -/

/-- The code of the final return: some values are computed, and the call is ended. -/
theorem compileReturn_parts {counters after : Counters} {defn : Definition}
    {ending : List Line} (compiled : compileReturn counters defn = .ok (ending, after)) :
    ∃ code span returns, ending = code ++
        (if defn.kind = .function then [(.leave, span)] else []) ++ [(returns, span)] ∧
      returns.isReturn = true ∧ Quiet code ∧ Numbered counters.label after.label [] code ∧
      ∀ places, defn.bare.AsRead places → places span ∧ LinesWithin places code := by
  unfold compileReturn at compiled
  rcases defn.finalReturn?_cases with ⟨span, types, isReturn⟩ | ⟨noReturn, -⟩
  · have bareReturns : defn.bare.finalReturn? =
        some (.returns (Expr.bareAll defn.returned) span none) := by
      rw [Definition.finalReturn?_bare, isReturn]
      rfl
    have final {places : Span → Prop} (asRead : defn.bare.AsRead places) :=
      asRead.body.of_mem (Definition.mem_of_finalReturn? bareReturns)
    simp only [isReturn] at compiled
    split at compiled
    next isMain =>
      simp only [bind_eq_ok, pure_eq_ok, Prod.mk.injEq] at compiled
      obtain ⟨outputs, -, rfl, rfl⟩ := compiled
      refine ⟨outputs.map fun output => (.pushVariable output.1, span), span,
        .returnNamed defn.returned.length (outputs.map Prod.snd), ?_, rfl,
        List.forall_mem_map.mpr fun _ _ => ⟨rfl, rfl⟩,
        .plain _ (by simp [Instruction.label?, Instruction.target?]), fun places asRead =>
          ⟨(final asRead).2.1, List.forall_mem_map.mpr fun _ _ => (final asRead).2.1⟩⟩
      simp [Definition.kind_of_isMain isMain]
    next =>
      cases compiled
      have values := computes_exprs counters.label defn.returned
      exact ⟨_, span, .returnValues _, rfl, rfl, values.quiet, values.numbered, fun places asRead =>
        ⟨(final asRead).2.1, values.within places (final asRead).1⟩⟩
  · simp only [noReturn] at compiled
    split at compiled
    next isMain =>
      cases compiled
      exact ⟨[], defn.span, .returnNamed 0 [],
        by simp [Definition.kind_of_isMain isMain], rfl, quiet_nil, .nil _ _,
        fun _ asRead => ⟨asRead.within, linesWithin_nil⟩⟩
    next =>
      cases compiled
      exact ⟨[], defn.span, .returnValues 0, by simp, rfl, quiet_nil, .nil _ _,
        fun _ asRead => ⟨asRead.within, linesWithin_nil⟩⟩

end Compilation

end StoneBoard
