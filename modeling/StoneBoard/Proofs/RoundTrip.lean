import StoneBoard.Proofs.Recognition
import StoneBoard.Proofs.Writing

/-!
# Reading undoes writing

What is written for a program is read as this program.  An expression is derived by the
grammar, so it is read; a command is read up to the semicolon after it.
-/

namespace StoneBoard

namespace Parser

open Grammar List

/-! ## Expressions and lists -/

section Reading

variable {tokens rest : List Token}
variable {names : List String} {values : List Value}
variable {definition : Definition}

theorem read_expression {expr : Expr} (writable : expr.Writable)
    (takes : Takes expr.written tokens rest) (unbound : binding? (nextKind rest) = none) :
    ∃ read, Expr.unplaced read = expr.unplaced ∧ Gives (disjunction tokens) read rest :=
  (recognized_of_derived (expr.written_derived writable).anywhere).gives takes
    (stops_of_binding?_eq_none unbound)

theorem read_arguments {exprs : List Expr} (writable : Expr.WritableAll exprs)
    (takes : Takes (separated (Expr.writtenEach exprs) ++ [.mark .rightParen]) tokens rest) :
    ∃ read closing, Expr.unplacedAll read = Expr.unplacedAll exprs ∧
      Gives (arguments tokens) (read, closing) rest := by
  have given := Expr.arguments_of_listed (Expr.writtenEach_listed exprs writable)
  exact (recognizedMaybe_of_given given).arguments takes

/-- A reader of items with commas between them reads what is written for a list, if the
reader of items reads what is written for each of them. -/
theorem read_separated {α : Type} {item : α → List TokenKind} {view : α → α}
    {readItem : List Token → α → List Token → Prop}
    (readAll : List Token → List α → List Token → Prop) (values : List α) (some : values ≠ [])
    (each : ∀ value ∈ values, ∀ tokens rest, Takes (item value) tokens rest →
      ∃ read, view read = view value ∧ readItem tokens read rest)
    (one : ∀ tokens first rest, readItem tokens first rest → nextKind rest ≠ .mark .comma →
      readAll tokens [first] rest) (more : ∀ tokens first span lexeme later others rest,
      readItem tokens first (⟨.mark .comma, span, lexeme⟩ :: later) → readAll later others rest →
      readAll tokens (first :: others) rest)
    (takes : Takes (separated (values.map item)) tokens rest)
    (notComma : nextKind rest ≠ .mark .comma) :
    ∃ read, read.map view = values.map view ∧ readAll tokens read rest := by
  induction values generalizing tokens with
  | nil => exact absurd rfl some
  | cons first others ih =>
    cases others with
    | nil =>
      obtain ⟨read, same, gives⟩ := each first (by simp) tokens rest takes
      exact ⟨[read], by simp [same], one _ _ _ gives notComma⟩
    | cons second later =>
      obtain ⟨span, lexeme, after, takesFirst, takesOthers⟩ := takes_follow.mp takes
      obtain ⟨read, same, gives⟩ := each first (by simp) tokens _ takesFirst
      obtain ⟨reads, sameOthers, givesOthers⟩ :=
        ih (by simp) (fun value isOther => each value (.tail _ isOther)) takesOthers
      refine ⟨read :: reads, ?_, more _ _ _ _ _ _ _ gives givesOthers⟩
      rw [map_cons, sameOthers, same, ← map_cons]

theorem read_variableNames (what : String) (some : names ≠ [])
    (takes : Takes (separated (names.map fun name => [.lower name])) tokens rest)
    (notComma : nextKind rest ≠ .mark .comma) : Gives (variableNames what tokens) names rest := by
  have each : ∀ name ∈ names, ∀ tokens rest, Takes [.lower name] tokens rest →
      ∃ read, id read = id name ∧ Gives (expectLower what tokens) read rest := by
    intro name _ tokens rest takes
    obtain ⟨span, lexeme, rfl⟩ := takes_single.mp takes
    exact ⟨name, rfl, gives_expectLower⟩
  obtain ⟨read, same, gives⟩ := read_separated (fun tokens => Gives (variableNames what tokens))
    names some each (fun tokens first rest given notComma => by
      rw [variableNames]
      refine given.bind ?_
      dsimp only
      split
      · exact absurd rfl notComma
      · exact .ok)
    (fun tokens first _ _ _ _ _ given others => by
      rw [variableNames]
      exact given.bind (others.bind .ok)) takes notComma
  rw [map_id, map_id] at same
  exact same ▸ gives

theorem gives_literal {value : Value} (literal : value.IsLiteral)
    (takes : Takes value.written tokens rest) : Gives (Parser.literal tokens) value rest := by
  cases value with
  | int number =>
    rw [Value.written] at takes
    split at takes
    next negative =>
      obtain ⟨_, _, _, rfl, takesNumber⟩ := takes_cons.mp takes
      obtain ⟨_, _, rfl⟩ := takes_single.mp takesNumber
      have isNumber : number = -((-number).toNat : Int) := by omega
      rw [Parser.literal, ← isNumber]
      exact .ok
    next notNegative =>
      obtain ⟨_, _, rfl⟩ := takes_single.mp takes
      rw [Parser.literal, Int.toNat_of_nonneg (by omega)]
      exact .ok
  | list _ => exact literal.elim
  | _ =>
    obtain ⟨_, _, rfl⟩ := takes_single.mp takes
    rw [Parser.literal, Value.constant?_render literal (by simp)]
    exact .ok

theorem read_literals (some : values ≠ []) (literals : ∀ value ∈ values, value.IsLiteral)
    (takes : Takes (separated (values.map Value.written)) tokens rest)
    (notComma : nextKind rest ≠ .mark .comma) : Gives (Parser.literals tokens) values rest := by
  have each : ∀ value ∈ values, ∀ tokens rest, Takes value.written tokens rest →
      ∃ read, id read = id value ∧ Gives (literal tokens) read rest :=
    fun value isOne tokens rest takes => ⟨value, rfl, gives_literal (literals value isOne) takes⟩
  obtain ⟨read, same, gives⟩ := read_separated (fun tokens => Gives (Parser.literals tokens)) values
    some each (fun tokens first rest given notComma => by
      rw [Parser.literals]
      refine given.bind ?_
      dsimp only
      split
      · exact absurd rfl notComma
      · exact .ok)
    (fun tokens first _ _ _ _ _ given others => by
      rw [Parser.literals]
      exact given.bind (others.bind .ok)) takes notComma
  rw [map_id, map_id] at same
  exact same ▸ gives

theorem read_routineNames {names : List (String × Span)} (some : names ≠ [])
    (takes : Takes (separated (names.map fun entry => [Import.nameToken entry.1])) tokens rest)
    (notComma : nextKind rest ≠ .mark .comma) : ∃ read : List (String × Span),
      read.map (fun entry => (entry.1, Span.nowhere)) =
        names.map (fun entry => (entry.1, Span.nowhere)) ∧
      Gives (routineNames tokens) read rest := by
  have isName (name : String) :
      Import.nameToken name = .upper name ∨ Import.nameToken name = .lower name := by
    unfold Import.nameToken
    split
    · exact .inl rfl
    · exact .inr rfl
  have each : ∀ entry ∈ names, ∀ tokens rest, Takes [Import.nameToken entry.1] tokens rest →
      ∃ read : String × Span, (read.1, Span.nowhere) = (entry.1, Span.nowhere) ∧
        ∃ lexeme, tokens = ⟨Import.nameToken read.1, read.2, lexeme⟩ :: rest := by
    intro entry _ tokens rest takes
    obtain ⟨span, lexeme, rfl⟩ := takes_single.mp takes
    exact ⟨(entry.1, span), rfl, lexeme, rfl⟩
  refine read_separated (fun tokens => Gives (routineNames tokens)) names some each ?_ ?_ takes
    notComma
  · rintro _ first rest ⟨lexeme, rfl⟩ notComma
    rcases isName first.1 with same | same
    all_goals
      rw [same, routineNames]
      refine Gives.bind .ok ?_
      dsimp only
      split
      · exact absurd rfl notComma
      · exact .ok
  · rintro _ first _ _ later others rest ⟨lexeme, rfl⟩ givesOthers
    rcases isName first.1 with same | same
    all_goals
      rw [same, routineNames]
      exact Gives.bind .ok (Gives.bind givesOthers .ok)

/-! ## Commands -/

theorem nextKind_of_statement {command : Stmt} (gives : Gives (statement tokens) command rest) :
    nextKind tokens ∉ [.mark .rightBrace, .endOfInput, .mark .semicolon] := by
  rw [statement.eq_def] at gives
  split at gives
  on_goal 6 =>
    unfold simpleStatement at gives
    split at gives
    on_goal 7 =>
      obtain ⟨_, failed⟩ := gives
      cases failed
  all_goals simp [nextKind]

theorem nextKind_of_statements {body : List Stmt} (gives : Gives (statements tokens) body rest) :
    nextKind tokens ≠ .mark .semicolon := by
  by_cases ends : nextKind tokens = .mark .rightBrace ∨ nextKind tokens = .endOfInput
  · rcases ends with isBrace | isEnd
    · simp [isBrace]
    · simp [isEnd]
  · obtain ⟨_, same⟩ := gives
    rw [statements, if_neg ends] at same
    obtain ⟨parsed, isFirst, -⟩ := bind_eq_ok.mp same
    exact fun isSemicolon =>
      nextKind_of_statement ⟨parsed.shorter, isFirst⟩ (by simp [isSemicolon])

theorem skipSemicolons_cons {span : Span} {lexeme : String} :
    skipSemicolons (⟨.mark .semicolon, span, lexeme⟩ :: tokens) = skipSemicolons tokens := by
  simp [skipSemicolons, isSemicolon]

theorem skipSemicolons_of_ne (isOther : nextKind tokens ≠ .mark .semicolon) :
    skipSemicolons tokens = tokens := by
  cases tokens with
  | nil => rfl
  | cons token later =>
    have : token.kind ≠ .mark .semicolon := isOther
    simp [skipSemicolons, isSemicolon, this]

theorem statement_eq_simpleStatement
    (simple : nextKind tokens ∉ [.keyword .ifWord, .keyword .whileWord, .keyword .repeatWith,
      .keyword .case, .mark .leftBrace]) : statement tokens = simpleStatement tokens := by
  rw [statement.eq_def]
  split
  all_goals simp_all [nextKind]

section Command

attribute [local simp] Stmt.unplaced Stmt.unplacedAll Stmt.unplacedOptional
  Stmt.unplacedBranches

variable (chained : Bool)
variable {cond : Expr} {fallback : Option (List Stmt)}
variable {value : Expr} {other : Option (List Stmt)} {branches : List Branch}

/-- A command is read from what is written for it, if a semicolon follows. -/
def ReadBack (command : Stmt) : Prop :=
  ∀ tokens rest, Takes (command.written chained) tokens rest → nextKind rest = .mark .semicolon →
    ∃ read, Stmt.unplaced read = command.unplaced ∧ Gives (statement tokens) read rest

def ReadBackAll (body : List Stmt) : Prop :=
  ∀ tokens rest, Takes (Stmt.writtenAll chained body) tokens rest →
    nextKind rest = .mark .rightBrace →
    ∃ read, Stmt.unplacedAll read = Stmt.unplacedAll body ∧ Gives (statements tokens) read rest

def ReadBackElse (body : Option (List Stmt)) : Prop :=
  ∀ tokens rest, Takes (Stmt.writtenElse chained body) tokens rest →
    nextKind rest = .mark .semicolon →
    ∃ read, Stmt.unplacedOptional read = Stmt.unplacedOptional body ∧
      Gives (conditionalElse tokens) read rest

/-- Branches of a case are read from what is written for them, if no value follows. -/
def ReadBackBranches (branches : List Branch) : Prop :=
  ∀ tokens rest, Takes (Stmt.writtenBranches chained branches) tokens rest →
    startsLiteral rest = false →
    ∃ read, Stmt.unplacedBranches read = Stmt.unplacedBranches branches ∧
      Gives (Parser.branches tokens) read rest

variable {chained} {span : Span} {body : List Stmt}

theorem ReadBackAll.block (all : ReadBackAll chained body)
    (takes : Takes (braced (Stmt.writtenAll chained body)) tokens rest) :
    ∃ read closing, Stmt.unplacedAll read = Stmt.unplacedAll body ∧
      Gives (block tokens) (read, closing) rest := by
  obtain ⟨opening, lexeme, inside, rfl, takesInside⟩ := takes_cons.mp takes
  obtain ⟨closing, last, later, takesBody, takesNone⟩ := takes_follow.mp takesInside
  obtain rfl := takes_nil.mp takesNone
  obtain ⟨read, same, gives⟩ := all inside _ takesBody rfl
  refine ⟨read, closing, same, ?_⟩
  rw [Parser.block]
  exact gives_expect.bind (gives.bind (gives_expect.bind .ok))

theorem readBackAll_nil : ReadBackAll chained [] := by
  intro tokens rest takes closes
  obtain rfl := takes_nil.mp takes
  refine ⟨[], rfl, ?_⟩
  rw [statements, if_pos (.inl closes)]
  exact .ok

theorem ReadBack.cons {first : Stmt} (readBack : ReadBack chained first)
    (all : ReadBackAll chained body) : ReadBackAll chained (first :: body) := by
  intro tokens rest takes closes
  obtain ⟨place, lexeme, later, takesFirst, takesOthers⟩ := takes_follow.mp takes
  obtain ⟨read, same, gives⟩ := readBack tokens _ takesFirst rfl
  obtain ⟨reads, sameOthers, givesOthers⟩ := all later rest takesOthers closes
  have goesOn : ¬ (nextKind tokens = .mark .rightBrace ∨ nextKind tokens = .endOfInput) := by
    rintro (isBrace | isEnd)
    · exact nextKind_of_statement gives (by simp [isBrace])
    · exact nextKind_of_statement gives (by simp [isEnd])
  refine ⟨read :: reads, by simp [same, sameOthers], ?_⟩
  have skips : skipSemicolons (⟨.mark .semicolon, place, lexeme⟩ :: later) = later := by
    rw [skipSemicolons_cons, skipSemicolons_of_ne (nextKind_of_statements givesOthers)]
  rw [statements, if_neg goesOn]
  refine gives.bind (Gives.bind ?_ .ok)
  rwa [skips]

/-! ### Commands without commands inside -/

theorem readBack_skip : ReadBack chained (.skip span) := by
  intro tokens rest takes _
  obtain ⟨place, lexeme, rfl⟩ := takes_single.mp takes
  refine ⟨.skip place, rfl, ?_⟩
  rw [statement_eq_simpleStatement (by simp [nextKind]), simpleStatement]
  exact .ok

theorem readBack_boom (msg : String) : ReadBack chained (.boom msg span) := by
  intro tokens rest takes _
  simp only [Stmt.written, parenthesized, takes_cons, cons_append, nil_append, takes_nil] at takes
  obtain ⟨place, _, _, rfl, _, _, _, rfl, _, _, _, rfl, _, _, _, rfl, rfl⟩ := takes
  refine ⟨.boom msg place, rfl, ?_⟩
  rw [statement_eq_simpleStatement (by simp [nextKind]), simpleStatement]
  exact gives_expect.bind (gives_expect.bind .ok)

theorem readBack_procedureCall (name : String) {arguments : List Expr}
    (writable : Expr.WritableAll arguments) :
    ReadBack chained (.procedureCall name arguments span) := by
  intro tokens rest takes _
  obtain ⟨place, _, called, rfl, takesCall⟩ := takes_cons.mp takes
  obtain ⟨opening, openLexeme, inside, rfl, takesInside⟩ := takes_cons.mp takesCall
  obtain ⟨read, closing, same, gives⟩ := read_arguments writable takesInside
  refine ⟨.procedureCall name read (place.extend closing), by simp [same], ?_⟩
  rw [statement_eq_simpleStatement (by simp [nextKind]), simpleStatement]
  exact gives_expect.bind (gives.bind .ok)

theorem readBack_returns {values : List Expr} (writable : Expr.WritableAll values) :
    ReadBack chained (.returns values span none) := by
  intro tokens rest takes _
  obtain ⟨place, _, called, rfl, takesCall⟩ := takes_cons.mp takes
  obtain ⟨opening, openLexeme, inside, rfl, takesInside⟩ := takes_cons.mp takesCall
  obtain ⟨read, closing, same, gives⟩ := read_arguments writable takesInside
  refine ⟨.returns read place none, by simp [same], ?_⟩
  rw [statement_eq_simpleStatement (by simp [nextKind]), simpleStatement]
  exact gives_expect.bind (gives.bind .ok)

theorem readBack_assign (name : String) (writable : value.Writable) :
    ReadBack chained (.assign name value span) := by
  intro tokens rest takes isSemicolon
  obtain ⟨place, _, assigned, rfl, takesAssigned⟩ := takes_cons.mp takes
  obtain ⟨sign, signLexeme, later, rfl, takesValue⟩ := takes_cons.mp takesAssigned
  have unbound : binding? (nextKind rest) = none := by rw [isSemicolon]; rfl
  obtain ⟨read, same, gives⟩ := read_expression writable takesValue unbound
  refine ⟨.assign name read place, by simp [same], ?_⟩
  rw [statement_eq_simpleStatement (by simp [nextKind]), simpleStatement]
  exact gives_expect.bind (gives.bind .ok)

theorem readBack_tupleAssign (some : names ≠ []) (writable : value.Writable) :
    ReadBack chained (.tupleAssign names value span) := by
  intro tokens rest takes isSemicolon
  obtain ⟨sign, signLexeme, later, takesTargets, takesValue⟩ := takes_follow.mp takes
  obtain ⟨place, _, inside, rfl, takesInside⟩ := takes_cons.mp takesTargets
  obtain ⟨closing, closeLexeme, after, takesNames, takesNone⟩ := takes_follow.mp takesInside
  obtain rfl := takes_nil.mp takesNone
  have givesNames := read_variableNames "variable name" some takesNames (by simp [nextKind])
  have unbound : binding? (nextKind rest) = none := by rw [isSemicolon]; rfl
  obtain ⟨read, same, gives⟩ := read_expression writable takesValue unbound
  refine ⟨.tupleAssign names read place, by simp [same], ?_⟩
  rw [statement_eq_simpleStatement (by simp [nextKind]), simpleStatement]
  exact givesNames.bind (gives_expect.bind (gives_expect.bind (gives.bind .ok)))

/-! ### Blocks, loops and choices -/

theorem ReadBackAll.readBack_block (all : ReadBackAll chained body) :
    ReadBack chained (.block body span) := by
  intro tokens rest takes _
  obtain ⟨read, closing, same, gives⟩ := all.block takes
  obtain ⟨place, lexeme, later, rfl, -⟩ := takes_cons.mp takes
  refine ⟨.block read (place.extend closing), by simp [same], ?_⟩
  rw [statement]
  exact gives.bind .ok

theorem ReadBackAll.readBack_whileLoop (all : ReadBackAll chained body)
    (writable : cond.Writable) : ReadBack chained (.whileLoop cond body span) := by
  intro tokens rest takes _
  obtain ⟨place, lexeme, later, rfl, takesLoop⟩ := takes_cons.mp takes
  obtain ⟨middle, takesCondition, takesBody⟩ := takes_append.mp takesLoop
  have unbound : binding? (nextKind middle) = none := by rw [takesBody.nextKind_eq]; rfl
  obtain ⟨tested, sameCondition, givesCondition⟩ := read_expression writable takesCondition unbound
  obtain ⟨read, closing, same, gives⟩ := all.block takesBody
  refine ⟨.whileLoop tested read place, by simp [sameCondition, same], ?_⟩
  rw [statement]
  exact givesCondition.bind (gives.bind .ok)

theorem ReadBackAll.readBack_repeatWith (all : ReadBackAll chained body) (index : String)
    {lower upper : Expr} (writableLower : lower.Writable) (writableUpper : upper.Writable) :
    ReadBack chained (.repeatWith index lower upper body span none) := by
  intro tokens rest takes _
  obtain ⟨place, _, _, rfl, takesIndex⟩ := takes_cons.mp takes
  obtain ⟨_, _, _, rfl, takesIn⟩ := takes_cons.mp takesIndex
  obtain ⟨_, _, range, rfl, takesRange⟩ := takes_cons.mp takesIn
  obtain ⟨dots, dotsLexeme, middle, takesLower, takesRest⟩ := takes_follow.mp takesRange
  obtain ⟨later, takesUpper, takesBody⟩ := takes_append.mp takesRest
  have unbound : binding? (nextKind later) = none := by rw [takesBody.nextKind_eq]; rfl
  obtain ⟨first, sameLower, givesLower⟩ := read_expression writableLower takesLower rfl
  obtain ⟨last, sameUpper, givesUpper⟩ := read_expression writableUpper takesUpper unbound
  obtain ⟨read, closing, same, gives⟩ := all.block takesBody
  refine ⟨.repeatWith index first last read place none, by simp [sameLower, sameUpper, same], ?_⟩
  rw [statement]
  refine gives_expectLower.bind (gives_expect.bind (givesLower.bind (gives_expect.bind ?_)))
  exact givesUpper.bind (gives.bind .ok)

theorem ReadBackAll.readBack_ifElse (all : ReadBackAll chained body)
    (alternative : ReadBackElse chained other) (writable : cond.Writable) :
    ReadBack chained (.ifElse cond body other span) := by
  intro tokens rest takes isSemicolon
  obtain ⟨place, lexeme, later, rfl, takesChoice⟩ := takes_cons.mp takes
  obtain ⟨middle, takesCondition, takesBranches⟩ := takes_append.mp takesChoice
  obtain ⟨after, takesBody, takesOther⟩ := takes_append.mp takesBranches
  have unbound : binding? (nextKind middle) = none := by rw [takesBody.nextKind_eq]; rfl
  obtain ⟨tested, sameCondition, givesCondition⟩ := read_expression writable takesCondition unbound
  obtain ⟨read, closing, same, gives⟩ := all.block takesBody
  obtain ⟨otherRead, sameOther, givesOther⟩ := alternative after rest takesOther isSemicolon
  refine ⟨.ifElse tested read otherRead place, by simp [sameCondition, same, sameOther], ?_⟩
  rw [statement, conditional]
  exact Gives.bind (givesCondition.bind (gives.bind (givesOther.bind .ok))) .ok

theorem readBackElse_none : ReadBackElse chained none := by
  intro tokens rest takes isSemicolon
  obtain rfl := takes_nil.mp takes
  refine ⟨none, rfl, ?_⟩
  rw [conditionalElse.eq_def]
  split
  next => cases isSemicolon
  next => cases isSemicolon
  next => exact .ok

-- A block starts with a brace, so no choice is taken for it.
theorem ReadBackAll.readBackElse_block (all : ReadBackAll chained body)
    (braces : (chained && Stmt.chains body) = false) : ReadBackElse chained (some body) := by
  intro tokens rest takes _
  rw [Stmt.writtenElse, braces, if_neg Bool.false_ne_true] at takes
  obtain ⟨_, _, later, rfl, takesBody⟩ := takes_cons.mp takes
  obtain ⟨read, closing, same, gives⟩ := all.block takesBody
  refine ⟨some read, by simp [same], ?_⟩
  obtain ⟨_, _, _, rfl, -⟩ := takes_cons.mp takesBody
  rw [conditionalElse]
  · exact gives.bind .ok
  · simp

theorem ReadBack.readBackElse_choice
    (readBack : ReadBack chained (.ifElse cond body other span)) (isChained : chained = true) :
    ReadBackElse chained (some [.ifElse cond body other span]) := by
  intro tokens rest takes isSemicolon
  obtain ⟨_, _, later, rfl, takesChoice⟩ := takes_cons.mp takes
  rw [isChained, Stmt.chains, Bool.and_self, if_pos rfl, Stmt.writtenAll, Stmt.writtenAll,
    dropLast_concat, ← isChained] at takesChoice
  obtain ⟨read, same, gives⟩ := readBack later rest takesChoice isSemicolon
  refine ⟨some [read], by simp [same], ?_⟩
  obtain ⟨place, _, inside, rfl, -⟩ := takes_cons.mp takesChoice
  obtain ⟨shorter, isRead⟩ := gives
  rw [statement] at isRead
  obtain ⟨⟨_, _, fewer⟩, given, same⟩ := bind_eq_ok.mp isRead
  cases same
  rw [conditionalElse]
  exact Gives.bind ⟨fewer, given⟩ .ok

/-! ### Cases -/

theorem readBackBranches_nil : ReadBackBranches chained [] := by
  intro tokens rest takes noMore
  obtain rfl := takes_nil.mp takes
  refine ⟨[], rfl, ?_⟩
  rw [Parser.branches, if_neg (by simp [noMore])]
  exact .ok

theorem exists_separator (first : List TokenKind) (others : List (List TokenKind))
    (kinds : List TokenKind) :
    ∃ kind more, separated (first :: others) ++ .mark .arrow :: kinds = first ++ kind :: more ∧
      kind ≠ .mark .leftParen := by
  cases others with
  | nil => exact ⟨.mark .arrow, kinds, rfl, by simp⟩
  | cons second rest =>
    exact ⟨.mark .comma, separated (second :: rest) ++ .mark .arrow :: kinds, by simp [separated],
      by simp⟩

theorem startsLiteral_of_literals {kinds : List TokenKind} (some : values ≠ [])
    (literals : ∀ value ∈ values, value.IsLiteral)
    (takes : Takes (separated (values.map Value.written) ++ .mark .arrow :: kinds) tokens rest) :
    startsLiteral tokens = true := by
  obtain _ | ⟨first, others⟩ := values
  · exact absurd rfl some
  obtain ⟨kind, more, same, notOpen⟩ :=
    exists_separator first.written (others.map Value.written) kinds
  rw [map_cons, same] at takes
  obtain ⟨_, _, later, takesFirst, -⟩ := takes_follow.mp takes
  cases first with
  | int number =>
    rw [Value.written] at takesFirst
    split at takesFirst
    all_goals
      obtain ⟨_, _, _, rfl, -⟩ := takes_cons.mp takesFirst
      rfl
  | list _ => exact (literals _ (.head _)).elim
  | _ =>
    obtain ⟨_, _, rfl⟩ := takes_single.mp takesFirst
    simp [startsLiteral, notOpen]

theorem ReadBackAll.readBackBranches_cons (all : ReadBackAll chained body)
    (others : ReadBackBranches chained branches) (some : values ≠ [])
    (literals : ∀ value ∈ values, value.IsLiteral) :
    ReadBackBranches chained (.on values body span :: branches) := by
  intro tokens rest takes noMore
  have starts := startsLiteral_of_literals some literals takes
  obtain ⟨place, lexeme, middle, takesValues, takesRest⟩ := takes_follow.mp takes
  obtain ⟨later, takesBody, takesOthers⟩ := takes_append.mp takesRest
  have givesValues := read_literals some literals takesValues (by simp [nextKind])
  obtain ⟨read, closing, same, gives⟩ := all.block takesBody
  obtain ⟨reads, sameOthers, givesOthers⟩ := others later rest takesOthers noMore
  refine ⟨.on values read (nextSpan tokens) :: reads, by simp [same, sameOthers], ?_⟩
  rw [Parser.branches, if_pos starts]
  exact givesValues.bind (gives_expect.bind (gives.bind (givesOthers.bind .ok)))

theorem read_fallback (all : ∀ body, fallback = some body → ReadBackAll chained body)
    (takes : Takes (Stmt.writtenFallback chained fallback) tokens rest)
    (isSemicolon : nextKind rest = .mark .semicolon) :
    ∃ read, Stmt.unplacedOptional read = Stmt.unplacedOptional fallback ∧
      Gives (caseFallback tokens) read rest := by
  cases fallback with
  | none =>
    obtain rfl := takes_nil.mp takes
    refine ⟨none, rfl, ?_⟩
    rw [caseFallback.eq_def]
    split
    next => cases isSemicolon
    next => exact .ok
  | some body =>
    obtain ⟨_, _, _, rfl, takesArrow⟩ := takes_cons.mp takes
    obtain ⟨_, _, later, rfl, takesBody⟩ := takes_cons.mp takesArrow
    obtain ⟨read, closing, same, gives⟩ := (all body rfl).block takesBody
    refine ⟨some read, by simp [same], ?_⟩
    rw [caseFallback]
    exact gives_expect.bind (gives.bind .ok)

theorem startsLiteral_of_fallback
    (takes : Takes (Stmt.writtenFallback chained fallback) tokens rest)
    (isSemicolon : nextKind rest = .mark .semicolon) : startsLiteral tokens = false := by
  cases fallback with
  | none =>
    obtain rfl := takes_nil.mp takes
    obtain _ | ⟨⟨kind, _, _⟩, later⟩ := tokens <;> cases isSemicolon
    rfl
  | some body =>
    obtain ⟨_, _, _, rfl, -⟩ := takes_cons.mp takes
    rfl

theorem ReadBackBranches.readBack_caseOf (chosen : ReadBackBranches chained branches)
    (otherwise : ∀ body, fallback = some body → ReadBackAll chained body) {scrutinee : Expr}
    (writable : scrutinee.Writable) (some : branches ≠ [] ∨ fallback ≠ none) :
    ReadBack chained (.caseOf scrutinee branches fallback span) := by
  intro tokens rest takes isSemicolon
  obtain ⟨place, _, later, rfl, takesCase⟩ := takes_cons.mp takes
  obtain ⟨ofPlace, lexeme, middle, takesScrutinee, takesBranches⟩ := takes_follow.mp takesCase
  obtain ⟨last, takesChosen, takesFallback⟩ := takes_append.mp takesBranches
  obtain ⟨examined, sameScrutinee, givesScrutinee⟩ := read_expression writable takesScrutinee rfl
  obtain ⟨choices, sameChoices, givesChoices⟩ :=
    chosen middle last takesChosen (startsLiteral_of_fallback takesFallback isSemicolon)
  obtain ⟨other, sameOther, givesOther⟩ := read_fallback otherwise takesFallback isSemicolon
  refine ⟨.caseOf examined choices other place, by simp [sameScrutinee, sameChoices, sameOther], ?_⟩
  rw [statement]
  refine givesScrutinee.bind (gives_expect.bind (givesChoices.bind (givesOther.bind ?_)))
  have noChoices : choices = [] ↔ branches = [] := by
    rw [← Stmt.unplacedBranches_eq_nil, sameChoices, Stmt.unplacedBranches_eq_nil]
  have noOther : other = none ↔ fallback = none := by
    rw [← Stmt.unplacedOptional_eq_none, sameOther, Stmt.unplacedOptional_eq_none]
  dsimp only
  rw [if_neg]
  · exact .ok
  · rw [Bool.and_eq_true, List.isEmpty_iff, Option.isNone_iff_eq_none, noChoices, noOther]
    exact fun none => some.elim (· none.1) (· none.2)

/-! ### All commands -/

variable (chained)

mutual

theorem readBack (command : Stmt) (writable : command.Writable) : ReadBack chained command := by
  match command with
  | .skip _ => exact readBack_skip
  | .boom msg _ => exact readBack_boom msg
  | .procedureCall name _ _ => exact readBack_procedureCall name writable
  | .assign name _ _ => exact readBack_assign name writable
  | .tupleAssign _ _ _ => exact readBack_tupleAssign writable.1 writable.2
  | .ifElse _ thenBranch elseBranch _ =>
    obtain ⟨cond, body, other⟩ := writable
    exact (readBackAll thenBranch body).readBack_ifElse (readBackElse elseBranch other) cond
  | .whileLoop _ body _ => exact (readBackAll body writable.2).readBack_whileLoop writable.1
  | .repeatWith index _ _ body _ _ =>
    obtain ⟨lower, upper, inside, rfl⟩ := writable
    exact (readBackAll body inside).readBack_repeatWith index lower upper
  | .caseOf _ branches fallback _ =>
    obtain ⟨scrutinee, chosen, otherwise, some⟩ := writable
    exact (readBackBranches branches chosen).readBack_caseOf
      (readBackFallback fallback otherwise) scrutinee some
  | .block body _ => exact (readBackAll body writable).readBack_block
  | .returns _ _ _ =>
    obtain ⟨values, rfl⟩ := writable
    exact readBack_returns values

theorem readBackAll (body : List Stmt) (writable : Stmt.WritableAll body) :
    ReadBackAll chained body := by
  match body with
  | [] => exact readBackAll_nil
  | first :: rest => exact (readBack first writable.1).cons (readBackAll rest writable.2)

theorem readBackElse (body : Option (List Stmt)) (writable : Stmt.WritableOptional body) :
    ReadBackElse chained body := by
  match body with
  | none => exact readBackElse_none
  | some [] => exact readBackAll_nil.readBackElse_block (Bool.and_false chained)
  | some (first :: rest) =>
    cases braces : chained && Stmt.chains (first :: rest) with
    | false =>
      have all := (readBack first writable.1).cons (readBackAll rest writable.2)
      exact all.readBackElse_block braces
    | true =>
      obtain ⟨isChained, chains⟩ := Bool.and_eq_true_iff.mp braces
      have readFirst := readBack first writable.1
      unfold Stmt.chains at chains
      split at chains
      · rename_i same
        cases same
        exact readFirst.readBackElse_choice isChained
      · cases chains

theorem readBackBranches (branches : List Branch) (writable : Stmt.WritableBranches branches) :
    ReadBackBranches chained branches := by
  match branches with
  | [] => exact readBackBranches_nil
  | .on _ body _ :: rest =>
    obtain ⟨some, literals, inside, others⟩ := writable
    exact (readBackAll body inside).readBackBranches_cons (readBackBranches rest others) some
      literals

theorem readBackFallback (fallback : Option (List Stmt))
    (writable : Stmt.WritableOptional fallback) :
    ∀ body, fallback = some body → ReadBackAll chained body := by
  match fallback with
  | none => simp
  | some body =>
    rintro _ ⟨⟩
    exact readBackAll body writable

end

end Command

/-! ## Programs -/

theorem read_parameters
    (takes : Takes (separated (names.map fun name => [.lower name])) tokens rest)
    (closes : nextKind rest = .mark .rightParen) : Gives (parameters tokens) names rest := by
  cases names with
  | nil =>
    obtain rfl := takes_nil.mp takes
    rw [parameters, if_pos closes]
    exact .ok
  | cons first others =>
    have gives := read_variableNames "parameter name" (by simp) takes (by simp [closes])
    have isName : nextKind tokens = .lower first := by cases others <;> exact takes.nextKind_eq
    rw [parameters, if_neg (by simp [isName])]
    exact gives.bind .ok

theorem read_definition (chained : Bool) (writable : Stmt.WritableAll definition.body)
    (takes : Takes (definition.written chained) tokens rest) :
    ∃ read, Definition.unplaced read = definition.unplaced ∧
      Gives (Parser.definition tokens) read rest := by
  obtain ⟨kind, name, names, body, span⟩ := definition
  obtain ⟨place, _, _, rfl, takesName⟩ := takes_cons.mp takes
  obtain ⟨namePlace, nameLexeme, _, rfl, takesRoutine⟩ := takes_cons.mp takesName
  obtain ⟨middle, takesParameters, takesBody⟩ := takes_append.mp takesRoutine
  obtain ⟨opening, openLexeme, inside, rfl, takesInside⟩ := takes_cons.mp takesParameters
  obtain ⟨closing, closeLexeme, _, takesNames, takesNone⟩ := takes_follow.mp takesInside
  obtain rfl := takes_nil.mp takesNone
  have givesNames := read_parameters takesNames rfl
  obtain ⟨read, last, same, gives⟩ := (readBackAll chained body writable).block takesBody
  refine ⟨⟨kind, name, names, read, place⟩, by rw [Definition.unplaced, Definition.unplaced, same],
    ?_⟩
  cases kind
  all_goals
    unfold Parser.definition routine
    refine Gives.bind (Gives.bind .ok (gives_expect.bind (givesNames.bind ?_))) .ok
    exact gives_expect.bind (gives.bind .ok)

theorem nextKind_of_definition (gives : Gives (Parser.definition tokens) definition rest) :
    nextKind tokens ∉ [.endOfInput, .keyword .fromWord, .mark .semicolon] := by
  unfold Parser.definition at gives
  split at gives
  all_goals simp_all [nextKind]

theorem read_definitions (chained : Bool) (routines : List Definition)
    (writable : ∀ definition ∈ routines, Stmt.WritableAll definition.body)
    (takes : Takes (routines.flatMap (Definition.written chained)) tokens rest)
    (atEnd : nextKind rest = .endOfInput) : ∃ read, definitions tokens = .ok read ∧
      read.map Definition.unplaced = routines.map Definition.unplaced := by
  induction routines generalizing tokens with
  | nil =>
    obtain rfl := takes_nil.mp takes
    exact ⟨[], by rw [definitions, if_pos atEnd], rfl⟩
  | cons first others ih =>
    obtain ⟨middle, takesFirst, takesOthers⟩ := takes_append.mp takes
    obtain ⟨read, same, gives⟩ := read_definition chained (writable first (.head _)) takesFirst
    obtain ⟨reads, readOthers, sameOthers⟩ :=
      ih (fun definition isOther => writable definition (.tail _ isOther)) takesOthers
    have notEnd : nextKind tokens ≠ .endOfInput :=
      fun isEnd => nextKind_of_definition gives (by simp [isEnd])
    obtain ⟨shorter, isRead⟩ := gives
    refine ⟨read :: reads, ?_, by rw [map_cons, map_cons, same, sameOthers]⟩
    rw [definitions, if_neg notEnd]
    exact bind_eq_ok.mpr ⟨⟨read, middle, shorter⟩, isRead, bind_eq_ok.mpr ⟨reads, readOthers, rfl⟩⟩

theorem read_import {decl : Import} (some : decl.names ≠ [])
    (takes : Takes decl.written tokens rest) (notSemicolon : nextKind rest ≠ .mark .semicolon) :
    ∃ span lexeme later read, tokens = ⟨.keyword .fromWord, span, lexeme⟩ :: later ∧
      Import.unplaced read = decl.unplaced ∧ Gives (importAfter span later) read rest := by
  obtain ⟨span, lexeme, later, rfl, takesImport⟩ := takes_cons.mp takes
  obtain ⟨_, _, _, rfl, takesWord⟩ := takes_cons.mp takesImport
  obtain ⟨_, _, _, rfl, takesOpen⟩ := takes_cons.mp takesWord
  obtain ⟨_, _, inside, rfl, takesInside⟩ := takes_cons.mp takesOpen
  obtain ⟨closing, closeLexeme, last, takesNames, takesNone⟩ := takes_follow.mp takesInside
  obtain rfl := takes_nil.mp takesNone
  obtain ⟨names, same, gives⟩ := read_routineNames some takesNames (by simp [nextKind])
  refine ⟨span, lexeme, _, ⟨decl.source, names, span.extend closing⟩, rfl,
    by rw [Import.unplaced, Import.unplaced, same], ?_⟩
  unfold importAfter
  refine gives_expectUpper.bind (gives_expect.bind (gives_expect.bind ?_))
  refine gives.bind (gives_expect.bind ?_)
  dsimp only
  split
  · exact absurd rfl notSemicolon
  · exact .ok

theorem nextKind_of_definitions {routines : List Definition}
    (succeeds : definitions tokens = .ok routines) :
    nextKind tokens ∉ [.keyword .fromWord, .mark .semicolon] := by
  rw [definitions] at succeeds
  split at succeeds
  next atEnd => simp [atEnd]
  next =>
    obtain ⟨⟨_, _, shorter⟩, isRead, -⟩ := bind_eq_ok.mp succeeds
    exact fun isFirst => nextKind_of_definition ⟨shorter, isRead⟩ (.tail _ isFirst)

theorem program_of_ne (notFrom : nextKind tokens ≠ .keyword .fromWord) :
    program tokens = definitions tokens >>= fun routines => .ok ⟨[], routines⟩ := by
  rw [program.eq_def]
  split
  next => exact absurd rfl notFrom
  next => rfl

theorem nextKind_of_program {read : Program} (succeeds : program tokens = .ok read) :
    nextKind tokens ≠ .mark .semicolon := by
  by_cases isFrom : nextKind tokens = .keyword .fromWord
  · simp [isFrom]
  · rw [program_of_ne isFrom] at succeeds
    obtain ⟨_, isRead, -⟩ := bind_eq_ok.mp succeeds
    exact fun isFirst => nextKind_of_definitions isRead (by simp [isFirst])

theorem read_program (chained : Bool) (imports : List Import) (routines : List Definition)
    (writable : Program.Writable ⟨imports, routines⟩)
    (takes : Takes (Program.written chained ⟨imports, routines⟩) tokens rest)
    (atEnd : nextKind rest = .endOfInput) :
    ∃ read, program tokens = .ok read ∧ read.unplaced = Program.unplaced ⟨imports, routines⟩ := by
  induction imports generalizing tokens with
  | nil =>
    obtain ⟨read, isRead, same⟩ :=
      read_definitions chained routines writable.definitions takes atEnd
    have notFrom : nextKind tokens ≠ .keyword .fromWord :=
      fun isFrom => nextKind_of_definitions isRead (by simp [isFrom])
    refine ⟨⟨[], read⟩, ?_, by rw [Program.unplaced, Program.unplaced, same]⟩
    rw [program_of_ne notFrom]
    exact bind_eq_ok.mpr ⟨read, isRead, rfl⟩
  | cons decl others ih =>
    rw [Program.written, flatMap_cons, append_assoc, takes_append] at takes
    obtain ⟨middle, takesFirst, takesOthers⟩ := takes
    have writableOthers : Program.Writable ⟨others, routines⟩ :=
      ⟨fun other isOther => writable.imports other (.tail _ isOther), writable.definitions⟩
    obtain ⟨read, isRead, same⟩ := ih writableOthers takesOthers
    obtain ⟨span, lexeme, later, first, rfl, sameFirst, shorter, isFirst⟩ :=
      read_import (writable.imports decl (.head _)) takesFirst (nextKind_of_program isRead)
    refine ⟨{ read with imports := first :: read.imports }, ?_, ?_⟩
    · rw [program]
      exact bind_eq_ok.mpr ⟨⟨first, middle, shorter⟩, isFirst, bind_eq_ok.mpr ⟨read, isRead, rfl⟩⟩
    · rw [Program.unplaced, Program.mk.injEq] at same
      rw [Program.unplaced, map_cons, sameFirst, same.1, same.2]
      rfl

end Reading

/-- Reading undoes writing.  Whatever the places and the spellings of its tokens, a program
that is written as tokens is read as this program, up to the places of its parts. -/
theorem read_written (chained : Bool) (program : Program) (writable : program.Writable)
    (tokens : List Token)
    (written : tokens.map Token.kind = program.written chained ++ [.endOfInput]) :
    ∃ read, Parser.program tokens = .ok read ∧ read.unplaced = program.unplaced := by
  have takes : Takes (program.written chained ++ [.endOfInput]) tokens [] :=
    ⟨tokens, written, (List.append_nil tokens).symm⟩
  obtain ⟨span, lexeme, later, takesProgram, -⟩ := takes_follow.mp takes
  exact read_program chained program.imports program.definitions writable takesProgram rfl

def sampleProgram : Program where
  imports := [⟨"Board", [("Walk", .nowhere), ("size", .nowhere)], .nowhere⟩]
  definitions :=
    [⟨.procedure, "Main", [],
      [.tupleAssign ["a", "b"] (.call "size" [] .nowhere none) .nowhere,
        .ifElse
          (.logical .or (.not (.variableRef "a" .nowhere) .nowhere)
            (.binary .less (.variableRef "a" .nowhere) (.literal (.int 3) .nowhere) .nowhere)
            .nowhere)
          [.skip .nowhere]
          (some [.ifElse (.literal (.bool true) .nowhere) [] none .nowhere]) .nowhere,
        .caseOf
          (.binary .subtract (.variableRef "a" .nowhere)
            (.binary .add (.variableRef "b" .nowhere)
              (.binary .power (.negate (.variableRef "a" .nowhere) .nowhere none)
                (.literal (.int 2) .nowhere) .nowhere) .nowhere) .nowhere)
          [.on [.int (-1), .int 2]
            [.procedureCall "Walk" [.literal (.color .red) .nowhere] .nowhere] .nowhere]
          (some []) .nowhere], .nowhere⟩]

theorem read_written_sampleProgram :
    sampleProgram.Writable ∧
      ∃ read, program ((sampleProgram.written true ++ [TokenKind.endOfInput]).map
        fun kind => ⟨kind, .nowhere, ""⟩) = .ok read ∧ read.unplaced = sampleProgram.unplaced := by
  have writable : sampleProgram.Writable := by
    constructor <;>
      simp [sampleProgram, Stmt.WritableAll, Stmt.Writable, Stmt.WritableOptional,
        Stmt.WritableBranches, Expr.Writable, Expr.WritableAll, Value.IsAtom, Value.IsLiteral]
  refine ⟨writable, read_written true sampleProgram writable _ ?_⟩
  rw [List.map_map]
  exact List.map_id _

end Parser

end StoneBoard
