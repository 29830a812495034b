import StoneBoard.Proofs.Reading

/-!
# Only the grammar is read

Whatever a reader takes off the front of the tokens is derived by the grammar, with what the
reader gives as the tree of the derivation.
-/

namespace StoneBoard

namespace Parser

open Grammar List

variable {rest later : List Token}

/-- Tokens that need not be those of a text. -/
def Source.untold (tokens beyond : List Token) : Source := ⟨tokens, beyond, "", False, False.elim⟩

theorem Source.ahead_untold {tokens : List Token} (ended : Ended tokens) (beyond : List Token) :
    (untold tokens beyond).Ahead tokens :=
  ⟨suffix_rfl, ended⟩

theorem disjunction_derives {tokens : List Token} {expr : Expr} (ended : Ended tokens)
    (gives : Gives (disjunction tokens) expr rest) :
    Derives AnyExpression tokens expr.unplaced rest :=
  ((disjunction_reads tokens (Source.ahead_untold ended [])).of_gives gives).derives

theorem program_derives {tokens : List Token} {read : Program} (ended : Ended tokens)
    (succeeds : program tokens = .ok read) :
    ∃ rest, nextKind rest = .endOfInput ∧ Derives WholeProgram tokens read.unplaced rest := by
  obtain ⟨rest, atEnd, isRead⟩ := (program_read tokens (Source.ahead_untold ended [])).reads read succeeds
  exact ⟨rest, atEnd, isRead.derives⟩

/-! ## Complete sequences of tokens -/

section Complete

variable {body : List Token} {last : Token} {kinds : List TokenKind}

theorem ended_append (atEnd : last.kind = .endOfInput)
    (noEnd : ∀ token ∈ body, token.kind ≠ .endOfInput) : Ended (body ++ [last]) := by
  induction body with
  | nil => exact .last atEnd
  | cons token rest ih =>
    obtain ⟨notEnd, noneEnds⟩ := List.forall_mem_cons.mp noEnd
    exact .cons notEnd (ih noneEnds)

/-- A derivation never reaches the end of the input. -/
theorem Takes.within (atEnd : last.kind = .endOfInput) (no_end : .endOfInput ∉ kinds)
    (takes : Takes kinds (body ++ [last]) rest) :
    ∃ later, rest = later ++ [last] ∧ Takes kinds body later := by
  obtain ⟨used, rfl, same⟩ := takes
  rcases List.append_eq_append_iff.mp same with ⟨front, isUsed, isLast⟩ | ⟨later, isBody, isRest⟩
  · cases front with
    | nil => exact ⟨[], by simpa using isLast.symm, used, rfl, by simpa using isUsed.symm⟩
    | cons token others =>
      -- Here the last token would be among those that were used.
      obtain ⟨rfl, -⟩ := List.cons.inj isLast
      rw [isUsed, mem_map] at no_end
      exact absurd ⟨last, by simp, atEnd⟩ no_end
  · exact ⟨later, isRest, used, rfl, isBody⟩

theorem Takes.eq_nil_of_nextKind (noEnd : ∀ token ∈ body, token.kind ≠ .endOfInput)
    (takes : Takes kinds body later) (reached : nextKind (later ++ [last]) = .endOfInput) :
    later = [] := by
  obtain ⟨used, -, rfl⟩ := takes
  cases later with
  | nil => rfl
  | cons token others => exact absurd reached (noEnd token (by simp))

theorem Takes.exists_stop {start : Nat} (few : start ≤ body.length)
    (takes : Takes kinds (body.drop start) later) :
    ∃ stop, start ≤ stop ∧ stop ≤ body.length ∧ later = body.drop stop ∧
      kinds = ((body.drop start).take (stop - start)).map Token.kind := by
  obtain ⟨used, rfl, same⟩ := takes
  have length_eq := congrArg List.length same
  simp only [length_drop, length_append] at length_eq
  refine ⟨start + used.length, by omega, by omega, ?_, ?_⟩
  · rw [← drop_drop, same, drop_left]
  · rw [same, Nat.add_sub_cancel_left, take_left]

/-- Only the grammar is read.  If the tokens up to the end of the input are read as a program,
they are derived by the grammar, with this program as the tree of the derivation.  If an
expression is read from any position, then the tokens from there to the position where its
reader stops are derived, with this expression as the tree. -/
theorem derivable_of_read (body : List Token) (last : Token) (atEnd : last.kind = .endOfInput)
    (noEnd : ∀ token ∈ body, token.kind ≠ .endOfInput) :
    (∀ read, program (body ++ [last]) = .ok read →
      WholeProgram (body.map Token.kind) read.unplaced) ∧
    ∀ start ≤ body.length, ∀ read rest shorter,
      expression ((body ++ [last]).drop start) = .ok ⟨read, rest, shorter⟩ →
      ∃ stop, start < stop ∧ stop ≤ body.length ∧ rest = (body ++ [last]).drop stop ∧
        AnyExpression (((body.drop start).take (stop - start)).map Token.kind) read.unplaced := by
  constructor
  · intro read succeeds
    obtain ⟨rest, reached, kinds, takes, derived⟩ := program_derives (ended_append atEnd noEnd) succeeds
    obtain ⟨later, rfl, takesBody⟩ := takes.within atEnd derived.no_end
    obtain rfl := takesBody.eq_nil_of_nextKind noEnd reached
    obtain ⟨used, rfl, rfl⟩ := takesBody
    rwa [List.append_nil]
  · intro start few read rest shorter succeeds
    have drops := @List.drop_append_of_le_length _ body [last] start few
    have ended : Ended ((body ++ [last]).drop start) :=
      drops ▸ ended_append atEnd fun token member => noEnd token (List.mem_of_mem_drop member)
    obtain ⟨kinds, takes, derived⟩ := disjunction_derives ended ⟨shorter, succeeds⟩
    rw [drops] at takes
    obtain ⟨later, rfl, takesBody⟩ := takes.within atEnd derived.no_end
    obtain ⟨stop, -, bound, rfl, rfl⟩ := takesBody.exists_stop few
    refine ⟨stop, ?_, bound, ?_, derived⟩
    · simp only [List.length_append, List.length_drop] at shorter
      omega
    · rw [List.drop_append_of_le_length bound]

/-- The tokens of `procedure P() { x := - y ^ 2 - [z] }`. -/
def sampleBody : List Token :=
  [.keyword .procedure, .upper "P", .mark .leftParen, .mark .rightParen, .mark .leftBrace,
    .lower "x", .mark .assign, .mark .minus, .lower "y", .mark .caret, .number 2, .mark .minus,
    .mark .leftBracket, .lower "z", .mark .rightBracket, .mark .rightBrace].map
    fun kind => ⟨kind, .nowhere, ""⟩

def sampleEnd : Token := ⟨.endOfInput, .nowhere, ""⟩

theorem sampleBody_derivable :
    (∃ read, program (sampleBody ++ [sampleEnd]) = .ok read ∧
      WholeProgram (sampleBody.map Token.kind) read.unplaced) ∧
    ∃ read rest shorter,
      expression ((sampleBody ++ [sampleEnd]).drop 7) = .ok ⟨read, rest, shorter⟩ ∧
      AnyExpression (((sampleBody.drop 7).take 8).map Token.kind) read.unplaced := by
  obtain ⟨programs, expressions⟩ := derivable_of_read sampleBody sampleEnd rfl (by decide)
  constructor
  · have succeeds : (program (sampleBody ++ [sampleEnd])).isOk = true := by decide +kernel
    cases result : program (sampleBody ++ [sampleEnd]) with
    | error _ =>
      rw [result] at succeeds
      cases succeeds
    | ok read => exact ⟨read, rfl, programs read result⟩
  · have leaves : (expression ((sampleBody ++ [sampleEnd]).drop 7)).toOption.map
        (fun parsed => parsed.rest.length) = some 2 := by decide +kernel
    cases result : expression ((sampleBody ++ [sampleEnd]).drop 7) with
    | error _ =>
      rw [result] at leaves
      cases leaves
    | ok parsed =>
      obtain ⟨read, rest, shorter⟩ := parsed
      rw [result] at leaves
      obtain ⟨stop, -, bound, isRest, derived⟩ :=
        expressions 7 (by decide) read rest shorter result
      have isTwo : rest.length = 2 := Option.some.inj leaves
      have isLength : sampleBody.length = 16 := by decide
      obtain rfl : stop = 15 := by
        rw [isRest, List.length_drop, List.length_append, isLength] at isTwo
        simp only [List.length_singleton] at isTwo
        omega
      exact ⟨read, rest, shorter, rfl, derived⟩

end Complete

end Parser

end StoneBoard
