import StoneBoard.Proofs.Recognition

/-!
# Readers stop at the end of the input

A reader that is given tokens up to the end of the input goes forward without reaching the end, or
fails at one of the tokens.  It does not look at anything that lies beyond the end.
-/

namespace StoneBoard.Parser

variable {tokens beyond : List Token}

/-- A reader succeeds after one or more tokens, with the end of the input still to come, or it
fails at one of the tokens.  What lies beyond the end makes no difference. -/
def GoesForward {α : Type} (reader : (tokens : List Token) → Parse α tokens)
    (tokens beyond : List Token) : Prop :=
  (∃ value used rest, used ≠ [] ∧ tokens = used ++ rest ∧ Ended rest ∧
    Gives (reader tokens) value rest ∧ Gives (reader (tokens ++ beyond)) value (rest ++ beyond)) ∨
  ∃ fault, (∃ token ∈ tokens, fault.span = some token.span) ∧
    reader tokens = .error fault ∧ reader (tokens ++ beyond) = .error fault

theorem Reads.goesForward {α : Type} {good : α → List Token → Prop}
    {reader : (tokens : List Token) → Parse α tokens}
    (reads : Reads (.untold tokens beyond) good (reader tokens) (reader (tokens ++ beyond))) :
    GoesForward reader tokens beyond := by
  unfold GoesForward
  generalize reader tokens = outcome, reader (tokens ++ beyond) = more at reads
  cases reads with
  | @ok value rest shorter fewer isGood ahead =>
    obtain ⟨⟨used, same⟩, ended⟩ := ahead
    refine .inl ⟨value, used, rest, ?_, same.symm, ended, .ok, .ok⟩
    rintro rfl
    exact absurd (congrArg List.length same) (Nat.ne_of_lt shorter)
  | @error fault found =>
    obtain ⟨-, span, isSpan, token, mem, rfl⟩ := found
    exact .inr ⟨fault, ⟨token, mem, isSpan⟩, rfl, rfl⟩

/-- Reading ends before the end of the input, at whatever token a construct begins.  The reader of
an expression of any layer, of a literal, a block, a command or a definition goes forward; and a
program is read, or refused at one of the tokens, whatever lies beyond. -/
theorem reading_ends (ended : Ended tokens) (beyond : List Token) :
    (∀ layer, GoesForward (reader layer) tokens beyond) ∧
    GoesForward literal tokens beyond ∧ GoesForward block tokens beyond ∧
    GoesForward statement tokens beyond ∧ GoesForward definition tokens beyond ∧
    program (tokens ++ beyond) = program tokens ∧
    ((∃ read, program tokens = .ok read) ∨
      ∃ fault, (∃ token ∈ tokens, fault.span = some token.span) ∧
        program tokens = .error fault) := by
  have ahead := Source.ahead_untold ended beyond
  refine ⟨fun layer => ?_, (literal_reads ahead).goesForward, (block_reads _ ahead).goesForward,
    (statement_reads _ ahead).goesForward, (definition_reads ahead).goesForward, ?_⟩
  · cases layer with
    | disjunction => exact (disjunction_reads _ ahead).goesForward
    | conjunction => exact (conjunction_reads _ ahead).goesForward
    | negation => exact (negation_reads _ ahead).goesForward
    | comparison => exact (comparison_reads _ ahead).goesForward
    | sum => exact (sum_reads _ ahead).goesForward
    | product => exact (product_reads _ ahead).goesForward
    | signed => exact (signed_reads _ ahead).goesForward
    | power => exact (power_reads _ ahead).goesForward
    | atom => exact (atom_reads _ ahead).goesForward
  · have whole := program_read tokens ahead
    refine ⟨whole.same, ?_⟩
    cases result : program tokens with
    | ok read => exact .inl ⟨read, rfl⟩
    | error fault =>
      obtain ⟨-, span, isSpan, token, member, rfl⟩ := whole.faults fault result
      exact .inr ⟨fault, ⟨token, member, isSpan⟩, rfl⟩

/-- The tokens of `x := (`. -/
def cutTokens : List Token :=
  [⟨.lower "x", ⟨0, 1, 1, 1⟩, "x"⟩, ⟨.mark .assign, ⟨2, 4, 1, 3⟩, ":="⟩,
    ⟨.mark .leftParen, ⟨5, 6, 1, 6⟩, "("⟩, ⟨.endOfInput, ⟨6, 6, 1, 7⟩, ""⟩]

/-- The command ends in the middle, even if the rest of it lies beyond the end of the input. -/
theorem cutTokens_reading_ends :
    ∃ fault, (∃ token ∈ cutTokens, fault.span = some token.span) ∧
      statement (cutTokens ++ [⟨.number 1, .nowhere, "1"⟩, ⟨.mark .rightParen, .nowhere, ")"⟩]) =
        .error fault := by
  have ended : Ended cutTokens :=
    .cons (by decide) (.cons (by decide) (.cons (by decide) (.last rfl)))
  obtain ⟨-, -, -, forward, -⟩ := reading_ends ended
    [⟨.number 1, .nowhere, "1"⟩, ⟨.mark .rightParen, .nowhere, ")"⟩]
  rcases forward with ⟨value, used, rest, -, -, -, ⟨shorter, succeeds⟩, -⟩ | ⟨fault, place, -, same⟩
  · have fails : (statement cutTokens).isOk = false := by decide +kernel
    rw [succeeds] at fails
    cases fails
  · exact ⟨fault, place, same⟩

end StoneBoard.Parser
