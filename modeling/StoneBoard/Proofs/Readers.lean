import StoneBoard.Program.Parser
import StoneBoard.Proofs.Success

/-!
# What readers do

A reader succeeds if the readers that it calls succeed one after the other, each on the tokens
that the one before has left.
-/

namespace StoneBoard.Parser

variable {kind : TokenKind} {kinds : List TokenKind} {span : Span} {lexeme what : String}
  {later : List Token} {first second others : List TokenKind} {name : String}

def Gives {α : Type} {limit : Nat} (outcome : Except Error (Parsed α limit)) (value : α)
    (rest : List Token) : Prop :=
  ∃ shorter, outcome = .ok ⟨value, rest, shorter⟩

namespace Gives

variable {α β : Type} {limit other : Nat} {value : α} {rest : List Token}

theorem shorter {outcome : Except Error (Parsed α limit)} (gives : Gives outcome value rest) :
    rest.length < limit := by
  obtain ⟨shorter, -⟩ := gives
  exact shorter

theorem ok {shorter : rest.length < limit} : Gives (.ok ⟨value, rest, shorter⟩) value rest :=
  ⟨shorter, rfl⟩

theorem bind {first : Except Error (Parsed β other)} {read : β} {middle : List Token}
    {next : Parsed β other → Except Error (Parsed α limit)} (given : Gives first read middle)
    (continues : Gives (next ⟨read, middle, given.shorter⟩) value rest) :
    Gives (first >>= next) value rest := by
  obtain ⟨shorter, same⟩ := continues
  obtain ⟨_, isFirst⟩ := given
  exact ⟨shorter, bind_eq_ok.mpr ⟨_, isFirst, same⟩⟩

end Gives

@[simp]
theorem not_gives_error {α : Type} {limit : Nat} {value : α} {rest : List Token} {error : Error} :
    ¬ Gives (.error error : Except Error (Parsed α limit)) value rest := by
  simp [Gives]

/-! ## Single tokens -/

def Takes (kinds : List TokenKind) (tokens rest : List Token) : Prop :=
  ∃ used : List Token, used.map Token.kind = kinds ∧ tokens = used ++ rest

variable {tokens rest : List Token}

theorem takes_nil : Takes [] tokens rest ↔ tokens = rest := by
  simp [Takes]

theorem takes_cons : Takes (kind :: kinds) tokens rest ↔
      ∃ span lexeme later, tokens = ⟨kind, span, lexeme⟩ :: later ∧ Takes kinds later rest := by
  constructor
  · rintro ⟨_ | ⟨⟨_, span, lexeme⟩, used⟩, same, rfl⟩
    · cases same
    · obtain ⟨rfl, others⟩ := List.cons.inj same
      exact ⟨span, lexeme, used ++ rest, rfl, used, others, rfl⟩
  · rintro ⟨span, lexeme, later, rfl, used, same, rfl⟩
    exact ⟨⟨kind, span, lexeme⟩ :: used, by rw [List.map_cons, same], rfl⟩

theorem takes_append : Takes (first ++ second) tokens rest ↔
      ∃ middle, Takes first tokens middle ∧ Takes second middle rest := by
  induction first generalizing tokens with
  | nil => simp [takes_nil]
  | cons kind kinds ih =>
    simp only [List.cons_append, takes_cons, ih]
    constructor
    · rintro ⟨span, lexeme, later, same, middle, takesFirst, takesSecond⟩
      exact ⟨middle, ⟨span, lexeme, later, same, takesFirst⟩, takesSecond⟩
    · rintro ⟨middle, ⟨span, lexeme, later, same, takesFirst⟩, takesSecond⟩
      exact ⟨span, lexeme, later, same, middle, takesFirst, takesSecond⟩

theorem takes_single :
    Takes [kind] tokens rest ↔ ∃ span lexeme, tokens = ⟨kind, span, lexeme⟩ :: rest := by
  simp [takes_cons, takes_nil]

theorem takes_follow : Takes (kinds ++ kind :: others) tokens rest ↔
      ∃ span lexeme later, Takes kinds tokens (⟨kind, span, lexeme⟩ :: later) ∧
        Takes others later rest := by
  rw [takes_append]
  constructor
  · rintro ⟨middle, takesFirst, takesRest⟩
    obtain ⟨span, lexeme, later, rfl, takesOthers⟩ := takes_cons.mp takesRest
    exact ⟨span, lexeme, later, takesFirst, takesOthers⟩
  · rintro ⟨span, lexeme, later, takesFirst, takesOthers⟩
    exact ⟨_, takesFirst, takes_cons.mpr ⟨span, lexeme, later, rfl, takesOthers⟩⟩

theorem Takes.nextKind_eq (takes : Takes (kind :: kinds) tokens rest) : nextKind tokens = kind := by
  obtain ⟨_, _, _, rfl, -⟩ := takes_cons.mp takes
  rfl

theorem Takes.nil : Takes [] rest rest := takes_nil.mpr rfl

theorem Takes.cons (takes : Takes kinds tokens rest) :
    Takes (kind :: kinds) (⟨kind, span, lexeme⟩ :: tokens) rest :=
  takes_cons.mpr ⟨span, lexeme, tokens, rfl, takes⟩

theorem Takes.single : Takes [kind] (⟨kind, span, lexeme⟩ :: rest) rest :=
  Takes.nil.cons

theorem Takes.append {middle : List Token} (takesFirst : Takes first tokens middle)
    (takesSecond : Takes second middle rest) : Takes (first ++ second) tokens rest :=
  takes_append.mpr ⟨middle, takesFirst, takesSecond⟩

theorem Takes.follow (takes : Takes kinds tokens (⟨kind, span, lexeme⟩ :: later))
    (takesRest : Takes others later rest) : Takes (kinds ++ kind :: others) tokens rest :=
  takes_follow.mpr ⟨span, lexeme, later, takes, takesRest⟩

theorem gives_expect : Gives (expect kind what (⟨kind, span, lexeme⟩ :: rest)) span rest := by
  rw [expect, if_pos rfl]
  exact .ok

theorem gives_expectUpper :
    Gives (expectUpper what (⟨.upper name, span, lexeme⟩ :: rest)) name rest := .ok

theorem gives_expectLower :
    Gives (expectLower what (⟨.lower name, span, lexeme⟩ :: rest)) name rest := .ok

end StoneBoard.Parser
