import StoneBoard.Proofs.AsRead
import StoneBoard.Proofs.Grammar
import StoneBoard.Proofs.Readers
import StoneBoard.Proofs.Tiling

/-!
# What is read

Whatever a reader takes off the front of the tokens is derived by the grammar, and what the
reader gives is the tree of the derivation.  So no token is skipped or used twice.  If the tokens
are those of a text, all that is read lies within the text, with names of the language, and a
reader that fails has found a fault of the text.
-/

namespace StoneBoard

namespace Parser

open Grammar List

def Derives {α : Type} (rule : List TokenKind → α → Prop) (tokens : List Token) (value : α)
    (rest : List Token) : Prop :=
  ∃ kinds, Takes kinds tokens rest ∧ rule kinds value

/-- Tokens up to the end of the input, and whatever lies beyond it.  They may be those of a
text. -/
structure Source where
  tokens : List Token
  beyond : List Token
  text : String
  fromText : Prop
  spelled : fromText → Spelled text tokens

/-- The tokens of a source that are still to be read. -/
structure Source.Ahead (source : Source) (rest : List Token) : Prop where
  suffix : rest <:+ source.tokens
  ended : Ended rest

def Source.Place (source : Source) (span : Span) : Prop :=
  ∃ token ∈ source.tokens, token.span = span

variable {src : Source} {tokens rest later : List Token} {kind : TokenKind} {op : BinaryOp}
  {layer : Layer} {span : Span} {lexeme : String} {left right : Expr} {decl : Import}

theorem Source.Place.within (place : src.Place span) (isText : src.fromText) :
    span.Within src.text := by
  obtain ⟨token, member, rfl⟩ := place
  exact (src.spelled isText token member).within

/-- A kind of token that does not end the input. -/
class Inner (kind : TokenKind) : Prop where
  notEnd : kind ≠ .endOfInput

instance {value : Nat} : Inner (.number value) := ⟨nofun⟩

instance {value : String} : Inner (.string value) := ⟨nofun⟩

instance {name : String} : Inner (.upper name) := ⟨nofun⟩

instance {name : String} : Inner (.lower name) := ⟨nofun⟩

instance {word : Keyword} : Inner (.keyword word) := ⟨nofun⟩

instance {sign : Mark} : Inner (.mark sign) := ⟨nofun⟩

namespace Source.Ahead

variable {token : Token}

theorem mem (ahead : src.Ahead (token :: rest)) : token ∈ src.tokens :=
  ahead.suffix.subset mem_cons_self

theorem head (ahead : src.Ahead (token :: rest)) (isText : src.fromText) : token.Spelled src.text :=
  src.spelled isText token ahead.mem

theorem within [Inner token.kind] (ahead : src.Ahead (token :: rest)) (isText : src.fromText) :
    token.span.On src.text :=
  (ahead.head isText).shown Inner.notEnd

theorem tail [Inner token.kind] (ahead : src.Ahead (token :: rest)) : src.Ahead rest := by
  obtain ⟨suffix, ended⟩ := ahead
  cases ended with
  | last atEnd => exact absurd atEnd Inner.notEnd
  | cons _ ended => exact ⟨(suffix_cons ..).trans suffix, ended⟩

theorem exists_cons (ahead : src.Ahead tokens) :
    ∃ kind span lexeme later, tokens = ⟨kind, span, lexeme⟩ :: later := by
  cases ahead.ended <;> exact ⟨_, _, _, _, rfl⟩

/-- What lies beyond the end of the input does not change the next token. -/
theorem next (ahead : src.Ahead tokens) (same : tokens ++ src.beyond = token :: later) :
    ∃ others, tokens = token :: others := by
  obtain ⟨kind, span, lexeme, others, rfl⟩ := ahead.exists_cons
  exact ⟨others, by rw [(List.cons.inj same).1]⟩

theorem unlike (ahead : src.Ahead tokens) (same : tokens ++ src.beyond = token :: later)
    (unlike : ∀ others, tokens = token :: others → False) : False := by
  obtain ⟨others, isNext⟩ := ahead.next same
  exact unlike others isNext

theorem nextKind_append (ahead : src.Ahead tokens) :
    nextKind (tokens ++ src.beyond) = nextKind tokens := by
  obtain ⟨kind, span, lexeme, later, rfl⟩ := ahead.exists_cons
  rfl

theorem nextSpan_append (ahead : src.Ahead tokens) :
    nextSpan (tokens ++ src.beyond) = nextSpan tokens := by
  obtain ⟨kind, span, lexeme, later, rfl⟩ := ahead.exists_cons
  rfl

theorem place (ahead : src.Ahead tokens) : src.Place (nextSpan tokens) := by
  obtain ⟨kind, span, lexeme, later, rfl⟩ := ahead.exists_cons
  exact ⟨_, ahead.mem, rfl⟩

theorem startsLiteral_append (ahead : src.Ahead tokens) :
    startsLiteral (tokens ++ src.beyond) = startsLiteral tokens := by
  obtain ⟨kind, span, lexeme, later, rfl⟩ := ahead.exists_cons
  cases kind with
  | mark sign => cases sign <;> rfl
  | upper name =>
    obtain ⟨kind, span, lexeme, others, rfl⟩ := ahead.tail.exists_cons
    cases kind with
    | mark sign => cases sign <;> rfl
    | _ => rfl
  | _ => rfl

theorem nextSpan_on (ahead : src.Ahead tokens) (starts : startsLiteral tokens = true)
    (isText : src.fromText) : (nextSpan tokens).On src.text := by
  unfold startsLiteral at starts
  split at starts
  · exact ahead.within isText
  · exact ahead.within isText
  · cases starts
  · exact ahead.within isText
  · cases starts

end Source.Ahead

/-- A reader that succeeds gives something good, and has not gone past the end of the input.  If it
fails, it is at a token of the source.  What lies beyond the end of the input makes no
difference. -/
inductive Reads {α : Type} {limit wider : Nat} (source : Source) (good : α → List Token → Prop) :
    Except Error (Parsed α limit) → Except Error (Parsed α wider) → Prop
  | ok {value : α} {rest : List Token} {shorter : rest.length < limit}
      {fewer : (rest ++ source.beyond).length < wider} (isGood : good value rest)
      (ahead : source.Ahead rest) :
      Reads source good (.ok ⟨value, rest, shorter⟩) (.ok ⟨value, rest ++ source.beyond, fewer⟩)
  | error {fault : Error} (found : fault.FoundIn source.Place) :
      Reads source good (.error fault) (.error fault)

namespace Reads

variable {α β : Type} {limit wider other another : Nat} {good : α → List Token → Prop}
  {better : β → List Token → Prop} {what : String}
  {outcome : Except Error (Parsed α limit)} {more : Except Error (Parsed α wider)}

theorem located {cause : Cause} (static : cause.errorClass = .static)
    (ahead : src.Ahead (⟨kind, span, lexeme⟩ :: rest)) :
    Reads src good (.error (.located cause span) : Except Error (Parsed α limit))
      (.error (.located cause span) : Except Error (Parsed α wider)) :=
  .error (.located static ⟨_, ahead.mem, rfl⟩)

theorem expected (ahead : src.Ahead tokens) :
    Reads src good (.error (expected what tokens) : Except Error (Parsed α limit))
      (.error (Parser.expected what (tokens ++ src.beyond)) : Except Error (Parsed α wider)) := by
  rw [Parser.expected, Parser.expected, ahead.nextKind_append, ahead.nextSpan_append]
  exact .error (.located rfl ahead.place)

theorem unexpected (ahead : src.Ahead tokens) :
    Reads src good (.error (unexpected tokens) : Except Error (Parsed α limit))
      (.error (Parser.unexpected (tokens ++ src.beyond)) : Except Error (Parsed α wider)) := by
  rw [Parser.unexpected, Parser.unexpected, ahead.nextKind_append, ahead.nextSpan_append]
  exact .error (.located rfl ahead.place)

theorem mono {best : α → List Token → Prop} (reads : Reads src good outcome more)
    (implies : ∀ value rest, good value rest → best value rest) : Reads src best outcome more := by
  cases reads with
  | ok isGood ahead => exact .ok (implies _ _ isGood) ahead
  | error found => exact .error found

theorem bind {next : Parsed α limit → Except Error (Parsed β other)}
    {follow : Parsed α wider → Except Error (Parsed β another)}
    (reads : Reads src good outcome more)
    (continues : ∀ value rest shorter fewer, good value rest → src.Ahead rest →
      Reads src better (next ⟨value, rest, shorter⟩) (follow ⟨value, rest ++ src.beyond, fewer⟩)) :
    Reads src better (outcome >>= next) (more >>= follow) := by
  cases reads with
  | ok isGood ahead => exact continues _ _ _ _ isGood ahead
  | error found => exact .error found

theorem of_gives {value : α} (reads : Reads src good outcome more)
    (gives : Gives outcome value rest) : good value rest := by
  obtain ⟨shorter, rfl⟩ := gives
  cases reads with
  | ok isGood ahead => exact isGood

end Reads

/-- Something has been read: a rule derives it up to places, and if the tokens are those of a
text, it is as it is read from there. -/
structure IsRead {α β : Type} (source : Source) (rule : List TokenKind → β → Prop) (view : α → β)
    (asRead : (Span → Prop) → α → Prop) (tokens : List Token) (value : α) (rest : List Token) :
    Prop where
  derives : Derives rule tokens (view value) rest
  asRead : source.fromText → asRead (Span.On source.text) value

abbrev ExprRead (source : Source) (layer : Layer) : List Token → Expr → List Token → Prop :=
  IsRead source (Expression layer) Expr.unplaced Expr.AsRead

/-! ## Operators -/

/-- How an operator is written, in which layer, and from which layers its operands come. -/
structure Joins (op : BinaryOp) (kind : TokenKind) (layer left right : Layer) : Prop where
  token : op.token = kind
  layer : op.layer = layer
  left : op.leftLayer = left
  right : op.rightLayer = right

theorem joins_of_comparisonOp? (isOp : comparisonOp? kind = some op) :
    Joins op kind .comparison .sum .sum := by
  unfold comparisonOp? at isOp
  split at isOp <;> cases isOp <;> exact ⟨rfl, rfl, rfl, rfl⟩

theorem joins_of_sumOp? (isOp : sumOp? kind = some op) : Joins op kind .sum .sum .product := by
  unfold sumOp? at isOp
  split at isOp <;> cases isOp <;> exact ⟨rfl, rfl, rfl, rfl⟩

theorem joins_of_productOp? (isOp : productOp? kind = some op) :
    Joins op kind .product .product .signed := by
  unfold productOp? at isOp
  split at isOp <;> cases isOp <;> exact ⟨rfl, rfl, rfl, rfl⟩

theorem Joins.inner {left right : Layer} (joins : Joins op kind layer left right) : Inner kind :=
  ⟨joins.token ▸ op.token_ne_endOfInput⟩

theorem Joins.read {leftLayer rightLayer : Layer} (joins : Joins op kind layer leftLayer rightLayer)
    (first : ExprRead src leftLayer tokens left (⟨kind, span, lexeme⟩ :: later))
    (second : ExprRead src rightLayer later right rest) :
    ExprRead src layer tokens (joinBinary op left right) rest := by
  obtain ⟨rfl, rfl, rfl, rfl⟩ := joins
  obtain ⟨⟨lefts, takesLeft, derivesLeft⟩, leftRead⟩ := first
  obtain ⟨⟨rights, takesRight, derivesRight⟩, rightRead⟩ := second
  exact ⟨⟨_, takesLeft.follow takesRight, .binary op derivesLeft derivesRight⟩, fun isValid =>
    ⟨leftRead isValid, rightRead isValid,
      (leftRead isValid).within.extend (rightRead isValid).within⟩⟩

namespace IsRead

theorem logical (op : LogicalOp)
    (first : ExprRead src op.layer.next tokens left (⟨op.token, span, lexeme⟩ :: later))
    (second : ExprRead src op.layer later right rest) :
    ExprRead src op.layer tokens (joinLogical op left right) rest := by
  obtain ⟨⟨lefts, takesLeft, derivesLeft⟩, leftRead⟩ := first
  obtain ⟨⟨rights, takesRight, derivesRight⟩, rightRead⟩ := second
  exact ⟨⟨_, takesLeft.follow takesRight, .logical op derivesLeft derivesRight⟩, fun isValid =>
    ⟨leftRead isValid, rightRead isValid,
      (leftRead isValid).within.extend (rightRead isValid).within⟩⟩

theorem tighter {expr : Expr} (read : ExprRead src layer.next tokens expr rest) :
    ExprRead src layer tokens expr rest := by
  obtain ⟨⟨kinds, takes, inner⟩, asRead⟩ := read
  exact ⟨⟨kinds, takes, .tighter inner⟩, asRead⟩

section Listed

variable {α β : Type} {rule : List TokenKind → β → Prop} {view : α → β} {value : α}
  {asRead : (Span → Prop) → α → Prop} {views : List α → List β}
  {asReadAll : (Span → Prop) → List α → Prop}

theorem one (read : IsRead src rule view asRead tokens value rest)
    (viewed : views [value] = [view value])
    (all : ∀ {places}, asRead places value → asReadAll places [value]) :
    IsRead src (Listed rule) views asReadAll tokens [value] rest := by
  obtain ⟨⟨kinds, takes, derives⟩, isRead⟩ := read
  exact ⟨⟨kinds, takes, viewed ▸ .one derives⟩, fun isValid => all (isRead isValid)⟩

theorem more {others : List α}
    (read : IsRead src rule view asRead tokens value (⟨.mark .comma, span, lexeme⟩ :: later))
    (othersRead : IsRead src (Listed rule) views asReadAll later others rest)
    (viewed : views (value :: others) = view value :: views others)
    (all : ∀ {places}, asRead places value → asReadAll places others →
      asReadAll places (value :: others)) :
    IsRead src (Listed rule) views asReadAll tokens (value :: others) rest := by
  obtain ⟨⟨kinds, takes, derives⟩, isRead⟩ := read
  obtain ⟨⟨otherKinds, takesOthers, listed⟩, areRead⟩ := othersRead
  exact ⟨⟨_, takes.follow takesOthers, viewed ▸ .more derives listed⟩,
    fun isValid => all (isRead isValid) (areRead isValid)⟩

end Listed

end IsRead

/-! ## Expressions -/

/-- Arguments up to a token that closes them. -/
def ClosedBy (closing : TokenKind) (kinds : List TokenKind) (items : List Expr) : Prop :=
  ∃ inside, kinds = inside ++ [closing] ∧ Arguments inside items

abbrev ArgumentsRead (source : Source) (closing : TokenKind) :
    List Token → List Expr × Span → List Token → Prop :=
  IsRead source (ClosedBy closing) (fun read => Expr.unplacedAll read.1)
    fun places read => Expr.AsReadAll places read.1 ∧ places read.2

theorem argumentsRead_none [Inner kind] (ahead : src.Ahead (⟨kind, span, lexeme⟩ :: rest)) :
    ArgumentsRead src kind (⟨kind, span, lexeme⟩ :: rest) ([], span) rest :=
  ⟨⟨_, .single, [], rfl, .none⟩, fun isValid => ⟨trivial, ahead.within isValid⟩⟩

theorem expect_reads (kind : TokenKind) [Inner kind] (what : String) (ahead : src.Ahead tokens) :
    Reads src (fun span rest => ∃ lexeme, tokens = ⟨kind, span, lexeme⟩ :: rest)
      (expect kind what tokens) (expect kind what (tokens ++ src.beyond)) := by
  obtain ⟨found, span, lexeme, later, rfl⟩ := ahead.exists_cons
  simp only [expect, cons_append]
  split
  next isKind =>
    subst isKind
    exact .ok ⟨lexeme, rfl⟩ ahead.tail
  next => exact .expected ahead

theorem argumentsRead_some {items : List Expr} {closing : Span}
    (read : IsRead src (Listed AnyExpression) Expr.unplacedAll Expr.AsReadAll
      tokens items (⟨kind, closing, lexeme⟩ :: rest))
    (within : src.fromText → closing.On src.text) :
    ArgumentsRead src kind tokens (items, closing) rest := by
  obtain ⟨⟨kinds, takes, listed⟩, asRead⟩ := read
  exact ⟨⟨_, takes.follow .nil, kinds, rfl, .some listed⟩,
    fun isValid => ⟨asRead isValid, within isValid⟩⟩

mutual

theorem disjunction_reads (tokens : List Token) (ahead : src.Ahead tokens) :
    Reads src (ExprRead src .disjunction tokens) (disjunction tokens)
      (disjunction (tokens ++ src.beyond)) := by
  rw [disjunction, disjunction]
  refine (conjunction_reads tokens ahead).bind fun left rest shorter _ leftRead onward => ?_
  dsimp only
  split
  next later shorter _ =>
    have fewer : later.length < tokens.length := Nat.lt_of_succ_lt shorter
    refine (disjunction_reads later onward.tail).bind
      fun right last _ _ rightRead final => ?_
    exact .ok (.logical .or leftRead rightRead) final
  next unlike =>
    split
    next same _ =>
      obtain ⟨_, rfl⟩ := onward.next same
      exact (unlike _ _ _ _ rfl .rfl).elim
    next => exact .ok leftRead.tighter onward
termination_by 12 * tokens.length + 9

theorem conjunction_reads (tokens : List Token) (ahead : src.Ahead tokens) :
    Reads src (ExprRead src .conjunction tokens) (conjunction tokens)
      (conjunction (tokens ++ src.beyond)) := by
  rw [conjunction, conjunction]
  refine (negation_reads tokens ahead).bind fun left rest shorter _ leftRead onward => ?_
  dsimp only
  split
  next later shorter _ =>
    have fewer : later.length < tokens.length := Nat.lt_of_succ_lt shorter
    refine (conjunction_reads later onward.tail).bind
      fun right last _ _ rightRead final => ?_
    exact .ok (.logical .and leftRead rightRead) final
  next unlike =>
    split
    next same _ =>
      obtain ⟨_, rfl⟩ := onward.next same
      exact (unlike _ _ _ _ rfl .rfl).elim
    next => exact .ok leftRead.tighter onward
termination_by 12 * tokens.length + 8

theorem negation_reads (tokens : List Token) (ahead : src.Ahead tokens) :
    Reads src (ExprRead src .negation tokens) (negation tokens)
      (negation (tokens ++ src.beyond)) := by
  obtain ⟨count, counted⟩ := @exists_eq _ tokens.length
  rw [negation.eq_def tokens]
  split
  next span lexeme later =>
    rw [cons_append, negation]
    refine (negation_reads later ahead.tail).bind ?_
    rintro operand rest _ _ ⟨⟨kinds, takes, inner⟩, asRead⟩ onward
    exact .ok ⟨⟨_, takes.cons, .not inner⟩, fun isValid =>
      ⟨asRead isValid, (ahead.within isValid).extend (asRead isValid).within⟩⟩ onward
  next unlike =>
    rw [negation.eq_2 _ fun _ _ _ same => ahead.unlike same (unlike _ _)]
    exact (comparison_reads tokens ahead).mono fun _ _ read => read.tighter
termination_by 12 * tokens.length + 7
decreasing_by all_goals simp only [length_cons] at *; omega

theorem comparison_reads (tokens : List Token) (ahead : src.Ahead tokens) :
    Reads src (ExprRead src .comparison tokens) (comparison tokens)
      (comparison (tokens ++ src.beyond)) := by
  rw [comparison, comparison]
  refine (sum_reads tokens ahead).bind fun left rest shorter _ leftRead onward => ?_
  obtain ⟨kind, span, lexeme, later, rfl⟩ := onward.exists_cons
  have fewer : later.length < tokens.length := Nat.lt_of_succ_lt shorter
  dsimp only [cons_append]
  cases isOp : comparisonOp? kind with
  | none => exact .ok leftRead.tighter onward
  | some op =>
    have joins := joins_of_comparisonOp? isOp
    have := joins.inner
    refine (sum_reads later onward.tail).bind
      fun right last _ _ rightRead final => ?_
    exact .ok (joins.read leftRead rightRead) final
termination_by 12 * tokens.length + 6

theorem sum_reads (tokens : List Token) (ahead : src.Ahead tokens) :
    Reads src (ExprRead src .sum tokens) (sum tokens) (sum (tokens ++ src.beyond)) := by
  rw [sum, sum]
  refine (product_reads tokens ahead).bind fun left rest shorter _ leftRead onward => ?_
  refine (sumTail_reads tokens left rest leftRead.tighter onward).bind
    fun whole last _ _ wholeRead final => ?_
  exact .ok wholeRead final
termination_by 12 * tokens.length + 5

theorem sumTail_reads (all : List Token) (left : Expr) (tokens : List Token)
    (leftRead : ExprRead src .sum all left tokens) (ahead : src.Ahead tokens) :
    Reads src (ExprRead src .sum all) (sumTail left tokens)
      (sumTail left (tokens ++ src.beyond)) := by
  obtain ⟨count, counted⟩ := @exists_eq _ tokens.length
  obtain ⟨kind, span, lexeme, later, rfl⟩ := ahead.exists_cons
  rw [sumTail.eq_def, sumTail.eq_def]
  dsimp only [cons_append]
  cases isOp : sumOp? kind with
  | none => exact .ok leftRead ahead
  | some op =>
    have joins := joins_of_sumOp? isOp
    have := joins.inner
    refine (product_reads later ahead.tail).bind
      fun right rest shorter _ rightRead onward => ?_
    refine (sumTail_reads all _ rest (joins.read leftRead rightRead) onward).bind
      fun whole last _ _ wholeRead final => ?_
    exact .ok wholeRead final
termination_by 12 * tokens.length + 5
decreasing_by all_goals simp only [length_cons] at *; omega

theorem product_reads (tokens : List Token) (ahead : src.Ahead tokens) :
    Reads src (ExprRead src .product tokens) (product tokens) (product (tokens ++ src.beyond)) := by
  rw [product, product]
  refine (signed_reads tokens ahead).bind fun left rest shorter _ leftRead onward => ?_
  refine (productTail_reads tokens left rest leftRead.tighter onward).bind
    fun whole last _ _ wholeRead final => ?_
  exact .ok wholeRead final
termination_by 12 * tokens.length + 4

theorem productTail_reads (all : List Token) (left : Expr) (tokens : List Token)
    (leftRead : ExprRead src .product all left tokens) (ahead : src.Ahead tokens) :
    Reads src (ExprRead src .product all) (productTail left tokens)
      (productTail left (tokens ++ src.beyond)) := by
  obtain ⟨count, counted⟩ := @exists_eq _ tokens.length
  obtain ⟨kind, span, lexeme, later, rfl⟩ := ahead.exists_cons
  rw [productTail.eq_def, productTail.eq_def]
  dsimp only [cons_append]
  cases isOp : productOp? kind with
  | none => exact .ok leftRead ahead
  | some op =>
    have joins := joins_of_productOp? isOp
    have := joins.inner
    refine (signed_reads later ahead.tail).bind
      fun right rest shorter _ rightRead onward => ?_
    refine (productTail_reads all _ rest (joins.read leftRead rightRead) onward).bind
      fun whole last _ _ wholeRead final => ?_
    exact .ok wholeRead final
termination_by 12 * tokens.length + 4
decreasing_by all_goals simp only [length_cons] at *; omega

theorem signed_reads (tokens : List Token) (ahead : src.Ahead tokens) :
    Reads src (ExprRead src .signed tokens) (signed tokens) (signed (tokens ++ src.beyond)) := by
  obtain ⟨count, counted⟩ := @exists_eq _ tokens.length
  rw [signed.eq_def tokens]
  split
  next span lexeme later =>
    rw [cons_append, signed]
    refine (signed_reads later ahead.tail).bind ?_
    rintro operand rest _ _ ⟨⟨kinds, takes, inner⟩, asRead⟩ onward
    exact .ok ⟨⟨_, takes.cons, .negate inner⟩, fun isValid =>
      ⟨asRead isValid, (ahead.within isValid).extend (asRead isValid).within, rfl⟩⟩ onward
  next unlike =>
    rw [signed.eq_2 _ fun _ _ _ same => ahead.unlike same (unlike _ _)]
    exact (power_reads tokens ahead).mono fun _ _ read => read.tighter
termination_by 12 * tokens.length + 3
decreasing_by all_goals simp only [length_cons] at *; omega

theorem power_reads (tokens : List Token) (ahead : src.Ahead tokens) :
    Reads src (ExprRead src .power tokens) (power tokens) (power (tokens ++ src.beyond)) := by
  rw [power, power]
  refine (atom_reads tokens ahead).bind fun base rest shorter _ baseRead onward => ?_
  dsimp only
  split
  next later shorter _ =>
    have fewer : later.length < tokens.length := Nat.lt_of_succ_lt shorter
    refine (signed_reads later onward.tail).bind
      fun exponent last _ _ exponentRead final => ?_
    have joins : Joins .power (.mark .caret) .power .atom .signed := ⟨rfl, rfl, rfl, rfl⟩
    exact .ok (joins.read baseRead exponentRead) final
  next unlike =>
    split
    next same _ =>
      obtain ⟨_, rfl⟩ := onward.next same
      exact (unlike _ _ _ _ rfl .rfl).elim
    next => exact .ok baseRead.tighter onward
termination_by 12 * tokens.length + 2

theorem atom_reads (tokens : List Token) (ahead : src.Ahead tokens) :
    Reads src (ExprRead src .atom tokens) (atom tokens) (atom (tokens ++ src.beyond)) := by
  obtain ⟨count, counted⟩ := @exists_eq _ tokens.length
  rw [atom.eq_def, atom.eq_def]
  split
  next value _ _ _ => exact .ok ⟨⟨_, .single, .number value⟩, ahead.within⟩ ahead.tail
  next name _ _ _ =>
    dsimp only [cons_append]
    split
    next known => exact .ok ⟨⟨_, .single, .constant known⟩, ahead.within⟩ ahead.tail
    next => exact .located rfl ahead
  next name _ _ _ _ later =>
    refine (arguments_reads later ahead.tail.tail).bind ?_
    rintro read rest _ _ ⟨⟨_, takes, kinds, rfl, listed⟩, asRead⟩ onward
    exact .ok ⟨⟨_, takes.cons.cons, .call name listed⟩, fun isValid =>
      ⟨(asRead isValid).1, (ahead.within isValid).extend (asRead isValid).2, rfl⟩⟩ onward
  next name _ _ rest unlike =>
    rw [← atom.eq_def, cons_append,
      atom.eq_4 _ _ _ _ fun _ _ _ same => ahead.tail.unlike same (unlike _ _)]
    exact .ok ⟨⟨_, .single, .variableRef name⟩, fun isValid =>
      ⟨(ahead.head isValid).lower name rfl, ahead.within isValid⟩⟩ ahead.tail
  next _ _ later =>
    refine (disjunction_reads later ahead.tail).bind ?_
    rintro inner rest _ _ ⟨⟨kinds, takes, derives⟩, asRead⟩ onward
    refine (expect_reads _ _ onward).bind ?_
    rintro _ last _ _ ⟨_, rfl⟩ final
    exact .ok ⟨⟨_, (takes.follow .nil).cons, .enclosed derives⟩, asRead⟩ final
  next _ _ later =>
    refine (elements_reads later ahead.tail).bind ?_
    rintro read rest _ _ ⟨⟨_, takes, kinds, rfl, listed⟩, asRead⟩ onward
    refine .ok ⟨⟨_, takes.cons, ?_⟩, fun isValid => ?_⟩ onward
    · rw [Expr.unplaced_listOf]
      exact .list listed
    · exact Expr.asRead_listOf (asRead isValid).1 ((ahead.within isValid).extend (asRead isValid).2)
  next =>
    generalize same : tokens ++ src.beyond = wide
    split
    on_goal 7 => exact same ▸ .unexpected ahead
    all_goals
      obtain ⟨_, rfl⟩ := ahead.next same
      exfalso
      solve_by_elim
termination_by 12 * tokens.length + 1
decreasing_by all_goals simp only [length_cons] at *; omega

theorem expressions_reads (tokens : List Token) (ahead : src.Ahead tokens) :
    Reads src (IsRead src (Listed AnyExpression) Expr.unplacedAll
      Expr.AsReadAll tokens) (expressions tokens) (expressions (tokens ++ src.beyond)) := by
  rw [expressions, expressions]
  refine (disjunction_reads tokens ahead).bind fun first rest shorter _ firstRead onward => ?_
  dsimp only
  split
  next later shorter _ =>
    have fewer : later.length < tokens.length := Nat.lt_of_succ_lt shorter
    refine (expressions_reads later onward.tail).bind
      fun others last _ _ othersRead final => ?_
    exact .ok (firstRead.more othersRead rfl .intro) final
  next unlike =>
    split
    next same _ =>
      obtain ⟨_, rfl⟩ := onward.next same
      exact (unlike _ _ _ _ rfl .rfl).elim
    next => exact .ok (firstRead.one rfl (⟨·, trivial⟩)) onward
termination_by 12 * tokens.length + 10

theorem arguments_reads (tokens : List Token) (ahead : src.Ahead tokens) :
    Reads src (ArgumentsRead src (.mark .rightParen) tokens) (arguments tokens)
      (arguments (tokens ++ src.beyond)) := by
  rw [arguments.eq_def tokens]
  split
  next =>
    rw [cons_append, arguments]
    exact .ok (argumentsRead_none ahead) ahead.tail
  next unlike =>
    rw [arguments.eq_2 _ fun _ _ _ same => ahead.unlike same (unlike _ _)]
    refine (expressions_reads tokens ahead).bind fun items rest _ _ itemsRead onward => ?_
    refine (expect_reads _ _ onward).bind ?_
    rintro closing last _ _ ⟨_, rfl⟩ final
    exact .ok (argumentsRead_some itemsRead onward.within) final
termination_by 12 * tokens.length + 11

theorem elements_reads (tokens : List Token) (ahead : src.Ahead tokens) :
    Reads src (ArgumentsRead src (.mark .rightBracket) tokens) (elements tokens)
      (elements (tokens ++ src.beyond)) := by
  rw [elements.eq_def tokens]
  split
  next =>
    rw [cons_append, elements]
    exact .ok (argumentsRead_none ahead) ahead.tail
  next unlike =>
    rw [elements.eq_2 _ fun _ _ _ same => ahead.unlike same (unlike _ _)]
    refine (expressions_reads tokens ahead).bind fun items rest _ _ itemsRead onward => ?_
    refine (expect_reads _ _ onward).bind ?_
    rintro closing last _ _ ⟨_, rfl⟩ final
    exact .ok (argumentsRead_some itemsRead onward.within) final
termination_by 12 * tokens.length + 11

end

/-! ## Commands -/

theorem expectLower_reads (what : String) (ahead : src.Ahead tokens) :
    Reads src (IsRead src VariableName id (fun _ => IsIdentifier) tokens)
      (expectLower what tokens) (expectLower what (tokens ++ src.beyond)) := by
  unfold expectLower
  split
  next name _ _ _ =>
    exact .ok ⟨⟨_, .single, .intro name⟩, fun isValid => (ahead.head isValid).lower name rfl⟩
      ahead.tail
  next =>
    generalize same : tokens ++ src.beyond = wide
    split
    on_goal 2 => exact same ▸ .expected ahead
    all_goals
      obtain ⟨_, rfl⟩ := ahead.next same
      exfalso
      solve_by_elim

theorem expectUpper_reads (what : String) (ahead : src.Ahead tokens) :
    Reads src (fun name rest => Takes [.upper name] tokens rest ∧
      (src.fromText → IsIdentifier name)) (expectUpper what tokens)
      (expectUpper what (tokens ++ src.beyond)) := by
  unfold expectUpper
  split
  next name _ _ _ =>
    exact .ok ⟨.single, fun isValid => (ahead.head isValid).upper name rfl⟩ ahead.tail
  next =>
    generalize same : tokens ++ src.beyond = wide
    split
    on_goal 2 => exact same ▸ .expected ahead
    all_goals
      obtain ⟨_, rfl⟩ := ahead.next same
      exfalso
      solve_by_elim

theorem literal_reads (ahead : src.Ahead tokens) :
    Reads src (IsRead src Literal id (fun _ _ => True) tokens) (literal tokens)
      (literal (tokens ++ src.beyond)) := by
  unfold literal
  split
  next number _ _ _ =>
    exact .ok ⟨⟨_, Takes.single.cons, .negative number⟩, fun _ => trivial⟩ ahead.tail.tail
  next unlike =>
    rw [← literal.eq_def, cons_append,
      literal.eq_2 _ _ _ fun _ _ _ _ same => ahead.tail.unlike same (unlike _ _ _)]
    exact .expected ahead.tail
  next number _ _ _ =>
    exact .ok ⟨⟨_, .single, .number number⟩, fun _ => trivial⟩ ahead.tail
  next =>
    dsimp only [cons_append]
    split
    next known => exact .ok ⟨⟨_, .single, .constant known⟩, fun _ => trivial⟩ ahead.tail
    next => exact .located rfl ahead
  next =>
    generalize same : tokens ++ src.beyond = wide
    split
    on_goal 5 => exact same ▸ .expected ahead
    all_goals
      obtain ⟨_, rfl⟩ := ahead.next same
      exfalso
      solve_by_elim

theorem literals_reads (tokens : List Token) (ahead : src.Ahead tokens) :
    Reads src (IsRead src (Listed Literal) id (fun _ _ => True) tokens)
      (literals tokens) (literals (tokens ++ src.beyond)) := by
  rw [literals, literals]
  refine (literal_reads ahead).bind fun first rest shorter _ firstRead onward => ?_
  dsimp only
  split
  next later shorter _ =>
    have fewer : later.length < tokens.length := Nat.lt_of_succ_lt shorter
    refine (literals_reads later onward.tail).bind
      fun others last _ _ othersRead final => ?_
    exact .ok (firstRead.more othersRead rfl fun _ _ => trivial) final
  next unlike =>
    split
    next same _ =>
      obtain ⟨_, rfl⟩ := onward.next same
      exact (unlike _ _ _ _ rfl .rfl).elim
    next => exact .ok (firstRead.one rfl fun _ => trivial) onward
termination_by tokens.length

abbrev NamesRead (source : Source) (rule : List TokenKind → List String → Prop) :
    List Token → List String → List Token → Prop :=
  IsRead source rule id fun _ names => ∀ name ∈ names, IsIdentifier name

theorem variableNames_reads (what : String) (tokens : List Token) (ahead : src.Ahead tokens) :
    Reads src (NamesRead src (Listed VariableName) tokens) (variableNames what tokens)
      (variableNames what (tokens ++ src.beyond)) := by
  rw [variableNames, variableNames]
  refine (expectLower_reads what ahead).bind fun first rest shorter _ firstRead onward => ?_
  dsimp only
  split
  next later shorter _ =>
    have fewer : later.length < tokens.length := Nat.lt_of_succ_lt shorter
    refine (variableNames_reads what later onward.tail).bind
      fun others last _ _ othersRead final => ?_
    refine .ok (firstRead.more othersRead rfl fun isName areNames => ?_) final
    exact List.forall_mem_cons.mpr ⟨isName, areNames⟩
  next unlike =>
    split
    next same _ =>
      obtain ⟨_, rfl⟩ := onward.next same
      exact (unlike _ _ _ _ rfl .rfl).elim
    next => exact .ok (firstRead.one rfl (by simp)) onward
termination_by tokens.length

abbrev CommandRead (source : Source) : List Token → Stmt → List Token → Prop :=
  IsRead source Grammar.Command Stmt.unplaced Stmt.AsRead

theorem simpleStatement_reads (ahead : src.Ahead tokens) :
    Reads src (CommandRead src tokens) (simpleStatement tokens)
      (simpleStatement (tokens ++ src.beyond)) := by
  unfold simpleStatement
  split
  next => exact .ok ⟨⟨_, .single, .skip⟩, ahead.within⟩ ahead.tail
  next =>
    refine (expect_reads _ _ ahead.tail).bind ?_
    rintro _ rest shorter _ ⟨_, rfl⟩ onward
    dsimp only
    split
    next =>
      refine (expect_reads _ _ onward.tail).bind ?_
      rintro _ last _ _ ⟨_, rfl⟩ final
      exact .ok ⟨⟨_, Takes.single.cons.cons.cons, .boom _⟩, ahead.within⟩ final
    next unlike =>
      split
      next same _ =>
        obtain ⟨_, rfl⟩ := onward.next same
        exact (unlike _ _ _ _ _ rfl .rfl).elim
      next => exact .expected onward
  next =>
    refine (expect_reads _ _ ahead.tail).bind ?_
    rintro _ rest _ _ ⟨_, rfl⟩ onward
    refine (arguments_reads rest onward).bind ?_
    rintro read last _ _ ⟨⟨_, takes, kinds, rfl, listed⟩, asRead⟩ final
    exact .ok ⟨⟨_, takes.cons.cons, .returns listed⟩, fun isValid =>
      ⟨(asRead isValid).1, ahead.within isValid, rfl⟩⟩ final
  next =>
    refine (variableNames_reads _ _ ahead.tail).bind ?_
    rintro names rest _ _ ⟨⟨targets, takesTargets, listed⟩, areNames⟩ onward
    refine (expect_reads _ _ onward).bind ?_
    rintro _ rest _ _ ⟨_, rfl⟩ onward
    refine (expect_reads _ _ onward).bind ?_
    rintro _ rest _ _ ⟨_, rfl⟩ onward
    refine (disjunction_reads rest onward).bind ?_
    rintro value last _ _ ⟨⟨kinds, takes, derives⟩, asRead⟩ final
    refine .ok ⟨⟨_, ?_, .tupleAssign listed derives⟩, fun isValid =>
      ⟨areNames isValid, asRead isValid, ahead.within isValid⟩⟩ final
    exact Takes.append (takesTargets.follow .nil).cons takes.cons
  next name _ _ _ =>
    refine (expect_reads _ _ ahead.tail).bind ?_
    rintro _ rest _ _ ⟨_, rfl⟩ onward
    refine (arguments_reads rest onward).bind ?_
    rintro read last _ _ ⟨⟨_, takes, kinds, rfl, listed⟩, asRead⟩ final
    exact .ok ⟨⟨_, takes.cons.cons, .procedureCall name listed⟩, fun isValid =>
      ⟨(asRead isValid).1, (ahead.within isValid).extend (asRead isValid).2⟩⟩ final
  next name _ _ _ =>
    refine (expect_reads _ _ ahead.tail).bind ?_
    rintro _ rest _ _ ⟨_, rfl⟩ onward
    refine (disjunction_reads rest onward).bind ?_
    rintro value last _ _ ⟨⟨kinds, takes, derives⟩, asRead⟩ final
    exact .ok ⟨⟨_, takes.cons.cons, .assign name derives⟩, fun isValid =>
      ⟨(ahead.head isValid).lower name rfl, asRead isValid, ahead.within isValid⟩⟩ final
  next =>
    generalize same : tokens ++ src.beyond = wide
    split
    on_goal 7 => exact same ▸ .unexpected ahead
    all_goals
      obtain ⟨_, rfl⟩ := ahead.next same
      exfalso
      solve_by_elim

theorem skipSemicolons_reads (ahead : src.Ahead tokens) :
    skipSemicolons (tokens ++ src.beyond) = skipSemicolons tokens ++ src.beyond ∧
      src.Ahead (skipSemicolons tokens) ∧
      ∃ count, Takes (List.replicate count (.mark .semicolon)) tokens (skipSemicolons tokens) := by
  obtain ⟨suffix, ended⟩ := ahead
  induction ended with
  | @last token atEnd =>
    have stays : ∀ rest, skipSemicolons (token :: rest) = token :: rest := fun rest =>
      dropWhile_cons_of_neg (by simp [isSemicolon, atEnd])
    rw [cons_append, stays, stays]
    exact ⟨rfl, ⟨suffix, .last atEnd⟩, 0, .nil⟩
  | @cons token rest notEnd ended ih =>
    by_cases skipped : isSemicolon token = true
    · obtain ⟨same, ahead, count, takes⟩ := ih ((suffix_cons ..).trans suffix)
      simp only [skipSemicolons, cons_append, dropWhile_cons_of_pos skipped]
      refine ⟨same, ahead, count + 1, ?_⟩
      obtain ⟨kind, span, lexeme⟩ := token
      obtain rfl : kind = .mark .semicolon := by simpa [isSemicolon] using skipped
      exact takes.cons
    · simp only [skipSemicolons, cons_append, dropWhile_cons_of_neg skipped]
      exact ⟨trivial, ⟨suffix, .cons notEnd ended⟩, 0, .nil⟩

def Braced (kinds : List TokenKind) (body : List Stmt) : Prop :=
  ∃ inside, kinds = braced inside ∧ Commands inside body

def Choice (kinds : List TokenKind) (command : Stmt) : Prop :=
  Grammar.Command (.keyword .ifWord :: kinds) command ∧
    ∃ condition body other, command = .ifElse condition body other .nowhere

mutual

theorem block_reads (tokens : List Token) (ahead : src.Ahead tokens) :
    Reads src (IsRead src Braced (fun read => Stmt.unplacedAll read.1)
      (fun places read => Stmt.AsReadAll places read.1 ∧ places read.2) tokens)
      (block tokens) (block (tokens ++ src.beyond)) := by
  rw [block, block]
  refine (expect_reads _ _ ahead).bind ?_
  rintro _ inside shorter _ ⟨_, rfl⟩ insideAhead
  refine (statements_reads inside insideAhead).bind ?_
  rintro body rest _ _ ⟨⟨kinds, takes, commands⟩, asRead⟩ onward
  refine (expect_reads _ _ onward).bind ?_
  rintro closing last _ _ ⟨_, rfl⟩ final
  exact .ok ⟨⟨_, (takes.follow .nil).cons, kinds, rfl, commands⟩, fun isValid =>
    ⟨asRead isValid, onward.within isValid⟩⟩ final
termination_by 4 * tokens.length
decreasing_by all_goals simp only [length_cons] at *; omega

theorem statements_reads (tokens : List Token) (ahead : src.Ahead tokens) :
    Reads src (IsRead src Commands Stmt.unplacedAll Stmt.AsReadAll tokens) (statements tokens)
      (statements (tokens ++ src.beyond)) := by
  rw [statements, statements]
  rw [ahead.nextKind_append]
  split
  next => exact .ok ⟨⟨[], .nil, .nil⟩, fun _ => trivial⟩ ahead
  next =>
    refine (statement_reads tokens ahead).bind ?_
    rintro first rest shorter _ ⟨⟨kinds, takes, command⟩, asRead⟩ onward
    have notLonger := skipSemicolons_length_le rest
    obtain ⟨same, skippedAhead, count, takesSemicolons⟩ := skipSemicolons_reads onward
    have othersReads := statements_reads _ skippedAhead
    rw [← same] at othersReads
    refine othersReads.bind ?_
    rintro others last _ _ ⟨⟨otherKinds, takesOthers, commands⟩, othersRead⟩ final
    have takesAll := (takes.append takesSemicolons).append takesOthers
    exact .ok ⟨⟨_, takesAll, .cons command count commands⟩, fun isValid =>
      ⟨asRead isValid, othersRead isValid⟩⟩ final
termination_by 4 * tokens.length + 3

theorem statement_reads (tokens : List Token) (ahead : src.Ahead tokens) :
    Reads src (CommandRead src tokens) (statement tokens) (statement (tokens ++ src.beyond)) := by
  obtain ⟨count, counted⟩ := @exists_eq _ tokens.length
  rw [statement.eq_def, statement.eq_def]
  split
  next span _ later =>
    refine (conditional_reads ahead.within later ahead.tail).bind ?_
    rintro choice rest _ _ ⟨⟨kinds, takes, command, -⟩, asRead⟩ onward
    exact .ok ⟨⟨_, takes.cons, command⟩, asRead⟩ onward
  next span _ later =>
    refine (disjunction_reads later ahead.tail).bind ?_
    rintro cond rest shorter _ ⟨⟨conditions, takes, tested⟩, conditionRead⟩ onward
    refine (block_reads rest onward).bind ?_
    rintro read last _ _ ⟨⟨_, takesBody, inside, rfl, commands⟩, bodyRead⟩ final
    exact .ok ⟨⟨_, (takes.append takesBody).cons, .whileLoop tested commands⟩, fun isValid =>
      ⟨conditionRead isValid, (bodyRead isValid).1, ahead.within isValid⟩⟩ final
  next span _ later =>
    refine (expectLower_reads _ ahead.tail).bind ?_
    rintro index rest shorter _ ⟨⟨_, takesIndex, ⟨⟩⟩, isName⟩ onward
    refine (expect_reads _ _ onward).bind ?_
    rintro _ rest shorter _ ⟨_, rfl⟩ onward
    refine (disjunction_reads rest onward).bind ?_
    rintro lower rest shorter _ ⟨⟨lowers, takesLower, first⟩, lowerRead⟩ onward
    refine (expect_reads _ _ onward).bind ?_
    rintro _ rest shorter _ ⟨_, rfl⟩ onward
    refine (disjunction_reads rest onward).bind ?_
    rintro upper rest shorter _ ⟨⟨uppers, takesUpper, second⟩, upperRead⟩ onward
    refine (block_reads rest onward).bind ?_
    rintro read last _ _ ⟨⟨_, takesBody, inside, rfl, commands⟩, bodyRead⟩ final
    have takesRange := takesLower.follow (takesUpper.append takesBody)
    exact .ok ⟨⟨_, (takesIndex.append takesRange.cons).cons,
        .repeatWith index first second commands⟩,
      fun isValid => ⟨isName isValid, lowerRead isValid, upperRead isValid, (bodyRead isValid).1,
        ahead.within isValid, rfl⟩⟩ final
  next span _ later =>
    refine (disjunction_reads later ahead.tail).bind ?_
    rintro scrutinee rest shorter _ ⟨⟨scrutinees, takes, examined⟩, scrutineeRead⟩ onward
    refine (expect_reads _ _ onward).bind ?_
    rintro _ rest shorter _ ⟨_, rfl⟩ onward
    refine (branches_reads rest onward).bind ?_
    rintro choices rest shorter _ ⟨⟨chosenKinds, takesChoices, chosen⟩, choicesRead⟩ onward
    refine (caseFallback_reads rest onward).bind ?_
    rintro fallback last shorter _ ⟨⟨others, takesOther, otherwise⟩, fallbackRead⟩ final
    dsimp only
    split
    next => exact .expected final
    next isSome =>
      have takesAll := takes.follow (takesChoices.append takesOther)
      refine .ok ⟨⟨_, takesAll.cons, .caseOf examined chosen otherwise ?_⟩, fun isValid =>
        ⟨scrutineeRead isValid, choicesRead isValid, fallbackRead isValid,
          ahead.within isValid⟩⟩ final
      rw [ne_eq, ne_eq, Stmt.unplacedBranches_eq_nil, Stmt.unplacedOptional_eq_none,
        ← Decidable.not_and_iff_not_or_not]
      simpa using isSome
  next span lexeme later =>
    refine (block_reads _ ahead).bind ?_
    rintro read rest _ _ ⟨⟨_, takes, inside, rfl, commands⟩, bodyRead⟩ onward
    exact .ok ⟨⟨_, takes, .block commands⟩, fun isValid =>
      ⟨(bodyRead isValid).1, (ahead.within isValid).extend (bodyRead isValid).2⟩⟩ onward
  next =>
    generalize same : tokens ++ src.beyond = wide
    split
    on_goal 6 => exact same ▸ simpleStatement_reads ahead
    all_goals
      obtain ⟨_, rfl⟩ := ahead.next same
      exfalso
      solve_by_elim
termination_by 4 * tokens.length + 2
decreasing_by all_goals simp only [length_cons] at *; omega

theorem conditional_reads {span : Span} (within : src.fromText → span.On src.text) (tokens : List Token)
    (ahead : src.Ahead tokens) : Reads src (IsRead src Choice Stmt.unplaced Stmt.AsRead tokens)
      (conditional span tokens) (conditional span (tokens ++ src.beyond)) := by
  rw [conditional, conditional]
  refine (disjunction_reads tokens ahead).bind ?_
  rintro cond rest shorter _ ⟨⟨conditions, takes, tested⟩, conditionRead⟩ onward
  refine (block_reads rest onward).bind ?_
  rintro read rest shorterStill _ ⟨⟨_, takesBody, inside, rfl, commands⟩, thenRead⟩ onward
  refine (conditionalElse_reads rest onward).bind ?_
  rintro elseBranch last _ _ ⟨⟨others, takesOther, alternative⟩, elseRead⟩ final
  have takesAll := (takes.append takesBody).append takesOther
  exact .ok ⟨⟨_, takesAll, .ifElse tested commands alternative, _, _, _, rfl⟩, fun isValid =>
    ⟨conditionRead isValid, (thenRead isValid).1, elseRead isValid, within isValid⟩⟩ final
termination_by 4 * tokens.length + 1

theorem conditionalElse_reads (tokens : List Token) (ahead : src.Ahead tokens) :
    Reads src (IsRead src Alternative Stmt.unplacedOptional
      Stmt.AsReadOptional tokens) (conditionalElse tokens)
      (conditionalElse (tokens ++ src.beyond)) := by
  obtain ⟨count, counted⟩ := @exists_eq _ tokens.length
  rw [conditionalElse.eq_def, conditionalElse.eq_def]
  split
  next span _ later =>
    refine (conditional_reads ahead.tail.within later ahead.tail.tail).bind ?_
    rintro choice rest _ _ ⟨⟨kinds, takes, command, cond, body, other, same⟩, asRead⟩ onward
    rw [same] at command
    refine .ok ⟨⟨_, takes.cons.cons, ?_⟩, fun isValid => ⟨asRead isValid, trivial⟩⟩ onward
    rw [Stmt.unplacedOptional, Stmt.unplacedAll, Stmt.unplacedAll, same]
    exact .choice command
  next later unlike =>
    rw [← conditionalElse.eq_def, cons_append,
      conditionalElse.eq_2 _ _ _ fun _ _ _ same => ahead.tail.unlike same (unlike _ _)]
    refine (block_reads later ahead.tail).bind ?_
    rintro read rest _ _ ⟨⟨_, takes, inside, rfl, commands⟩, asRead⟩ onward
    exact .ok ⟨⟨_, takes.cons, .block commands⟩, fun isValid => (asRead isValid).1⟩ onward
  next =>
    generalize same : tokens ++ src.beyond = wide
    split
    on_goal 3 => exact same ▸ .ok ⟨⟨[], .nil, .none⟩, fun _ => trivial⟩ ahead
    all_goals
      obtain ⟨_, rfl⟩ := ahead.next same
      exfalso
      solve_by_elim
termination_by 4 * tokens.length + 1
decreasing_by all_goals simp only [length_cons] at *; omega

theorem branches_reads (tokens : List Token) (ahead : src.Ahead tokens) :
    Reads src (IsRead src Branches Stmt.unplacedBranches Stmt.AsReadBranches tokens)
      (branches tokens) (branches (tokens ++ src.beyond)) := by
  rw [branches, branches, ahead.startsLiteral_append, ahead.nextSpan_append]
  split
  next starts =>
    refine (literals_reads tokens ahead).bind ?_
    rintro values rest shorter _ ⟨⟨kinds, takes, listed⟩, -⟩ onward
    refine (expect_reads _ _ onward).bind ?_
    rintro _ rest shorter _ ⟨_, rfl⟩ onward
    refine (block_reads rest onward).bind ?_
    rintro read rest shorter _ ⟨⟨_, takesBody, inside, rfl, commands⟩, asRead⟩ onward
    refine (branches_reads rest onward).bind ?_
    rintro others last _ _ ⟨⟨otherKinds, takesOthers, chosen⟩, othersRead⟩ final
    have takesAll := takes.follow (takesBody.append takesOthers)
    exact .ok ⟨⟨_, takesAll, .cons listed commands chosen⟩, fun isValid =>
      ⟨(asRead isValid).1, ahead.nextSpan_on starts isValid, othersRead isValid⟩⟩ final
  next => exact .ok ⟨⟨[], .nil, .nil⟩, fun _ => trivial⟩ ahead
termination_by 4 * tokens.length + 1
decreasing_by all_goals simp only [length_cons] at *; omega

theorem caseFallback_reads (tokens : List Token) (ahead : src.Ahead tokens) :
    Reads src (IsRead src Fallback Stmt.unplacedOptional Stmt.AsReadOptional tokens)
      (caseFallback tokens) (caseFallback (tokens ++ src.beyond)) := by
  obtain ⟨count, counted⟩ := @exists_eq _ tokens.length
  rw [caseFallback.eq_def tokens]
  split
  next later =>
    rw [cons_append, caseFallback]
    refine (expect_reads _ _ ahead.tail).bind ?_
    rintro _ rest shorter _ ⟨_, rfl⟩ onward
    refine (block_reads rest onward).bind ?_
    rintro read last _ _ ⟨⟨_, takes, inside, rfl, commands⟩, asRead⟩ final
    exact .ok ⟨⟨_, takes.cons.cons, .some commands⟩, fun isValid => (asRead isValid).1⟩ final
  next unlike =>
    rw [caseFallback.eq_2 _ fun _ _ _ same => ahead.unlike same (unlike _ _)]
    exact .ok ⟨⟨[], .nil, .none⟩, fun _ => trivial⟩ ahead
termination_by 4 * tokens.length + 1
decreasing_by all_goals simp only [length_cons] at *; omega

end

/-! ## Definitions and imports -/

theorem parameters_reads (ahead : src.Ahead tokens) :
    Reads src (NamesRead src (MaybeListed VariableName) tokens) (parameters tokens)
      (parameters (tokens ++ src.beyond)) := by
  unfold parameters
  rw [ahead.nextKind_append]
  split
  next => exact .ok ⟨⟨[], .nil, .none⟩, fun _ => forall_mem_nil _⟩ ahead
  next =>
    refine (variableNames_reads _ tokens ahead).bind ?_
    rintro names rest _ _ ⟨⟨kinds, takes, listed⟩, areNames⟩ onward
    exact .ok ⟨⟨kinds, takes, .some listed⟩, areNames⟩ onward

def RoutineAfter (kind : RoutineKind) (kinds : List TokenKind) (definition : Definition) : Prop :=
  Grammar.Routine (routineWord kind :: kinds) definition

theorem routine_reads (kind : RoutineKind) (within : src.fromText → span.On src.text)
    (ahead : src.Ahead tokens) : Reads src (IsRead src (RoutineAfter kind) Definition.unplaced
      Definition.AsRead tokens) (routine kind span tokens)
      (routine kind span (tokens ++ src.beyond)) := by
  unfold routine
  have upper_reads := expectUpper_reads "procedure name" ahead
  have lower_reads := expectLower_reads "function name" ahead
  cases kind
  case' procedure => refine upper_reads.bind ?_; rintro name rest _ _ ⟨takesName, -⟩ onward
  case' function =>
    refine lower_reads.bind ?_
    rintro name rest _ _ ⟨⟨_, takesName, ⟨⟩⟩, -⟩ onward
  all_goals
    refine (expect_reads _ _ onward).bind ?_
    rintro _ rest _ _ ⟨_, rfl⟩ onward
    refine (parameters_reads onward).bind ?_
    rintro names rest _ _ ⟨⟨kinds, takes, listed⟩, areNames⟩ onward
    refine (expect_reads _ _ onward).bind ?_
    rintro _ rest _ _ ⟨_, rfl⟩ onward
    refine (block_reads rest onward).bind ?_
    rintro read last _ _ ⟨⟨_, takesBody, inside, rfl, commands⟩, bodyRead⟩ final
    refine .ok ⟨⟨_, ?_, .intro _ name listed commands⟩, fun isValid =>
      ⟨areNames isValid, (bodyRead isValid).1, within isValid⟩⟩ final
    exact takesName.append (Takes.append (takes.follow .nil).cons takesBody)

theorem definition_reads (ahead : src.Ahead tokens) :
    Reads src (IsRead src Grammar.Routine Definition.unplaced
      Definition.AsRead tokens) (definition tokens) (definition (tokens ++ src.beyond)) := by
  unfold definition
  split
  next =>
    refine (routine_reads .procedure ahead.within ahead.tail).bind ?_
    rintro read rest _ _ ⟨⟨kinds, takes, derives⟩, asRead⟩ onward
    exact .ok ⟨⟨_, takes.cons, derives⟩, asRead⟩ onward
  next =>
    refine (routine_reads .function ahead.within ahead.tail).bind ?_
    rintro read rest _ _ ⟨⟨kinds, takes, derives⟩, asRead⟩ onward
    exact .ok ⟨⟨_, takes.cons, derives⟩, asRead⟩ onward
  next =>
    generalize same : tokens ++ src.beyond = wide
    split
    on_goal 3 => exact same ▸ .expected ahead
    all_goals
      obtain ⟨_, rfl⟩ := ahead.next same
      exfalso
      solve_by_elim

/-- Something is read up to the end of the input, whatever lies beyond. -/
structure ReadsAll {α β : Type} (source : Source) (rule : List TokenKind → β → Prop)
    (view : α → β) (asRead : (Span → Prop) → α → Prop) (tokens : List Token)
    (outcome more : Except Error α) : Prop where
  same : more = outcome
  faults : FaultsIn source.Place outcome
  reads : ∀ value, outcome = .ok value → ∃ rest, nextKind rest = .endOfInput ∧
    IsRead source rule view asRead tokens value rest

theorem Reads.bindAll {α β γ δ : Type} {limit wider : Nat} {rule others : List TokenKind → β → Prop}
    {part : List TokenKind → δ → Prop} {view : α → β} {partView : γ → δ}
    {asRead : (Span → Prop) → α → Prop} {partRead : (Span → Prop) → γ → Prop}
    {first : Except Error (Parsed γ limit)} {second : Except Error (Parsed γ wider)}
    {next : List Token → Except Error α}
    (reads : Reads src (IsRead src part partView partRead tokens) first second) (join : γ → α → α)
    (continues : ∀ rest, rest.length < limit → src.Ahead rest →
      ReadsAll src others view asRead rest (next rest) (next (rest ++ src.beyond)))
    (derived : ∀ value whole kinds otherKinds, part kinds (partView value) →
      others otherKinds (view whole) → rule (kinds ++ otherKinds) (view (join value whole)))
    (joined : ∀ {places} value whole, partRead places value → asRead places whole →
      asRead places (join value whole)) : ReadsAll src rule view asRead tokens
      (first >>= fun parsed => do
        let whole ← next parsed.rest
        .ok (join parsed.value whole))
      (second >>= fun parsed => do
        let whole ← next parsed.rest
        .ok (join parsed.value whole)) := by
  cases reads with
  | error found =>
    refine ⟨rfl, .error found, fun value succeeds => ?_⟩
    cases succeeds
  | @ok part rest shorter _ isRead ahead =>
    obtain ⟨same, faults, readsRest⟩ := continues rest shorter ahead
    change ReadsAll src rule view asRead tokens (next rest >>= fun whole => .ok (join part whole))
      (next (rest ++ src.beyond) >>= fun whole => .ok (join part whole))
    rw [same]
    refine ⟨rfl, faults.bind fun whole _ => .ok _, fun value succeeds => ?_⟩
    obtain ⟨whole, isWhole, same⟩ := bind_eq_ok.mp succeeds
    cases same
    obtain ⟨⟨kinds, takes, derives⟩, partIsRead⟩ := isRead
    obtain ⟨rest, atEnd, ⟨otherKinds, takesOthers, wholeDerives⟩, wholeRead⟩ :=
      readsRest whole isWhole
    exact ⟨rest, atEnd, ⟨_, takes.append takesOthers, derived _ _ _ _ derives wholeDerives⟩,
      fun isValid => joined _ _ (partIsRead isValid) (wholeRead isValid)⟩

theorem definitions_read (tokens : List Token) (ahead : src.Ahead tokens) :
    ReadsAll src (Sequence Grammar.Routine) (List.map Definition.unplaced)
      (fun places read => ∀ definition ∈ read, definition.AsRead places) tokens
      (definitions tokens) (definitions (tokens ++ src.beyond)) := by
  rw [definitions, definitions, ahead.nextKind_append]
  split
  next atEnd =>
    refine ⟨rfl, .ok _, fun read same => ?_⟩
    cases same
    exact ⟨tokens, atEnd, ⟨[], .nil, .nil⟩, fun _ => forall_mem_nil _⟩
  next =>
    refine (definition_reads ahead).bindAll .cons (fun rest fewer => definitions_read rest) ?_ ?_
    · exact fun _ _ _ _ => .cons
    · exact fun _ _ asRead othersRead => List.forall_mem_cons.mpr ⟨asRead, othersRead⟩
termination_by tokens.length

theorem routineNames_reads (tokens : List Token) (ahead : src.Ahead tokens) :
    Reads src (IsRead src (Listed ImportedName)
      (List.map fun entry => (entry.1, .nowhere)) (fun places names => ∀ entry ∈ names, places entry.2)
      tokens) (routineNames tokens) (routineNames (tokens ++ src.beyond)) := by
  obtain ⟨count, counted⟩ := @exists_eq _ tokens.length
  rw [routineNames.eq_def, routineNames.eq_def]
  refine .bind (?nameRead : Reads src (IsRead src ImportedName
    (fun entry => (entry.1, .nowhere)) (fun places entry => places entry.2) tokens) _ _)
    fun first rest shorter _ firstRead onward => ?_
  case nameRead =>
    split
    next name _ _ _ => exact .ok ⟨⟨_, .single, .upper name⟩, ahead.within⟩ ahead.tail
    next name _ _ _ => exact .ok ⟨⟨_, .single, .lower name⟩, ahead.within⟩ ahead.tail
    next =>
      generalize same : tokens ++ src.beyond = wide
      split
      on_goal 3 => exact same ▸ .expected ahead
      all_goals
        obtain ⟨_, rfl⟩ := ahead.next same
        exfalso
        solve_by_elim
  dsimp only
  split
  next later shorter _ =>
    have fewer : later.length < tokens.length := Nat.lt_of_succ_lt shorter
    refine (routineNames_reads later onward.tail).bind
      fun others last _ _ othersRead final => ?_
    refine .ok (firstRead.more othersRead rfl fun within othersWithin => ?_) final
    exact List.forall_mem_cons.mpr ⟨within, othersWithin⟩
  next unlike =>
    split
    next same _ =>
      obtain ⟨_, rfl⟩ := onward.next same
      exact (unlike _ _ _ _ rfl .rfl).elim
    next => exact .ok (firstRead.one rfl (by simp)) onward
termination_by tokens.length

def DeclarationAfter (kinds : List TokenKind) (declaration : Import) : Prop :=
  Declaration (.keyword .fromWord :: kinds) declaration

theorem importAfter_reads (within : src.fromText → span.On src.text) (ahead : src.Ahead tokens) :
    Reads src (IsRead src DeclarationAfter Import.unplaced
      (fun _ => Import.AsRead (Span.Within src.text)) tokens)
      (importAfter span tokens) (importAfter span (tokens ++ src.beyond)) := by
  unfold importAfter
  refine (expectUpper_reads _ ahead).bind ?_
  rintro name rest _ _ ⟨takesSource, isName⟩ onward
  refine (expect_reads _ _ onward).bind ?_
  rintro _ rest _ _ ⟨_, rfl⟩ onward
  refine (expect_reads _ _ onward).bind ?_
  rintro _ rest _ _ ⟨_, rfl⟩ onward
  refine (routineNames_reads rest onward).bind ?_
  rintro names rest _ _ ⟨⟨kinds, takes, listed⟩, namesWithin⟩ onward
  refine (expect_reads _ _ onward).bind ?_
  rintro closing rest shorter _ ⟨_, rfl⟩ final
  have asRead : src.fromText → Import.AsRead (Span.Within src.text) ⟨name, names, span.extend closing⟩ :=
    fun isValid =>
    ⟨isName isValid, fun entry member => (namesWithin isValid entry member).toWithin,
      ((within isValid).extend (onward.within isValid)).toWithin⟩
  dsimp only
  split
  next =>
    have takesAll := takesSource.append (takes.follow .single).cons.cons
    refine .ok ⟨⟨_, takesAll, ?_⟩, asRead⟩ final.tail
    simpa [DeclarationAfter, Import.unplaced, parenthesized] using
      Declaration.intro name listed true
  next unlike =>
    split
    next same _ =>
      obtain ⟨_, rfl⟩ := final.next same
      exact (unlike _ _ _ _ rfl .rfl).elim
    next =>
      have takesAll := takesSource.append (takes.follow .nil).cons.cons
      refine .ok ⟨⟨_, takesAll, ?_⟩, asRead⟩ final
      simpa [DeclarationAfter, Import.unplaced, parenthesized] using
        Declaration.intro name listed false

theorem wholeProgram_cons {kinds others : List TokenKind} {program : Program}
    (declares : Declaration kinds decl) (whole : WholeProgram others program) :
    WholeProgram (kinds ++ others) { program with imports := decl :: program.imports } := by
  obtain ⟨imports, definitions⟩ := whole
  rw [← append_assoc]
  exact .intro (.cons declares imports) definitions

theorem program_read (tokens : List Token) (ahead : src.Ahead tokens) :
    ReadsAll src WholeProgram Program.unplaced (fun _ => Program.AsRead src.text) tokens
      (program tokens) (program (tokens ++ src.beyond)) := by
  obtain ⟨count, counted⟩ := @exists_eq _ tokens.length
  rw [program.eq_def tokens]
  split
  next span lexeme later =>
    rw [cons_append, program]
    have importRead : Reads src (IsRead src Declaration Import.unplaced
        (fun _ => Import.AsRead (Span.Within src.text)) (⟨.keyword .fromWord, span, lexeme⟩ :: later))
        (importAfter span later) (importAfter span (later ++ src.beyond)) := by
      refine (importAfter_reads ahead.within ahead.tail).mono fun decl rest read => ?_
      obtain ⟨⟨kinds, takes, declares⟩, asRead⟩ := read
      exact ⟨⟨_, takes.cons, declares⟩, asRead⟩
    refine importRead.bindAll (fun first others => ⟨first :: others.imports, others.definitions⟩)
      (fun rest fewer => program_read rest) ?_ ?_
    · exact fun _ _ _ _ => wholeProgram_cons
    · exact fun _ _ asRead othersRead =>
        ⟨List.forall_mem_cons.mpr ⟨asRead, othersRead.imports⟩, othersRead.definitions⟩
  next unlike =>
    have routinesRead := definitions_read tokens ahead
    rw [program.eq_2 _ fun _ _ _ same => ahead.unlike same (unlike _ _), routinesRead.same]
    refine ⟨rfl, routinesRead.faults.bind fun routines _ => .ok _, fun read succeeds => ?_⟩
    obtain ⟨routines, readRoutines, same⟩ := bind_eq_ok.mp succeeds
    cases same
    obtain ⟨rest, atEnd, ⟨kinds, takes, sequence⟩, asRead⟩ := routinesRead.reads _ readRoutines
    exact ⟨rest, atEnd, ⟨kinds, takes, .intro .nil sequence⟩,
      fun isValid => ⟨forall_mem_nil _, asRead isValid⟩⟩
termination_by tokens.length
decreasing_by all_goals simp only [length_cons] at *; omega

end Parser

/-- A program that is read from a text lies within it, with names of the language and without
types; and a text that cannot be read has a fault. -/
theorem Program.ofText_read (src : String) : FaultsIn (Span.Within src) (ofText src) ∧
      ∀ program, ofText src = .ok program → program.AsRead src := by
  obtain ⟨faults, spelled⟩ := tokenize_spelled src
  have reads (tokens : List Token) (scanned : tokenize src = .ok tokens) :=
    @Parser.program_read ⟨tokens, [], src, True, fun _ => spelled tokens scanned⟩ tokens
      ⟨List.suffix_rfl, tokenize_ended scanned⟩
  refine ⟨faults.bind fun tokens scanned fault failed => ?_, fun program read => ?_⟩
  · exact ((reads tokens scanned).faults fault failed).mono fun span place => place.within trivial
  · obtain ⟨tokens, scanned, parsed⟩ := bind_eq_ok.mp read
    obtain ⟨rest, -, isRead⟩ := (reads tokens scanned).reads program parsed
    exact isRead.asRead trivial

theorem Program.ofText_named {src : String} {program : Program} (read : ofText src = .ok program) :
    ∀ definition ∈ program.definitions, definition.Named :=
  fun definition member =>
    (((ofText_read src).2 program read).definitions definition member).named

end StoneBoard
