import StoneBoard.Proofs.Derivations

/-!
# Every expression of the grammar is read

Tokens that the grammar derives as an expression are read as this expression, if no token
follows that could belong to it as well.
-/

namespace StoneBoard

variable {expr : Expr}

/-- What is read first in a layer: one operand, if the layer groups to the left. -/
def Layer.part : Layer → Layer
  | .sum => .product
  | .product => .signed
  | other => other

namespace Parser

open Grammar

variable {tokens rest : List Token} {layer : Layer}
variable {kind : TokenKind} {own left right binds : Layer} {name : String} {value : Value}
  {values : List Expr}
variable {kinds : List TokenKind}

/-! ## What may follow -/

/-- The layer in which a token continues an expression. -/
def binding? : TokenKind → Option Layer
  | .mark .or => some .disjunction
  | .mark .and => some .conjunction
  | .mark .equal | .mark .notEqual | .mark .less | .mark .lessEqual | .mark .greater
  | .mark .greaterEqual => some .comparison
  | .mark .plus | .mark .minus => some .sum
  | .mark .star | .keyword .div | .keyword .mod => some .product
  | .mark .caret => some .power
  -- a name before a parenthesis is called
  | .mark .leftParen => some .atom
  | _ => none

theorem binding?_binary (op : BinaryOp) : binding? op.token = some op.layer := by
  cases op <;> rfl

theorem binding?_logical (op : LogicalOp) : binding? op.token = some op.layer := by
  cases op <;> rfl

theorem Joins.binding? {op : BinaryOp} (joins : Joins op kind own left right) :
    binding? kind = some own := by
  rw [← joins.token, ← joins.layer]
  exact binding?_binary op

/-- The next token does not belong to an expression of a layer. -/
def Stops (layer : Layer) (tokens : List Token) : Prop :=
  ∀ binds, binding? (nextKind tokens) = some binds → binds.strength < layer.strength

theorem stops_of_binding?_eq_none (unbound : binding? (nextKind tokens) = none) :
    Stops layer tokens := by
  simp [Stops, unbound]

theorem stops_of_lt (bound : binding? (nextKind tokens) = some binds)
    (looser : binds.strength < layer.strength) : Stops layer tokens := by
  simpa [Stops, bound] using looser

theorem Stops.mono {tighter : Layer} (stops : Stops layer tokens)
    (le : layer.strength ≤ tighter.strength) : Stops tighter tokens :=
  fun binds bound => Nat.lt_of_lt_of_le (stops binds bound) le

theorem Stops.ne (stops : Stops layer tokens) (bound : binding? kind = some binds)
    (le : layer.strength ≤ binds.strength) : nextKind tokens ≠ kind := by
  rintro rfl
  exact Nat.not_lt_of_le le (stops binds bound)

theorem Stops.signed (stops : Stops .power tokens) : Stops .signed tokens := by
  intro binds bound
  have looser := stops binds bound
  -- A sign stands before its operand, so nothing is continued by one.
  have notSigned : binds ≠ .signed := by
    rintro rfl
    unfold binding? at bound
    split at bound <;> cases bound
  cases binds <;> simp_all [Layer.strength]

theorem Stops.eq_none {operator? : TokenKind → Option BinaryOp}
    (joins : ∀ {kind op}, operator? kind = some op → Joins op kind own left right)
    (stops : Stops layer tokens) (le : layer.strength ≤ own.strength) :
    operator? (nextKind tokens) = none := by
  cases isOp : operator? (nextKind tokens) with
  | none => rfl
  | some op =>
    exact absurd rfl (stops.ne (joins isOp).binding? le)

/-! ## The first token -/

/-- Only expressions of layers of smaller strength start with a token. -/
def reach : TokenKind → Nat
  | .mark .rightParen | .mark .rightBracket => 0
  | .keyword .not => Layer.negation.strength + 1
  | .mark .minus => Layer.signed.strength + 1
  | _ => Layer.atom.strength + 1

def Begins (layer : Layer) (kinds : List TokenKind) : Prop :=
  ∃ first others, kinds = first :: others ∧ layer.strength < reach first

theorem Begins.append (begins : Begins layer kinds)
    (le : own.strength ≤ layer.strength) (others : List TokenKind) :
    Begins own (kinds ++ others) := by
  obtain ⟨first, rest, rfl, less⟩ := begins
  exact ⟨first, rest ++ others, rfl, Nat.lt_of_le_of_lt le less⟩

theorem Begins.ne (begins : Begins layer kinds)
    (takes : Takes kinds tokens rest) (few : reach kind ≤ layer.strength) :
    nextKind tokens ≠ kind := by
  obtain ⟨first, others, rfl, less⟩ := begins
  rw [takes.nextKind_eq]
  rintro rfl
  exact Nat.not_lt_of_le few less

theorem begins_of_derived (derived : Expression layer kinds expr) : Begins layer kinds := by
  refine @Expression.rec (fun layer kinds _ _ => Begins layer kinds) (fun _ _ _ => True)
    (fun _ _ _ => True) ?tighter ?logical ?not ?binary ?negate ?number ?constant ?variableRef
    ?call ?enclosed ?list ?none ?some ?one ?more layer kinds expr derived
  case tighter =>
    intro layer kinds _ _ inner
    have begins := inner.append (show layer.strength ≤ _ by cases layer <;> decide) []
    rwa [List.append_nil] at begins
  case logical =>
    intro op lefts rights _ _ _ _ first _
    exact first.append (by cases op <;> decide) _
  case binary =>
    intro op lefts rights _ _ _ _ first _
    exact first.append (by cases op <;> decide) _
  case none | some | one | more => intros; trivial
  all_goals
    intros
    exact ⟨_, _, rfl, Nat.lt_succ_self _⟩

/-! ## Layers -/

def reader : Layer → (tokens : List Token) → Parse Expr tokens
  | .disjunction => disjunction
  | .conjunction => conjunction
  | .negation => negation
  | .comparison => comparison
  | .sum => sum
  | .product => product
  | .signed => signed
  | .power => power
  | .atom => atom

/-- How the reader of a layer goes on after it has read an expression. -/
def Continues : Layer → Expr → List Token → Expr → List Token → Prop
  | .sum, left, tokens, expr, rest => Gives (sumTail left tokens) expr rest
  | .product, left, tokens, expr, rest => Gives (productTail left tokens) expr rest
  | _, left, tokens, expr, rest => left = expr ∧ tokens = rest

theorem Stops.continues (stops : Stops layer tokens) (left : Expr) :
    Continues layer left tokens left tokens := by
  cases layer with
  | sum =>
    have isOther := stops.eq_none joins_of_sumOp? (Nat.le_refl _)
    rw [Continues, sumTail.eq_def]
    cases tokens with
    | nil => exact .ok
    | cons token later =>
      dsimp only
      rw [show sumOp? token.kind = none from isOther]
      exact .ok
  | product =>
    have isOther := stops.eq_none joins_of_productOp? (Nat.le_refl _)
    rw [Continues, productTail.eq_def]
    cases tokens with
    | nil => exact .ok
    | cons token later =>
      dsimp only
      rw [show productOp? token.kind = none from isOther]
      exact .ok
  | _ => exact ⟨rfl, rfl⟩

/-- The reader of a layer comes to an expression after tokens of certain kinds, and goes on
from there. -/
def Recognized (layer : Layer) (kinds : List TokenKind) (expr : Expr) : Prop :=
  ∀ tokens rest, Takes kinds tokens rest → Stops layer.part rest →
    ∃ read, Expr.unplaced read = expr ∧
      ∀ whole last, Continues layer read rest whole last → Gives (reader layer tokens) whole last

def RecognizedAll (kinds : List TokenKind) (values : List Expr) : Prop :=
  ∀ tokens rest, Takes kinds tokens rest → binding? (nextKind rest) = none →
    nextKind rest ≠ .mark .comma →
    ∃ read, Expr.unplacedAll read = values ∧ Gives (expressions tokens) read rest

variable {kinds : List TokenKind} {expr : Expr}

theorem Recognized.gives (recognized : Recognized layer kinds expr)
    (takes : Takes kinds tokens rest) (stops : Stops layer rest) :
    ∃ read, Expr.unplaced read = expr ∧ Gives (reader layer tokens) read rest := by
  have stopsPart : Stops layer.part rest := stops.mono (by cases layer <;> decide)
  obtain ⟨read, same, goesOn⟩ := recognized tokens rest takes stopsPart
  exact ⟨read, same, goesOn read rest (stops.continues read)⟩

/-- Only sums and products may go on after what they have read. -/
theorem recognized_of_gives (noPart : layer.part = layer)
    (gives : ∀ tokens rest, Takes kinds tokens rest → Stops layer rest →
      ∃ read, Expr.unplaced read = expr ∧ Gives (reader layer tokens) read rest) :
    Recognized layer kinds expr := by
  intro tokens rest takes stops
  rw [noPart] at stops
  obtain ⟨read, same, given⟩ := gives tokens rest takes stops
  refine ⟨read, same, fun whole last continues => ?_⟩
  cases layer with
  | sum => cases noPart
  | product => cases noPart
  | _ =>
    obtain ⟨rfl, rfl⟩ := continues
    exact given

theorem Recognized.tighter_of (noPart : layer.part = layer)
    (inner : Recognized layer.next kinds expr)
    (gives : ∀ {tokens rest read}, Takes kinds tokens rest → Stops layer rest →
      Gives (reader layer.next tokens) read rest → Gives (reader layer tokens) read rest) :
    Recognized layer kinds expr := by
  refine recognized_of_gives noPart fun tokens rest takes stops => ?_
  obtain ⟨read, same, given⟩ := inner.gives takes (stops.mono (by cases layer <;> decide))
  exact ⟨read, same, gives takes stops given⟩

theorem Recognized.tighter (inner : Recognized layer.next kinds expr)
    (begins : Begins layer.next kinds) : Recognized layer kinds expr := by
  cases layer with
  | atom => exact inner
  | sum =>
    intro tokens rest takes stops
    obtain ⟨read, same, given⟩ := inner.gives takes stops
    refine ⟨read, same, fun _ _ continues => ?_⟩
    rw [reader, Parser.sum]
    exact given.bind (Gives.bind continues .ok)
  | product =>
    intro tokens rest takes stops
    obtain ⟨read, same, given⟩ := inner.gives takes stops
    refine ⟨read, same, fun _ _ continues => ?_⟩
    rw [reader, Parser.product]
    exact given.bind (Gives.bind continues .ok)
  | disjunction =>
    refine .tighter_of rfl inner fun _ stops given => ?_
    rw [reader, disjunction]
    refine given.bind ?_
    dsimp only
    split
    · exact absurd rfl (stops.ne (binding?_logical .or) (Nat.le_refl _))
    · exact .ok
  | conjunction =>
    refine .tighter_of rfl inner fun _ stops given => ?_
    rw [reader, conjunction]
    refine given.bind ?_
    dsimp only
    split
    · exact absurd rfl (stops.ne (binding?_logical .and) (Nat.le_refl _))
    · exact .ok
  | negation =>
    refine .tighter_of rfl inner fun takes _ given => ?_
    rw [reader, negation.eq_def]
    split
    · exact absurd rfl (begins.ne takes (Nat.le_refl _))
    · exact given
  | comparison =>
    refine .tighter_of rfl inner fun {_ rest _} _ stops given => ?_
    have isOther := stops.eq_none joins_of_comparisonOp? (Nat.le_refl _)
    rw [reader, Parser.comparison]
    refine given.bind ?_
    cases rest with
    | nil => exact .ok
    | cons token later =>
      dsimp only
      rw [show comparisonOp? token.kind = none from isOther]
      exact .ok
  | signed =>
    refine .tighter_of rfl inner fun takes _ given => ?_
    rw [reader, Parser.signed.eq_def]
    split
    · exact absurd rfl (begins.ne takes (Nat.le_refl _))
    · exact given
  | power =>
    refine .tighter_of rfl inner fun _ stops given => ?_
    rw [reader, Parser.power]
    refine given.bind ?_
    dsimp only
    split
    · exact absurd rfl (stops.ne (binding?_binary .power) (Nat.le_refl _))
    · exact .ok

/-! ## Operators -/

section Operators

variable {lefts rights : List TokenKind} {left right : Expr}
variable {op : BinaryOp} {kind : TokenKind}

theorem Recognized.logical (op : LogicalOp) (first : Recognized op.layer.next lefts left)
    (second : Recognized op.layer rights right) :
    Recognized op.layer (lefts ++ op.token :: rights) (.logical op left right .nowhere) := by
  refine recognized_of_gives (by cases op <;> rfl) fun tokens rest takes stops => ?_
  obtain ⟨span, lexeme, later, takesLeft, takesRight⟩ := takes_follow.mp takes
  have stopsLeft : Stops op.layer.next (⟨op.token, span, lexeme⟩ :: later) :=
    stops_of_lt (binding?_logical op) (by cases op <;> decide)
  obtain ⟨leftRead, rfl, givesLeft⟩ := first.gives takesLeft stopsLeft
  obtain ⟨rightRead, rfl, givesRight⟩ := second.gives takesRight stops
  refine ⟨joinLogical op leftRead rightRead, rfl, ?_⟩
  cases op with
  | and =>
    change Gives (conjunction tokens) _ _
    rw [conjunction]
    exact givesLeft.bind (givesRight.bind .ok)
  | or =>
    change Gives (disjunction tokens) _ _
    rw [disjunction]
    exact givesLeft.bind (givesRight.bind .ok)

theorem Recognized.not (inner : Recognized .negation kinds expr) :
    Recognized .negation (.keyword .not :: kinds) (.not expr .nowhere) := by
  refine recognized_of_gives rfl fun tokens rest takes stops => ?_
  obtain ⟨span, lexeme, later, rfl, takesOperand⟩ := takes_cons.mp takes
  obtain ⟨read, rfl, given⟩ := inner.gives takesOperand stops
  refine ⟨.not read (span.extend read.span), rfl, ?_⟩
  rw [reader, negation]
  exact given.bind .ok

theorem Recognized.negate (inner : Recognized .signed kinds expr) :
    Recognized .signed (.mark .minus :: kinds) (.negate expr .nowhere none) := by
  refine recognized_of_gives rfl fun tokens rest takes stops => ?_
  obtain ⟨span, lexeme, later, rfl, takesOperand⟩ := takes_cons.mp takes
  obtain ⟨read, rfl, given⟩ := inner.gives takesOperand stops
  refine ⟨.negate read (span.extend read.span) none, rfl, ?_⟩
  rw [reader, Parser.signed]
  exact given.bind .ok

theorem Recognized.comparison (isOp : comparisonOp? kind = some op)
    (first : Recognized .sum lefts left) (second : Recognized .sum rights right) :
    Recognized .comparison (lefts ++ kind :: rights) (.binary op left right .nowhere) := by
  refine recognized_of_gives rfl fun tokens rest takes stops => ?_
  obtain ⟨span, lexeme, later, takesLeft, takesRight⟩ := takes_follow.mp takes
  have stopsLeft : Stops .sum (⟨kind, span, lexeme⟩ :: later) :=
    stops_of_lt (joins_of_comparisonOp? isOp).binding? (by decide)
  obtain ⟨leftRead, rfl, givesLeft⟩ := first.gives takesLeft stopsLeft
  obtain ⟨rightRead, rfl, givesRight⟩ := second.gives takesRight (stops.mono (by decide))
  refine ⟨joinBinary op leftRead rightRead, rfl, ?_⟩
  rw [reader, Parser.comparison]
  refine givesLeft.bind ?_
  dsimp only
  rw [isOp]
  exact givesRight.bind .ok

-- The left operand goes on to the operator, and the whole goes on after the right operand.
theorem Recognized.sum (isOp : sumOp? kind = some op) (first : Recognized .sum lefts left)
    (second : Recognized .product rights right) :
    Recognized .sum (lefts ++ kind :: rights) (.binary op left right .nowhere) := by
  intro tokens rest takes stops
  obtain ⟨span, lexeme, later, takesLeft, takesRight⟩ := takes_follow.mp takes
  have stopsLeft : Stops .product (⟨kind, span, lexeme⟩ :: later) :=
    stops_of_lt (joins_of_sumOp? isOp).binding? (by decide)
  obtain ⟨leftRead, rfl, goesOn⟩ := first tokens _ takesLeft stopsLeft
  obtain ⟨rightRead, rfl, givesRight⟩ := second.gives takesRight stops
  refine ⟨joinBinary op leftRead rightRead, rfl, fun whole last continues => goesOn whole last ?_⟩
  rw [Continues, sumTail]
  dsimp only
  rw [isOp]
  exact givesRight.bind (Gives.bind continues .ok)

theorem Recognized.product (isOp : productOp? kind = some op)
    (first : Recognized .product lefts left) (second : Recognized .signed rights right) :
    Recognized .product (lefts ++ kind :: rights) (.binary op left right .nowhere) := by
  intro tokens rest takes stops
  obtain ⟨span, lexeme, later, takesLeft, takesRight⟩ := takes_follow.mp takes
  have stopsLeft : Stops .signed (⟨kind, span, lexeme⟩ :: later) :=
    stops_of_lt (joins_of_productOp? isOp).binding? (by decide)
  obtain ⟨leftRead, rfl, goesOn⟩ := first tokens _ takesLeft stopsLeft
  obtain ⟨rightRead, rfl, givesRight⟩ := second.gives takesRight stops
  refine ⟨joinBinary op leftRead rightRead, rfl, fun whole last continues => goesOn whole last ?_⟩
  rw [Continues, productTail]
  dsimp only
  rw [isOp]
  exact givesRight.bind (Gives.bind continues .ok)

theorem Recognized.power (first : Recognized .atom lefts left)
    (second : Recognized .signed rights right) :
    Recognized .power (lefts ++ .mark .caret :: rights) (.binary .power left right .nowhere) := by
  refine recognized_of_gives rfl fun tokens rest takes stops => ?_
  obtain ⟨span, lexeme, later, takesLeft, takesRight⟩ := takes_follow.mp takes
  have stopsLeft : Stops .atom (⟨.mark .caret, span, lexeme⟩ :: later) :=
    stops_of_lt (binding?_binary .power) (by decide)
  obtain ⟨leftRead, rfl, givesLeft⟩ := first.gives takesLeft stopsLeft
  obtain ⟨rightRead, rfl, givesRight⟩ := second.gives takesRight stops.signed
  refine ⟨joinBinary .power leftRead rightRead, rfl, ?_⟩
  rw [reader, Parser.power]
  exact givesLeft.bind (givesRight.bind .ok)

theorem Recognized.binary (op : BinaryOp) (first : Recognized op.leftLayer lefts left)
    (second : Recognized op.rightLayer rights right) :
    Recognized op.layer (lefts ++ op.token :: rights) (.binary op left right .nowhere) := by
  cases op with
  | add | subtract => exact .sum rfl first second
  | multiply | div | mod => exact .product rfl first second
  | power => exact .power first second
  | _ => exact .comparison rfl first second

end Operators

/-! ## Lists -/

theorem RecognizedAll.one (only : Recognized .disjunction kinds expr) :
    RecognizedAll kinds [expr] := by
  intro tokens rest takes unbound notComma
  obtain ⟨read, rfl, given⟩ := only.gives takes (stops_of_binding?_eq_none unbound)
  refine ⟨[read], rfl, ?_⟩
  rw [expressions]
  refine Gives.bind given ?_
  dsimp only
  split
  · exact absurd rfl notComma
  · exact .ok

theorem RecognizedAll.more {others : List TokenKind} (first : Recognized .disjunction kinds expr)
    (second : RecognizedAll others values) :
    RecognizedAll (kinds ++ .mark .comma :: others) (expr :: values) := by
  intro tokens rest takes unbound notComma
  obtain ⟨span, lexeme, later, takesFirst, takesOthers⟩ := takes_follow.mp takes
  have stops : Stops .disjunction (⟨.mark .comma, span, lexeme⟩ :: later) :=
    stops_of_binding?_eq_none rfl
  obtain ⟨read, rfl, given⟩ := first.gives takesFirst stops
  obtain ⟨reads, rfl, givesOthers⟩ := second later rest takesOthers unbound notComma
  refine ⟨read :: reads, rfl, ?_⟩
  rw [expressions]
  exact Gives.bind given (givesOthers.bind .ok)

section Lists

variable {values : List Expr}

/-- No expression, or some that are read as a list. -/
def RecognizedMaybe (kinds : List TokenKind) (values : List Expr) : Prop :=
  (kinds = [] ∧ values = []) ∨ Begins .disjunction kinds ∧ RecognizedAll kinds values

theorem RecognizedMaybe.closed {close : TokenKind} (given : RecognizedMaybe kinds values)
    (closes : reach close = 0) (unbound : binding? close = none) (notComma : close ≠ .mark .comma)
    (takes : Takes (kinds ++ [close]) tokens rest) :
    ∃ read closing lexeme, Expr.unplacedAll read = values ∧
      ((read = [] ∧ tokens = ⟨close, closing, lexeme⟩ :: rest) ∨ nextKind tokens ≠ close ∧
        Gives (expressions tokens) read (⟨close, closing, lexeme⟩ :: rest)) := by
  obtain ⟨closing, lexeme, later, takesItems, takesNone⟩ := takes_follow.mp takes
  obtain rfl := takes_nil.mp takesNone
  rcases given with ⟨rfl, rfl⟩ | ⟨begins, all⟩
  · exact ⟨[], closing, lexeme, rfl, .inl ⟨rfl, takes_nil.mp takesItems⟩⟩
  · obtain ⟨read, rfl, gives⟩ := all tokens _ takesItems unbound notComma
    exact ⟨read, closing, lexeme, rfl, .inr ⟨begins.ne takesItems (Nat.le_of_eq closes), gives⟩⟩

theorem RecognizedMaybe.arguments (given : RecognizedMaybe kinds values)
    (takes : Takes (kinds ++ [.mark .rightParen]) tokens rest) :
    ∃ read closing, Expr.unplacedAll read = values ∧
      Gives (arguments tokens) (read, closing) rest := by
  obtain ⟨read, closing, lexeme, same, isRead⟩ := given.closed rfl rfl (by decide) takes
  refine ⟨read, closing, same, ?_⟩
  rw [arguments.eq_def]
  rcases isRead with ⟨rfl, rfl⟩ | ⟨notClose, gives⟩
  · exact .ok
  · split
    · exact absurd rfl notClose
    · exact gives.bind (gives_expect.bind .ok)

theorem RecognizedMaybe.elements (given : RecognizedMaybe kinds values)
    (takes : Takes (kinds ++ [.mark .rightBracket]) tokens rest) :
    ∃ read closing, Expr.unplacedAll read = values ∧
      Gives (elements tokens) (read, closing) rest := by
  obtain ⟨read, closing, lexeme, same, isRead⟩ := given.closed rfl rfl (by decide) takes
  refine ⟨read, closing, same, ?_⟩
  rw [elements.eq_def]
  rcases isRead with ⟨rfl, rfl⟩ | ⟨notClose, gives⟩
  · exact .ok
  · split
    · exact absurd rfl notClose
    · exact gives.bind (gives_expect.bind .ok)

theorem RecognizedMaybe.call (name : String) (given : RecognizedMaybe kinds values) :
    Recognized .atom (.lower name :: parenthesized kinds) (.call name values .nowhere none) := by
  refine recognized_of_gives rfl fun tokens rest takes _ => ?_
  obtain ⟨span, lexeme, called, rfl, takesCall⟩ := takes_cons.mp takes
  obtain ⟨opening, openLexeme, inside, rfl, takesInside⟩ := takes_cons.mp takesCall
  obtain ⟨read, closing, rfl, gives⟩ := given.arguments takesInside
  refine ⟨.call name read (span.extend closing) none, rfl, ?_⟩
  rw [reader, atom]
  exact gives.bind .ok

theorem RecognizedMaybe.list (given : RecognizedMaybe kinds values) :
    Recognized .atom (bracketed kinds) (.listOf values .nowhere) := by
  refine recognized_of_gives rfl fun tokens rest takes _ => ?_
  obtain ⟨opening, lexeme, inside, rfl, takesInside⟩ := takes_cons.mp takes
  obtain ⟨read, closing, rfl, gives⟩ := given.elements takesInside
  refine ⟨.listOf read (opening.extend closing), Expr.unplaced_listOf .., ?_⟩
  rw [reader, atom]
  exact gives.bind .ok

end Lists

/-! ## Atoms -/

theorem recognized_number (value : Nat) :
    Recognized .atom [.number value] (.literal (.int value) .nowhere) := by
  refine recognized_of_gives rfl fun tokens rest takes _ => ?_
  obtain ⟨span, lexeme, rfl⟩ := takes_single.mp takes
  refine ⟨.literal (.int value) span, rfl, ?_⟩
  rw [reader, atom]
  exact .ok

theorem recognized_constant (known : Value.constant? name = some value) :
    Recognized .atom [.upper name] (.literal value .nowhere) := by
  refine recognized_of_gives rfl fun tokens rest takes _ => ?_
  obtain ⟨span, lexeme, rfl⟩ := takes_single.mp takes
  refine ⟨.literal value span, rfl, ?_⟩
  rw [reader, atom, known]
  exact .ok

theorem recognized_variable (name : String) :
    Recognized .atom [.lower name] (.variableRef name .nowhere) := by
  refine recognized_of_gives rfl fun tokens rest takes stops => ?_
  obtain ⟨span, lexeme, rfl⟩ := takes_single.mp takes
  refine ⟨.variableRef name span, rfl, ?_⟩
  rw [reader, atom]
  · exact .ok
  · rintro opening openLexeme inside rfl
    exact stops.ne (show binding? (.mark .leftParen) = some .atom from rfl) (Nat.le_refl _) rfl

theorem Recognized.enclosed (inner : Recognized .disjunction kinds expr) :
    Recognized .atom (parenthesized kinds) expr := by
  refine recognized_of_gives rfl fun tokens rest takes _ => ?_
  obtain ⟨opening, lexeme, inside, rfl, takesInside⟩ := takes_cons.mp takes
  obtain ⟨closing, closeLexeme, later, takesInner, takesNone⟩ := takes_follow.mp takesInside
  obtain rfl := takes_nil.mp takesNone
  obtain ⟨read, same, gives⟩ := inner.gives takesInner (stops_of_binding?_eq_none rfl)
  refine ⟨read, same, ?_⟩
  rw [reader, atom]
  exact Gives.bind gives (gives_expect.bind .ok)

/-! ## Derivations -/

-- One lemma above for each rule of the grammar.
theorem recognized_of_derived (derived : Expression layer kinds expr) :
    Recognized layer kinds expr :=
  @Expression.rec (fun layer kinds expr _ => Recognized layer kinds expr)
    (fun kinds values _ => RecognizedMaybe kinds values)
    (fun kinds values _ => Begins .disjunction kinds ∧ RecognizedAll kinds values)
    (fun derived inner => inner.tighter (begins_of_derived derived))
    (fun op _ _ _ _ _ _ first second => first.logical op second)
    (fun _ inner => inner.not) (fun op _ _ _ _ _ _ first second => first.binary op second)
    (fun _ inner => inner.negate) recognized_number recognized_constant recognized_variable
    (fun name _ _ _ given => given.call name) (fun _ inner => inner.enclosed)
    (fun _ given => given.list) (.inl ⟨rfl, rfl⟩) (fun _ all => .inr all)
    (fun derived only => ⟨begins_of_derived derived, .one only⟩)
    (fun derived _ first others =>
      ⟨(begins_of_derived derived).append (Nat.le_refl _) _, .more first others.2⟩)
    layer kinds expr derived

theorem recognizedMaybe_of_given (given : Arguments kinds values) :
    RecognizedMaybe kinds values := by
  cases given with
  | none => exact .inl ⟨rfl, rfl⟩
  | some listed =>
    refine .inr ?_
    induction listed with
    | one only => exact ⟨begins_of_derived only, .one (recognized_of_derived only)⟩
    | more first _ ih =>
      exact ⟨(begins_of_derived first).append (Nat.le_refl _) _,
        .more (recognized_of_derived first) ih.2⟩

end Parser

end StoneBoard
