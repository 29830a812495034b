import StoneBoard.Program
import StoneBoard.Token.Lexer

/-!
# Reading programs

A recursive descent over the tokens.  Every reader of a construct returns the tokens
after it together with the fact that there are fewer of them, so reading ends on every
list of tokens.

Operators bind, from weakest to strongest: `||`, `&&`, `not`, comparisons, `+` and `-`,
`*`, `div` and `mod`, unary minus, `^`.  The first two group to the right, comparisons
do not group, sums and products group to the left.
-/

namespace StoneBoard.Parser

/-- A value that has been read, and fewer than `limit` tokens that follow. -/
structure Parsed (α : Type) (limit : Nat) where
  value : α
  rest : List Token
  shorter : rest.length < limit

/-- The outcome of a reader that takes at least one of the tokens. -/
abbrev Parse (α : Type) (tokens : List Token) : Type :=
  Except Error (Parsed α tokens.length)

/-- The outcome of a reader that may take none of the tokens. -/
abbrev ParseAny (α : Type) (tokens : List Token) : Type :=
  Except Error (Parsed α (tokens.length + 1))

def nextKind : List Token → TokenKind
  | [] => .endOfInput
  | token :: _ => token.kind

def nextSpan : List Token → Span
  | [] => .nowhere
  | token :: _ => token.span

def expected (what : String) (tokens : List Token) : Error :=
  .located (.expectedToken what (nextKind tokens).text) (nextSpan tokens)

def unexpected (tokens : List Token) : Error :=
  .located (.unexpectedToken (nextKind tokens).text) (nextSpan tokens)

def expect (kind : TokenKind) (what : String) (tokens : List Token) : Parse Span tokens :=
  match tokens with
  | [] => .error (expected what [])
  | token :: rest =>
      if token.kind = kind then .ok ⟨token.span, rest, Nat.lt_succ_self _⟩
      else .error (expected what (token :: rest))

def expectUpper (what : String) (tokens : List Token) : Parse String tokens :=
  match tokens with
  | ⟨.upper name, _, _⟩ :: rest => .ok ⟨name, rest, Nat.lt_succ_self _⟩
  | tokens => .error (expected what tokens)

def expectLower (what : String) (tokens : List Token) : Parse String tokens :=
  match tokens with
  | ⟨.lower name, _, _⟩ :: rest => .ok ⟨name, rest, Nat.lt_succ_self _⟩
  | tokens => .error (expected what tokens)

/-! ## Expressions -/

def comparisonOp? : TokenKind → Option BinaryOp
  | .mark .equal => some .equal
  | .mark .notEqual => some .notEqual
  | .mark .less => some .less
  | .mark .lessEqual => some .lessEqual
  | .mark .greater => some .greater
  | .mark .greaterEqual => some .greaterEqual
  | _ => none

def sumOp? : TokenKind → Option BinaryOp
  | .mark .plus => some .add
  | .mark .minus => some .subtract
  | _ => none

def productOp? : TokenKind → Option BinaryOp
  | .mark .star => some .multiply
  | .keyword .div => some .div
  | .keyword .mod => some .mod
  | _ => none

/-- Two operands with their operator; the span covers both. -/
def joinBinary (op : BinaryOp) (left right : Expr) : Expr :=
  .binary op left right (left.span.extend right.span)

def joinLogical (op : LogicalOp) (left right : Expr) : Expr :=
  .logical op left right (left.span.extend right.span)

mutual

def disjunction (tokens : List Token) : Parse Expr tokens := do
  let ⟨left, rest, shorter⟩ ← conjunction tokens
  match rest, shorter with
  | ⟨.mark .or, _, _⟩ :: later, shorter =>
      let ⟨right, last, shorterStill⟩ ← disjunction later
      .ok ⟨joinLogical .or left right, last, by simp only [List.length_cons] at shorter; omega⟩
  | rest, shorter => .ok ⟨left, rest, shorter⟩
termination_by 12 * tokens.length + 9
decreasing_by all_goals (try simp only [List.length_cons] at *); omega

def conjunction (tokens : List Token) : Parse Expr tokens := do
  let ⟨left, rest, shorter⟩ ← negation tokens
  match rest, shorter with
  | ⟨.mark .and, _, _⟩ :: later, shorter =>
      let ⟨right, last, shorterStill⟩ ← conjunction later
      .ok ⟨joinLogical .and left right, last, by simp only [List.length_cons] at shorter; omega⟩
  | rest, shorter => .ok ⟨left, rest, shorter⟩
termination_by 12 * tokens.length + 8
decreasing_by all_goals (try simp only [List.length_cons] at *); omega

/-- An expression after any number of `not`. -/
def negation (tokens : List Token) : Parse Expr tokens :=
  match tokens with
  | ⟨.keyword .not, span, _⟩ :: later => do
      let ⟨operand, rest, shorter⟩ ← negation later
      .ok ⟨.not operand (span.extend operand.span), rest, by simp only [List.length_cons]; omega⟩
  | tokens => comparison tokens
termination_by 12 * tokens.length + 7
decreasing_by all_goals (try simp only [List.length_cons] at *); omega

/-- A sum, or two sums with a comparison between them. -/
def comparison (tokens : List Token) : Parse Expr tokens := do
  let ⟨left, rest, shorter⟩ ← sum tokens
  match rest, shorter with
  | [], shorter => .ok ⟨left, [], shorter⟩
  | token :: later, shorter =>
      match comparisonOp? token.kind with
      | none => .ok ⟨left, token :: later, shorter⟩
      | some op =>
          let ⟨right, last, shorterStill⟩ ← sum later
          .ok ⟨joinBinary op left right, last, by simp only [List.length_cons] at shorter; omega⟩
termination_by 12 * tokens.length + 6
decreasing_by all_goals (try simp only [List.length_cons] at *); omega

/-- Terms joined by `+` and `-`. -/
def sum (tokens : List Token) : Parse Expr tokens := do
  let ⟨left, rest, shorter⟩ ← product tokens
  let ⟨whole, last, shorterStill⟩ ← sumTail left rest
  .ok ⟨whole, last, by omega⟩
termination_by 12 * tokens.length + 5
decreasing_by all_goals (try simp only [List.length_cons] at *); omega

def sumTail (left : Expr) (tokens : List Token) : ParseAny Expr tokens :=
  match tokens with
  | [] => .ok ⟨left, [], Nat.lt_succ_self _⟩
  | token :: later =>
      match sumOp? token.kind with
      | none => .ok ⟨left, token :: later, Nat.lt_succ_self _⟩
      | some op => do
          let ⟨right, rest, shorter⟩ ← product later
          let ⟨whole, last, shorterStill⟩ ← sumTail (joinBinary op left right) rest
          .ok ⟨whole, last, by simp only [List.length_cons]; omega⟩
termination_by 12 * tokens.length + 5
decreasing_by all_goals (try simp only [List.length_cons] at *); omega

/-- Factors joined by `*`, `div` and `mod`. -/
def product (tokens : List Token) : Parse Expr tokens := do
  let ⟨left, rest, shorter⟩ ← signed tokens
  let ⟨whole, last, shorterStill⟩ ← productTail left rest
  .ok ⟨whole, last, by omega⟩
termination_by 12 * tokens.length + 4
decreasing_by all_goals (try simp only [List.length_cons] at *); omega

def productTail (left : Expr) (tokens : List Token) : ParseAny Expr tokens :=
  match tokens with
  | [] => .ok ⟨left, [], Nat.lt_succ_self _⟩
  | token :: later =>
      match productOp? token.kind with
      | none => .ok ⟨left, token :: later, Nat.lt_succ_self _⟩
      | some op => do
          let ⟨right, rest, shorter⟩ ← signed later
          let ⟨whole, last, shorterStill⟩ ← productTail (joinBinary op left right) rest
          .ok ⟨whole, last, by simp only [List.length_cons]; omega⟩
termination_by 12 * tokens.length + 4
decreasing_by all_goals (try simp only [List.length_cons] at *); omega

/-- A power after any number of minus signs. -/
def signed (tokens : List Token) : Parse Expr tokens :=
  match tokens with
  | ⟨.mark .minus, span, _⟩ :: later => do
      let ⟨operand, rest, shorter⟩ ← signed later
      .ok ⟨.negate operand (span.extend operand.span) none, rest,
        by simp only [List.length_cons]; omega⟩
  | tokens => power tokens
termination_by 12 * tokens.length + 3
decreasing_by all_goals (try simp only [List.length_cons] at *); omega

/-- An atom, or an atom raised to a signed power. -/
def power (tokens : List Token) : Parse Expr tokens := do
  let ⟨base, rest, shorter⟩ ← atom tokens
  match rest, shorter with
  | ⟨.mark .caret, _, _⟩ :: later, shorter =>
      let ⟨exponent, last, shorterStill⟩ ← signed later
      .ok ⟨joinBinary .power base exponent, last, by simp only [List.length_cons] at shorter; omega⟩
  | rest, shorter => .ok ⟨base, rest, shorter⟩
termination_by 12 * tokens.length + 2
decreasing_by all_goals (try simp only [List.length_cons] at *); omega

/-- Numbers, constants, variables, calls, lists and expressions in parentheses. -/
def atom (tokens : List Token) : Parse Expr tokens :=
  match tokens with
  | ⟨.number value, span, _⟩ :: rest =>
      .ok ⟨.literal (.int value) span, rest, Nat.lt_succ_self _⟩
  | ⟨.upper name, span, _⟩ :: rest =>
      match Value.constant? name with
      | some value => .ok ⟨.literal value span, rest, Nat.lt_succ_self _⟩
      | none =>
          .error (.located (.semantic (s!"\"{name}\" is not a constant; " ++
            "procedures cannot be used in expressions")) span)
  | ⟨.lower name, span, _⟩ :: ⟨.mark .leftParen, _, _⟩ :: later => do
      let ⟨(arguments, closing), rest, shorter⟩ ← arguments later
      .ok ⟨.call name arguments (span.extend closing) none, rest,
        by simp only [List.length_cons]; omega⟩
  | ⟨.lower name, span, _⟩ :: rest =>
      .ok ⟨.variableRef name span, rest, Nat.lt_succ_self _⟩
  | ⟨.mark .leftParen, _, _⟩ :: later => do
      let ⟨inner, rest, shorter⟩ ← disjunction later
      let ⟨_, last, shorterStill⟩ ←
        expect (.mark .rightParen) "')' after expression" rest
      .ok ⟨inner, last, by simp only [List.length_cons]; omega⟩
  | ⟨.mark .leftBracket, opening, _⟩ :: later => do
      let ⟨(items, closing), rest, shorter⟩ ← elements later
      .ok ⟨.listOf items (opening.extend closing), rest, by simp only [List.length_cons]; omega⟩
  | tokens => .error (unexpected tokens)
termination_by 12 * tokens.length + 1
decreasing_by all_goals (try simp only [List.length_cons] at *); omega

def expressions (tokens : List Token) : Parse (List Expr) tokens := do
  let ⟨first, rest, shorter⟩ ← disjunction tokens
  match rest, shorter with
  | ⟨.mark .comma, _, _⟩ :: later, shorter =>
      let ⟨others, last, shorterStill⟩ ← expressions later
      .ok ⟨first :: others, last, by simp only [List.length_cons] at shorter; omega⟩
  | rest, shorter => .ok ⟨[first], rest, shorter⟩
termination_by 12 * tokens.length + 10
decreasing_by all_goals (try simp only [List.length_cons] at *); omega

/-- The arguments of a call after its opening parenthesis, and the place of the closing
one. -/
def arguments (tokens : List Token) : Parse (List Expr × Span) tokens :=
  match tokens with
  | ⟨.mark .rightParen, closing, _⟩ :: rest => .ok ⟨([], closing), rest, Nat.lt_succ_self _⟩
  | tokens => do
      let ⟨items, rest, shorter⟩ ← expressions tokens
      let ⟨closing, last, shorterStill⟩ ←
        expect (.mark .rightParen) "')' after arguments" rest
      .ok ⟨(items, closing), last, by omega⟩
termination_by 12 * tokens.length + 11
decreasing_by all_goals (try simp only [List.length_cons] at *); omega

/-- The elements of a list after its opening bracket, and the place of the closing
one. -/
def elements (tokens : List Token) : Parse (List Expr × Span) tokens :=
  match tokens with
  | ⟨.mark .rightBracket, closing, _⟩ :: rest =>
      .ok ⟨([], closing), rest, Nat.lt_succ_self _⟩
  | tokens => do
      let ⟨items, rest, shorter⟩ ← expressions tokens
      let ⟨closing, last, shorterStill⟩ ←
        expect (.mark .rightBracket) "']' after list elements" rest
      .ok ⟨(items, closing), last, by omega⟩
termination_by 12 * tokens.length + 11
decreasing_by all_goals (try simp only [List.length_cons] at *); omega

end

abbrev expression (tokens : List Token) : Parse Expr tokens :=
  disjunction tokens

/-! ## Commands -/

def isSemicolon (token : Token) : Bool :=
  token.kind == .mark .semicolon

/-- The tokens after any semicolons. -/
def skipSemicolons (tokens : List Token) : List Token :=
  tokens.dropWhile isSemicolon

theorem skipSemicolons_length_le (tokens : List Token) :
    (skipSemicolons tokens).length ≤ tokens.length :=
  (List.dropWhile_sublist isSemicolon).length_le

def literal (tokens : List Token) : Parse Value tokens :=
  match tokens with
  | ⟨.mark .minus, _, _⟩ :: ⟨.number value, _, _⟩ :: rest =>
      .ok ⟨.int (-value), rest, by simp only [List.length_cons]; omega⟩
  | ⟨.mark .minus, _, _⟩ :: rest => .error (expected "a number after '-'" rest)
  | ⟨.number value, _, _⟩ :: rest => .ok ⟨.int value, rest, Nat.lt_succ_self _⟩
  | ⟨.upper name, span, _⟩ :: rest =>
      match Value.constant? name with
      | some value => .ok ⟨value, rest, Nat.lt_succ_self _⟩
      | none => .error (.located (.semantic s!"\"{name}\" is not a constant") span)
  | tokens => .error (expected "a literal" tokens)

def literals (tokens : List Token) : Parse (List Value) tokens := do
  let ⟨first, rest, shorter⟩ ← literal tokens
  match rest, shorter with
  | ⟨.mark .comma, _, _⟩ :: later, shorter =>
      let ⟨others, last, shorterStill⟩ ← literals later
      .ok ⟨first :: others, last, by simp only [List.length_cons] at shorter; omega⟩
  | rest, shorter => .ok ⟨[first], rest, shorter⟩
termination_by tokens.length
decreasing_by all_goals (try simp only [List.length_cons] at *); omega

/-- A value starts a branch; a capitalised name before a parenthesis is a call of a
procedure after the case. -/
def startsLiteral : List Token → Bool
  | ⟨.number _, _, _⟩ :: _ => true
  | ⟨.mark .minus, _, _⟩ :: _ => true
  | ⟨.upper _, _, _⟩ :: ⟨.mark .leftParen, _, _⟩ :: _ => false
  | ⟨.upper _, _, _⟩ :: _ => true
  | _ => false

def variableNames (what : String) (tokens : List Token) : Parse (List String) tokens := do
  let ⟨first, rest, shorter⟩ ← expectLower what tokens
  match rest, shorter with
  | ⟨.mark .comma, _, _⟩ :: later, shorter =>
      let ⟨others, last, shorterStill⟩ ← variableNames what later
      .ok ⟨first :: others, last, by simp only [List.length_cons] at shorter; omega⟩
  | rest, shorter => .ok ⟨[first], rest, shorter⟩
termination_by tokens.length
decreasing_by all_goals (try simp only [List.length_cons] at *); omega

/-- Commands that are neither loops nor choices nor blocks.  The first token has been
looked at only. -/
def simpleStatement (tokens : List Token) : Parse Stmt tokens :=
  match tokens with
  | ⟨.keyword .skip, span, _⟩ :: rest => .ok ⟨.skip span, rest, Nat.lt_succ_self _⟩
  | ⟨.keyword .boom, span, _⟩ :: later => do
      let ⟨_, rest, shorter⟩ ← expect (.mark .leftParen) "'(' after BOOM" later
      match rest, shorter with
      | ⟨.string message, _, _⟩ :: rest, shorter =>
          let ⟨_, last, shorterStill⟩ ←
            expect (.mark .rightParen) "')' after BOOM message" rest
          .ok ⟨.boom message span, last, by simp only [List.length_cons] at *; omega⟩
      | rest, _ => .error (expected "a string message" rest)
  | ⟨.keyword .returnWord, span, _⟩ :: later => do
      let ⟨_, rest, shorter⟩ ← expect (.mark .leftParen) "'(' after return" later
      let ⟨(values, _), last, shorterStill⟩ ← arguments rest
      .ok ⟨.returns values span none, last, by simp only [List.length_cons]; omega⟩
  | ⟨.mark .leftParen, span, _⟩ :: later => do
      let ⟨names, rest, shorter⟩ ← variableNames "variable name" later
      let ⟨_, rest, shorter⟩ ← expect (.mark .rightParen) "')' after variables" rest
      let ⟨_, rest, shorter⟩ ← expect (.mark .assign) "':=' after variables" rest
      let ⟨value, last, shorter⟩ ← expression rest
      .ok ⟨.tupleAssign names value span, last, by simp only [List.length_cons]; omega⟩
  | ⟨.upper name, span, _⟩ :: later => do
      let ⟨_, rest, shorter⟩ ← expect (.mark .leftParen) "'(' after procedure name" later
      let ⟨(values, closing), last, shorterStill⟩ ← arguments rest
      .ok ⟨.procedureCall name values (span.extend closing), last,
        by simp only [List.length_cons]; omega⟩
  | ⟨.lower name, span, _⟩ :: later => do
      let ⟨_, rest, shorter⟩ ← expect (.mark .assign) "':=' after variable name" later
      let ⟨value, last, shorterStill⟩ ← expression rest
      .ok ⟨.assign name value span, last, by simp only [List.length_cons]; omega⟩
  | tokens => .error (unexpected tokens)

mutual

/-- Commands between braces, and the place of the closing brace. -/
def block (tokens : List Token) : Parse (List Stmt × Span) tokens := do
  let ⟨_, inside, shorter⟩ ← expect (.mark .leftBrace) "'\x7b'" tokens
  let ⟨body, rest, shorterStill⟩ ← statements inside
  let ⟨closing, last, shortest⟩ ← expect (.mark .rightBrace) "'\x7d' after block" rest
  .ok ⟨(body, closing), last, by omega⟩
termination_by 4 * tokens.length
decreasing_by all_goals (try simp only [List.length_cons] at *); omega

/-- Commands up to a closing brace or the end of the input, with any semicolons after
each of them. -/
def statements (tokens : List Token) : ParseAny (List Stmt) tokens :=
  if nextKind tokens = .mark .rightBrace ∨ nextKind tokens = .endOfInput then
    .ok ⟨[], tokens, Nat.lt_succ_self _⟩
  else do
    let ⟨first, rest, shorter⟩ ← statement tokens
    have notLonger := skipSemicolons_length_le rest
    let ⟨others, last, shorterStill⟩ ← statements (skipSemicolons rest)
    .ok ⟨first :: others, last, by omega⟩
termination_by 4 * tokens.length + 3
decreasing_by all_goals (try simp only [List.length_cons] at *); omega

def statement (tokens : List Token) : Parse Stmt tokens :=
  match tokens with
  | ⟨.keyword .ifWord, span, _⟩ :: later => do
      let ⟨choice, rest, shorter⟩ ← conditional span later
      .ok ⟨choice, rest, by simp only [List.length_cons]; omega⟩
  | ⟨.keyword .whileWord, span, _⟩ :: later => do
      let ⟨condition, rest, shorter⟩ ← expression later
      let ⟨(body, _), last, shorterStill⟩ ← block rest
      .ok ⟨.whileLoop condition body span, last, by simp only [List.length_cons]; omega⟩
  | ⟨.keyword .repeatWith, span, _⟩ :: later => do
      let ⟨index, rest, shorter⟩ ← expectLower "index variable" later
      let ⟨_, rest, shorter⟩ ← expect (.keyword .inWord) "'in' after index variable" rest
      let ⟨lower, rest, shorter⟩ ← expression rest
      let ⟨_, rest, shorter⟩ ← expect (.mark .dots) "'..' in range" rest
      let ⟨upper, rest, shorter⟩ ← expression rest
      let ⟨(body, _), last, shorter⟩ ← block rest
      .ok ⟨.repeatWith index lower upper body span none, last,
        by simp only [List.length_cons]; omega⟩
  | ⟨.keyword .case, span, _⟩ :: later => do
      let ⟨scrutinee, rest, shorter⟩ ← expression later
      let ⟨_, rest, shorter⟩ ← expect (.keyword .of) "'of' after case value" rest
      let ⟨choices, rest, shorter⟩ ← branches rest
      let ⟨fallback, last, shorter⟩ ← caseFallback rest
      if choices.isEmpty && fallback.isNone then .error (expected "a case branch" last)
      else .ok ⟨.caseOf scrutinee choices fallback span, last,
        by simp only [List.length_cons]; omega⟩
  | ⟨.mark .leftBrace, span, lexeme⟩ :: later => do
      let ⟨(body, closing), rest, shorter⟩ ← block (⟨.mark .leftBrace, span, lexeme⟩ :: later)
      .ok ⟨.block body (span.extend closing), rest, shorter⟩
  | tokens => simpleStatement tokens
termination_by 4 * tokens.length + 2
decreasing_by all_goals (try simp only [List.length_cons] at *); omega

def conditional (span : Span) (tokens : List Token) : Parse Stmt tokens := do
  let ⟨condition, rest, shorter⟩ ← expression tokens
  let ⟨(thenBranch, _), rest, shorterStill⟩ ← block rest
  let ⟨elseBranch, last, shortest⟩ ← conditionalElse rest
  .ok ⟨.ifElse condition thenBranch elseBranch span, last, by omega⟩
termination_by 4 * tokens.length + 1
decreasing_by all_goals (try simp only [List.length_cons] at *); omega

def conditionalElse (tokens : List Token) : ParseAny (Option (List Stmt)) tokens :=
  match tokens with
  | ⟨.keyword .elseWord, _, _⟩ :: ⟨.keyword .ifWord, span, _⟩ :: later => do
      let ⟨choice, rest, shorter⟩ ← conditional span later
      .ok ⟨some [choice], rest, by simp only [List.length_cons]; omega⟩
  | ⟨.keyword .elseWord, _, _⟩ :: later => do
      let ⟨(body, _), rest, shorter⟩ ← block later
      .ok ⟨some body, rest, by simp only [List.length_cons]; omega⟩
  | tokens => .ok ⟨none, tokens, Nat.lt_succ_self _⟩
termination_by 4 * tokens.length + 1
decreasing_by all_goals (try simp only [List.length_cons] at *); omega

def branches (tokens : List Token) : ParseAny (List Branch) tokens :=
  if startsLiteral tokens then do
    let ⟨values, rest, shorter⟩ ← literals tokens
    let ⟨_, rest, shorter⟩ ← expect (.mark .arrow) "'->' after case literals" rest
    let ⟨(body, _), rest, shorter⟩ ← block rest
    let ⟨others, last, shorter⟩ ← branches rest
    .ok ⟨.on values body (nextSpan tokens) :: others, last, by omega⟩
  else .ok ⟨[], tokens, Nat.lt_succ_self _⟩
termination_by 4 * tokens.length + 1
decreasing_by all_goals (try simp only [List.length_cons] at *); omega

def caseFallback (tokens : List Token) : ParseAny (Option (List Stmt)) tokens :=
  match tokens with
  | ⟨.mark .underscore, _, _⟩ :: later => do
      let ⟨_, rest, shorter⟩ ← expect (.mark .arrow) "'->' after '_'" later
      let ⟨(body, _), last, shorterStill⟩ ← block rest
      .ok ⟨some body, last, by simp only [List.length_cons]; omega⟩
  | tokens => .ok ⟨none, tokens, Nat.lt_succ_self _⟩
termination_by 4 * tokens.length + 1
decreasing_by all_goals (try simp only [List.length_cons] at *); omega

end

/-! ## Definitions and imports -/

/-- The parameters of a routine after the opening parenthesis, without the closing one. -/
def parameters (tokens : List Token) : ParseAny (List String) tokens :=
  if nextKind tokens = .mark .rightParen then .ok ⟨[], tokens, Nat.lt_succ_self _⟩
  else do
    let ⟨names, rest, shorter⟩ ← variableNames "parameter name" tokens
    .ok ⟨names, rest, by omega⟩

def routine (kind : RoutineKind) (span : Span) (tokens : List Token) :
    Parse Definition tokens := do
  let ⟨name, rest, shorter⟩ ← match kind with
    | .procedure => expectUpper "procedure name" tokens
    | .function => expectLower "function name" tokens
  let ⟨_, rest, shorter⟩ ← expect (.mark .leftParen) "'(' after routine name" rest
  let ⟨names, rest, shorter⟩ ← parameters rest
  let ⟨_, rest, shorter⟩ ← expect (.mark .rightParen) "')' after parameters" rest
  let ⟨(body, _), last, shorter⟩ ← block rest
  .ok ⟨⟨kind, name, names, body, span⟩, last, by omega⟩

def definition (tokens : List Token) : Parse Definition tokens :=
  match tokens with
  | ⟨.keyword .procedure, span, _⟩ :: later => do
      let ⟨read, rest, shorter⟩ ← routine .procedure span later
      .ok ⟨read, rest, by simp only [List.length_cons]; omega⟩
  | ⟨.keyword .function, span, _⟩ :: later => do
      let ⟨read, rest, shorter⟩ ← routine .function span later
      .ok ⟨read, rest, by simp only [List.length_cons]; omega⟩
  | tokens => .error (expected "'procedure' or 'function'" tokens)

def definitions (tokens : List Token) : Except Error (List Definition) :=
  if nextKind tokens = .endOfInput then .ok []
  else do
    let ⟨first, rest, shorter⟩ ← definition tokens
    let others ← definitions rest
    .ok (first :: others)
termination_by tokens.length
decreasing_by all_goals (try simp only [List.length_cons] at *); omega

/-- One or more names of routines with commas between them, each with its place. -/
def routineNames (tokens : List Token) : Parse (List (String × Span)) tokens := do
  let ⟨first, rest, shorter⟩ ← (match tokens with
    | ⟨.upper name, span, _⟩ :: rest => .ok ⟨(name, span), rest, Nat.lt_succ_self _⟩
    | ⟨.lower name, span, _⟩ :: rest => .ok ⟨(name, span), rest, Nat.lt_succ_self _⟩
    | tokens => .error (expected "routine name" tokens) : Parse (String × Span) tokens)
  match rest, shorter with
  | ⟨.mark .comma, _, _⟩ :: later, shorter =>
      let ⟨others, last, shorterStill⟩ ← routineNames later
      .ok ⟨first :: others, last, by simp only [List.length_cons] at shorter; omega⟩
  | rest, shorter => .ok ⟨[first], rest, shorter⟩
termination_by tokens.length
decreasing_by all_goals (try simp only [List.length_cons] at *); omega

def importAfter (span : Span) (tokens : List Token) : Parse Import tokens := do
  let ⟨source, rest, shorter⟩ ← expectUpper "module name" tokens
  let ⟨_, rest, shorter⟩ ← expect (.keyword .importWord) "'import' after module name" rest
  let ⟨_, rest, shorter⟩ ← expect (.mark .leftParen) "'(' before imported names" rest
  let ⟨names, rest, shorter⟩ ← routineNames rest
  let ⟨closing, rest, shorter⟩ ← expect (.mark .rightParen) "')' after imported names" rest
  let read : Import := ⟨source, names, span.extend closing⟩
  match rest, shorter with
  | ⟨.mark .semicolon, _, _⟩ :: last, shorter =>
      .ok ⟨read, last, by simp only [List.length_cons] at *; omega⟩
  | last, shorter => .ok ⟨read, last, by omega⟩

/-- Imports, then definitions up to the end of the input. -/
def program (tokens : List Token) : Except Error Program :=
  match tokens with
  | ⟨.keyword .fromWord, span, _⟩ :: later => do
      let ⟨first, rest, shorter⟩ ← importAfter span later
      let others ← program rest
      .ok { others with imports := first :: others.imports }
  | tokens => do
      let routines ← definitions tokens
      .ok ⟨[], routines⟩
termination_by tokens.length
decreasing_by all_goals (try simp only [List.length_cons] at *); omega

end StoneBoard.Parser

namespace StoneBoard

def Program.ofText (source : String) : Except Error Program := do
  let tokens ← tokenize source
  Parser.program tokens

/-- The expression at the front of a text; what follows it is not looked at. -/
def Expr.ofText (source : String) : Except Error Expr := do
  let tokens ← tokenize source
  let ⟨read, _, _⟩ ← Parser.expression tokens
  .ok read

end StoneBoard
