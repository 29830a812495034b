import StoneBoard.Proofs.Tiling

/-!
# Texts joined by a line break

A line break ends whatever is open at the end of a text that can be cut into tokens: white space,
a name, a number or a comment to the end of the line.  So when two texts can be cut into tokens, so
can the first, a line break and the second.  The tokens are those of the first text, and behind
them those of the second text, further down.
-/

namespace StoneBoard

open List

variable {bytes lines : Nat}

/-! ## Further down -/

namespace Position

/-- The position when so many lines, of so many bytes, are put in front of the text. -/
def moved (bytes lines : Nat) (position : Position) : Position :=
  ⟨position.offset + bytes, position.line + lines, position.column⟩

theorem after_moved (pos : Position) (char : Char) : (pos.moved bytes lines).after char =
      (pos.after char).moved bytes lines := by
  by_cases isBreak : char = '\n' <;> simp [after, moved, isBreak] <;> omega

theorem afterAll_moved (pos : Position) (chars : List Char) :
    (pos.moved bytes lines).afterAll chars = (pos.afterAll chars).moved bytes lines := by
  induction chars generalizing pos with
  | nil => rfl
  | cons first rest ih =>
    rw [afterAll, foldl_cons, after_moved]
    exact ih (pos.after first)

theorem afterAll_append (pos : Position) (chars more : List Char) :
    pos.afterAll (chars ++ more) = (pos.afterAll chars).afterAll more :=
  foldl_append

end Position

/-- The token when so many lines, of so many bytes, are put in front of the text. -/
def Token.moved (bytes lines : Nat) (token : Token) : Token :=
  { token with span := ⟨token.span.start + bytes, token.span.stop + bytes,
      token.span.line + lines, token.span.column⟩ }

namespace Lexer

variable {pos place : Position} {gap : Gap} {scanned : Scanned} {tokens : List Token}
  {first second divider : Char} {chars rest left : List Char}

def Gap.moved (bytes lines : Nat) : Gap → Gap
  | .block opening first second => .block (opening.moved bytes lines) first second
  | gap => gap

theorem commentOf?_moved (pos : Position) (first second : Char) :
    commentOf? (pos.moved bytes lines) first second =
      (commentOf? pos first second).map (Gap.moved bytes lines) := by
  unfold commentOf?
  split <;> rfl

theorem skip_of_isBlank (isBlank : Text.isBlank first = true) (rest : List Char) :
    skip .blank pos (first :: rest) = skip .blank (pos.after first) rest := by
  rw [skip.eq_def]
  simp only [isBlank, if_true]

theorem skip_moved (skipped : skip gap pos chars = .ok (place, rest)) :
    skip (gap.moved bytes lines) (pos.moved bytes lines) chars =
      .ok (place.moved bytes lines, rest) := by
  fun_induction skip gap pos chars with
  | case1 | case2 | case3 | case10 => cases skipped <;> rfl
  | case4 pos first rest isBlank ih =>
    have further := ih skipped
    rw [← Position.after_moved] at further
    exact (skip_of_isBlank isBlank rest).trans further
  | case5 | case7 =>
    cases skipped
    simp_all [skip, Gap.moved, commentOf?_moved]
  | _ => simp_all [skip, Gap.moved, Position.after_moved, commentOf?_moved]

theorem tokensFrom_of_skip {others : List Char}
    (same : skip .blank pos chars = skip .blank place others) :
    tokensFrom pos chars = tokensFrom place others := by
  rw [tokensFrom, tokensFrom]
  generalize skip .blank pos chars = found at same ⊢
  subst same
  rfl

theorem tokensFrom_of_end (skipped : skip .blank pos chars = .ok (place, [])) :
    tokensFrom pos chars = .ok [⟨.endOfInput, .between place place.offset, ""⟩] := by
  rw [tokensFrom]
  split
  next failed => rw [skipped] at failed; cases failed
  next ended => rw [skipped] at ended; cases ended; rfl
  next found => rw [skipped] at found; cases found

theorem tokensFrom_of_scan (skipped : skip .blank pos chars = .ok (place, first :: rest))
    (isToken : scan first rest = .ok scanned) : tokensFrom pos chars =
      (tokensFrom (place.afterAll scanned.lexeme) scanned.rest).map
        (⟨scanned.kind, .between place (place.afterAll scanned.lexeme).offset,
          String.ofList scanned.lexeme⟩ :: ·) := by
  rw [tokensFrom]
  split
  next failed => rw [skipped] at failed; cases failed
  next ended => rw [skipped] at ended; cases ended
  next found =>
    rw [skipped] at found
    cases found
    split
    next failed => rw [isToken] at failed; cases failed
    next read =>
      rw [isToken] at read
      cases read
      dsimp only
      cases tokensFrom (place.afterAll scanned.lexeme) scanned.rest <;> rfl

theorem tokensFrom_moved (read : tokensFrom pos chars = .ok tokens) :
    tokensFrom (pos.moved bytes lines) chars = .ok (tokens.map (Token.moved bytes lines)) := by
  fun_induction tokensFrom pos chars generalizing tokens with
  | case1 | case3 | case4 => cases read
  | case2 pos chars place skipped =>
    cases read
    exact tokensFrom_of_end (skip_moved skipped)
  | case5 pos chars place first rest skipped scanned isToken stop token others =>
    rename_i readOthers ih
    cases read
    rw [tokensFrom_of_scan (skip_moved skipped) isToken, Position.afterAll_moved, ih readOthers]
    rfl

/-! ## Up to a space or a line break -/

/-- A character that stands in no token, except in a string, and opens no comment. -/
def Divides (divider : Char) : Prop := divider = ' ' ∨ divider = '\n'

theorem Divides.commentOf? (divides : Divides divider) (pos : Position) :
    commentOf? pos first divider = none := by
  rcases divides with rfl | rfl <;> simp [Lexer.commentOf?]

theorem Divides.pairMark? (divides : Divides divider) : pairMark? first divider = none := by
  rcases divides with rfl | rfl <;> simp [Lexer.pairMark?]

theorem takeWhile_divided {inWord : Char → Bool} (ends : inWord divider = false)
    (word more : List Char) : (word ++ divider :: more).takeWhile inWord = word.takeWhile inWord ∧
      (word ++ divider :: more).dropWhile inWord = word.dropWhile inWord ++ divider :: more := by
  induction word with
  | nil => simp [ends]
  | cons first rest ih => by_cases inside : inWord first = true <;> simp [inside, ih]

theorem scanString_append {value spelling : List Char}
    (scanned : scanString chars = some (value, spelling, left)) (more : List Char) :
    scanString (chars ++ more) = some (value, spelling, left ++ more) := by
  fun_induction scanString chars generalizing value spelling left with
  | case1 | case3 | case5 | case7 => cases scanned
  | case2 => cases scanned; rfl
  | case4 char rest value spelling later closed ih =>
    cases scanned
    simp [scanString, ih closed]
  | case6 char rest notQuote notLast notEscape value spelling later closed ih =>
    cases scanned
    have noBackslash : char ≠ '\\' := by
      rintro rfl
      cases rest with
      | nil => exact notLast rfl rfl
      | cons next others => exact notEscape next others rfl rfl
    rw [cons_append, scanString, ih closed]
    · exact notQuote
    · exact fun isBackslash => absurd isBackslash noBackslash
    · exact fun _ _ isBackslash => absurd isBackslash noBackslash

theorem scanMark_append (divides : Divides divider) (more : List Char) :
    scanMark first (rest ++ divider :: more) = (scanMark first rest).map
      fun scanned => { scanned with rest := scanned.rest ++ divider :: more } := by
  cases rest with
  | nil => simp [scanMark, divides.pairMark?, Function.comp_def]
  | cons second later =>
    simp only [cons_append, scanMark]
    cases Lexer.pairMark? first second <;> simp [Function.comp_def]

theorem scan_append (divides : Divides divider) (isToken : scan first rest = .ok scanned)
    (more : List Char) : scan first (rest ++ divider :: more) =
      .ok { scanned with rest := scanned.rest ++ divider :: more } := by
  have digits : divider.isDigit = false := by rcases divides with rfl | rfl <;> decide
  have names : continuesName divider = false := by
    rcases divides with rfl | rfl <;> decide
  unfold scan at *
  rw [scanMark_append divides]
  cases isMark : scanMark first rest with
  | some found =>
    rw [isMark] at isToken
    cases isToken
    rfl
  | none =>
    simp only [isMark, Option.map_none, takeWhile_divided digits, takeWhile_divided names]
      at isToken ⊢
    split_ifs at isToken ⊢
    · split at isToken
      next closed => cases isToken; rw [scanString_append closed]
      next => cases isToken
    · cases isToken
      rfl
    · cases isToken
      rfl

/-- A gap that reaches the end of a text goes on behind a line break. -/
theorem skip_append (skipped : skip gap pos chars = .ok (place, left)) (more : List Char) :
    skip gap pos (chars ++ '\n' :: more) =
      if left = [] then skip .blank (place.after '\n') more
      else .ok (place, left ++ '\n' :: more) := by
  have divides : Divides '\n' := .inr rfl
  fun_induction skip gap pos chars with
  | case1 =>
    cases skipped
    exact skip_of_isBlank (by decide) more
  | case3 | case10 => cases skipped
  | case4 pos first rest isBlank ih =>
    rw [cons_append, skip_of_isBlank isBlank, ih skipped]
  | case2 | case5 | case7 =>
    cases skipped
    simp_all [skip, divides.commentOf?]
  | case6 | case8 | case9 => simp_all [skip]
  | case11 opening closing closingEnd pos first second later closes ih =>
    obtain ⟨rfl, rfl⟩ := closes
    simp [skip, ih skipped]
  | case12 opening closing closingEnd pos first second later open_ ih =>
    have further := ih skipped
    simp only [cons_append] at further ⊢
    rw [skip.eq_def]
    simp only [open_, further, if_false]

theorem tokensFrom_append (read : tokensFrom pos chars = .ok tokens) (more : List Char) :
    tokensFrom pos (chars ++ '\n' :: more) = (tokensFrom ((pos.afterAll chars).after '\n') more).map
        (tokens.filter (·.kind ≠ .endOfInput) ++ ·) := by
  fun_induction tokensFrom pos chars generalizing tokens with
  | case1 | case3 | case4 => cases read
  | case2 pos chars place skipped =>
    cases read
    have further := skip_append skipped more
    obtain ⟨passed, rfl, rfl, -⟩ := filled_of_skip skipped
    rw [if_pos rfl] at further
    rw [tokensFrom_of_skip further, append_nil]
    cases tokensFrom ((pos.afterAll passed).after '\n') more <;> rfl
  | case5 pos chars place first rest skipped scanned isToken stop token others =>
    rename_i readOthers ih
    cases read
    have further := skip_append skipped more
    obtain ⟨passed, rfl, rfl, -⟩ := filled_of_skip skipped
    have isReal := scan_ne_endOfInput isToken
    rw [if_neg (cons_ne_nil _ _)] at further
    rw [tokensFrom_of_scan further (scan_append (.inr rfl) isToken more), ih readOthers,
      scan_lexeme isToken, Position.afterAll_append, Position.afterAll_append,
      filter_cons_of_pos (by simpa [token] using isReal)]
    cases tokensFrom ((stop.afterAll scanned.rest).after '\n') more <;> rfl

end Lexer

/-- The tokens of two texts, each of which can be cut into tokens, with a line break between
them. -/
theorem tokenize_joined {first second : String} {firstTokens secondTokens : List Token}
    (firstRead : tokenize first = .ok firstTokens)
    (secondRead : tokenize second = .ok secondTokens) :
    tokenize (first ++ "\n" ++ second) =
      .ok (firstTokens.filter (·.kind ≠ .endOfInput) ++
        secondTokens.map
          (Token.moved (first.utf8ByteSize + 1) (first.toList.count '\n' + 1))) := by
  have whole : (first ++ "\n" ++ second).toList = first.toList ++ '\n' :: second.toList := by
    simp
  have seam : (Position.start.afterAll first.toList).after '\n' =
      Position.start.moved (first.utf8ByteSize + 1) (first.toList.count '\n' + 1) := by
    have behind := Position.afterAll_behind [] first.toList
    have oneByte : '\n'.utf8Size = 1 := by decide
    rw [List.nil_append] at behind
    rw [show Position.start = .behind [] from rfl, behind, Position.after_behind]
    simp [Position.behind, Position.moved, Nat.add_comm, oneByte]
  rw [tokenize, whole, Lexer.tokensFrom_append firstRead, seam,
    Lexer.tokensFrom_moved secondRead]
  rfl

theorem commentedText_joined :
    tokenize commentedText = .ok commentedTokens ∧
    tokenize "-\n  b // é" = .ok [⟨.mark .minus, ⟨0, 1, 1, 1⟩, "-"⟩,
      ⟨.lower "b", ⟨4, 5, 2, 3⟩, "b"⟩, ⟨.endOfInput, ⟨11, 11, 2, 9⟩, ""⟩] ∧
    tokenize (commentedText ++ "\n" ++ "-\n  b // é") =
      .ok (commentedTokens.dropLast ++ [⟨.mark .minus, ⟨49, 50, 6, 1⟩, "-"⟩,
        ⟨.lower "b", ⟨53, 54, 7, 3⟩, "b"⟩, ⟨.endOfInput, ⟨60, 60, 7, 9⟩, ""⟩]) := by
  have firstRead : tokenize commentedText = .ok commentedTokens := by decide +kernel
  have secondRead : tokenize "-\n  b // é" = .ok [⟨.mark .minus, ⟨0, 1, 1, 1⟩, "-"⟩,
      ⟨.lower "b", ⟨4, 5, 2, 3⟩, "b"⟩, ⟨.endOfInput, ⟨11, 11, 2, 9⟩, ""⟩] := by
    decide +kernel
  exact ⟨firstRead, secondRead, (tokenize_joined firstRead secondRead).trans (by decide +kernel)⟩

end StoneBoard
