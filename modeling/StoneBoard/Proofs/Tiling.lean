import StoneBoard.Proofs.Scanning

/-!
# Tokens and what stands between them

The tokens of a text and the stretches between them make up the whole text, from its beginning to
its end.  Between tokens there is nothing but white space and complete comments.  The position of
a token counts the bytes, the lines and the characters of the line in front of it.
-/

namespace StoneBoard

open List

/-! ## Positions -/

namespace Position

/-- The position behind the first characters of a text. -/
def behind (characters : List Char) : Position where
  offset := String.utf8Len characters
  line := characters.count '\n' + 1
  column := (characters.reverse.takeWhile (· != '\n')).length + 1

theorem after_behind (chars : List Char) (char : Char) :
    (behind chars).after char = behind (chars ++ [char]) := by
  by_cases isBreak : char = '\n' <;> simp [behind, after, isBreak]

theorem afterAll_behind (chars more : List Char) :
    (behind chars).afterAll more = behind (chars ++ more) := by
  induction more generalizing chars with
  | nil => simp [afterAll]
  | cons first rest ih =>
    have step : (behind chars).afterAll (first :: rest) =
      ((behind chars).after first).afterAll rest := rfl
    rw [step, after_behind, ih, append_assoc, singleton_append]

end Position

def Stretch (source : String) (start stop : Nat) (characters : List Char) : Prop :=
  ∃ before after, source.toList = before ++ characters ++ after ∧
    String.utf8Len before = start ∧ start + String.utf8Len characters = stop

/-- A place tells how many line breaks are in front of it, and how many characters are between
the last one of them and the place. -/
def Span.Located (source : String) (span : Span) : Prop :=
  ∃ before, Stretch source 0 span.start before ∧ span.line = before.count '\n' + 1 ∧
    span.column = (before.reverse.takeWhile (· != '\n')).length + 1

namespace Lexer

variable {chars rest : List Char} {pos : Position} {first : Char}
variable {atEnd : Prop} {second : Char} {gap : Gap} {scanned : Scanned}

/-! ## Between tokens -/

/-- White space and complete comments, perhaps up to the end of a text.  A comment that runs to
the end of its line has no line break in it, and stands in front of one or at the end of the text.
A comment between two pairs of characters ends where the second pair comes first. -/
inductive Filler (atEnd : Prop) : List Char → Prop
  | nil : Filler atEnd []
  | blank {character : Char} {rest : List Char} (isBlank : Text.isBlank character = true)
      (further : Filler atEnd rest) : Filler atEnd (character :: rest)
  | line {opening body rest : List Char} (opens : opening ∈ [['/', '/'], ['-', '-']])
      (inLine : '\n' ∉ body) (stops : rest.head? = some '\n' ∨ rest = [] ∧ atEnd)
      (further : Filler atEnd rest) : Filler atEnd (opening ++ body ++ rest)
  | block {opening closing body rest : List Char}
      (opens : (opening, closing) ∈ [(['/', '*'], ['*', '/']), (['{', '-'], ['-', '}'])])
      (isFirst : ¬ closing <:+: body ++ closing.dropLast) (further : Filler atEnd rest) :
      Filler atEnd (opening ++ body ++ closing ++ rest)

theorem Filler.mono {other : Prop} (filler : Filler atEnd chars) (implies : atEnd → other) :
    Filler other chars := by
  induction filler with
  | nil => exact .nil
  | blank isBlank _ ih => exact .blank isBlank ih
  | line opens inLine stops _ ih =>
    exact .line opens inLine (stops.imp_right fun ends => ⟨ends.1, implies ends.2⟩) ih
  | block opens isFirst _ ih => exact .block opens isFirst ih

/-- What is skipped from the middle of a gap on. -/
def Gap.Filled (atEnd : Prop) (skipped : List Char) : Gap → Prop
  | .blank => Filler atEnd skipped
  | .line => ∃ body rest, skipped = body ++ rest ∧ '\n' ∉ body ∧
      (rest.head? = some '\n' ∨ rest = [] ∧ atEnd) ∧ Filler atEnd rest
  | .block _ first second => ∃ body rest, skipped = body ++ [first, second] ++ rest ∧
      ¬ [first, second] <:+: body ++ [first] ∧ Filler atEnd rest

theorem filler_of_commentOf? (opens : commentOf? pos first second = some gap)
    {skipped : List Char} (filled : gap.Filled atEnd skipped) :
    Filler atEnd (first :: second :: skipped) := by
  unfold commentOf? at opens
  split at opens <;> cases opens
  · obtain ⟨body, rest, rfl, inLine, stops, further⟩ := filled
    exact show Filler atEnd (['/', '/'] ++ body ++ rest) from .line (by simp) inLine stops further
  · obtain ⟨body, rest, rfl, inLine, stops, further⟩ := filled
    exact show Filler atEnd (['-', '-'] ++ body ++ rest) from .line (by simp) inLine stops further
  · obtain ⟨body, rest, rfl, isFirst, further⟩ := filled
    have comment : Filler atEnd (['/', '*'] ++ body ++ ['*', '/'] ++ rest) :=
      .block (by simp) isFirst further
    simpa using comment
  · obtain ⟨body, rest, rfl, isFirst, further⟩ := filled
    have comment : Filler atEnd (['{', '-'] ++ body ++ ['-', '}'] ++ rest) :=
      .block (by simp) isFirst further
    simpa using comment

theorem not_infix_cons {closing closingEnd : Char} {body later : List Char}
    (follows : second :: later = body ++ [closing, closingEnd] ++ rest)
    (notYet : ¬ (first = closing ∧ second = closingEnd))
    (isFirst : ¬ [closing, closingEnd] <:+: body ++ [closing]) :
    ¬ [closing, closingEnd] <:+: first :: body ++ [closing] := by
  rw [cons_append, infix_cons_iff, not_or]
  refine ⟨fun atOnce => notYet ?_, isFirst⟩
  rw [cons_prefix_cons] at atOnce
  obtain ⟨sameFirst, further⟩ := atOnce
  cases body with
  | nil | cons =>
    cases follows
    obtain ⟨sameSecond, -⟩ := List.cons_prefix_cons.mp further
    exact ⟨sameFirst.symm, sameSecond.symm⟩

/-- Whatever is skipped fills a gap, and the position moves behind it. -/
theorem filled_of_skip {place : Position} (skipped : skip gap pos chars = .ok (place, rest)) :
    ∃ passed, chars = passed ++ rest ∧ place = pos.afterAll passed ∧
      gap.Filled (rest = []) passed := by
  fun_induction skip gap pos chars with
  | case1 =>
    cases skipped
    exact ⟨[], rfl, rfl, .nil⟩
  | case2 =>
    cases skipped
    exact ⟨[], rfl, rfl, [], [], rfl, by simp, .inr ⟨rfl, rfl⟩, .nil⟩
  | case3 => cases skipped
  | case4 pos first rest isBlank ih =>
    obtain ⟨passed, rfl, rfl, filled⟩ := ih skipped
    exact ⟨first :: passed, rfl, rfl, .blank isBlank filled⟩
  | case5 =>
    cases skipped
    exact ⟨[], rfl, rfl, .nil⟩
  | case6 pos first notBlank second later gap opens ih =>
    obtain ⟨passed, rfl, rfl, filled⟩ := ih skipped
    exact ⟨first :: second :: passed, rfl, rfl, filler_of_commentOf? opens filled⟩
  | case7 =>
    cases skipped
    exact ⟨[], rfl, rfl, .nil⟩
  | case8 pos others ih =>
    obtain ⟨passed, rfl, rfl, filled⟩ := ih skipped
    exact ⟨'\n' :: passed, rfl, rfl, [], '\n' :: passed, rfl, by simp, .inl rfl,
      .blank (by decide) filled⟩
  | case9 pos first others inLine ih =>
    obtain ⟨passed, rfl, rfl, body, tail, rfl, noBreak, stops, filled⟩ := ih skipped
    refine ⟨first :: (body ++ tail), rfl, rfl, first :: body, tail, rfl, ?_, stops, filled⟩
    rw [mem_cons, not_or]
    exact ⟨fun same => inLine same.symm, noBreak⟩
  | case10 => cases skipped
  | case11 opening closing closingEnd pos first second later closes ih =>
    obtain ⟨passed, rfl, rfl, filled⟩ := ih skipped
    obtain ⟨rfl, rfl⟩ := closes
    refine ⟨first :: second :: passed, rfl, rfl, [], passed, rfl, fun within => ?_, filled⟩
    have short := within.length_le
    simp at short
  | case12 opening closing closingEnd pos first second later open_ ih =>
    obtain ⟨passed, follows, rfl, body, tail, rfl, isFirst, filled⟩ := ih skipped
    refine ⟨first :: (body ++ [closing, closingEnd] ++ tail), ?_, rfl, first :: body, tail, rfl,
      ?_, filled⟩
    · rw [follows]
      rfl
    · -- the closing pair could begin with the character that is passed
      exact not_infix_cons (follows.trans (append_assoc ..)) open_ isFirst

/-! ## Tokens -/

theorem nameKind_ne_endOfInput (name : List Char) : nameKind name ≠ .endOfInput := by
  intro isEnd
  simp only [nameKind] at isEnd
  split at isEnd
  · cases isEnd
  · split at isEnd
    · split at isEnd <;> cases isEnd
    · cases isEnd

theorem scan_ne_endOfInput (isToken : scan first rest = .ok scanned) :
    scanned.kind ≠ .endOfInput := by
  intro isEnd
  unfold scan at isToken
  split at isToken
  next found isMark =>
    cases isToken
    obtain ⟨-, sign, isSign⟩ := scanMark_lexeme isMark
    rw [isSign] at isEnd
    cases isEnd
  next =>
    split_ifs at isToken with isQuote isDigit isLetter
    · split at isToken <;> cases isToken
      cases isEnd
    · cases isToken
      cases isEnd
    · cases isToken
      exact nameKind_ne_endOfInput _ isEnd

theorem scan_lexeme_ne_nil (isToken : scan first rest = .ok scanned) : scanned.lexeme ≠ [] := by
  intro isEmpty
  have whole := congrArg List.length (scan_lexeme isToken)
  have shorter := scan_length_le isToken
  rw [isEmpty, nil_append, length_cons] at whole
  omega

/-- The characters of a text behind some that have been read, cut into tokens and what stands
between them. -/
inductive Tiles : List Char → List Char → List Token → Prop
  | done {before gap : List Char} (filler : Filler True gap) :
      Tiles before gap
        [⟨.endOfInput, .between (.behind (before ++ gap)) (String.utf8Len (before ++ gap)), ""⟩]
  | token {before gap lexeme rest : List Char} {kind : TokenKind} {tokens : List Token}
      (filler : Filler False gap) (nonempty : lexeme ≠ []) (isReal : kind ≠ .endOfInput)
      (further : Tiles (before ++ gap ++ lexeme) rest tokens) :
      Tiles before (gap ++ lexeme ++ rest)
        (⟨kind, .between (.behind (before ++ gap)) (String.utf8Len (before ++ gap ++ lexeme)),
          String.ofList lexeme⟩ :: tokens)

/-- Tokens that are read behind some characters are cut from the characters that are left. -/
theorem tiles_of_tokensFrom {before : List Char} {tokens : List Token}
    (behind : pos = .behind before) (read : tokensFrom pos chars = .ok tokens) :
    Tiles before chars tokens := by
  fun_induction tokensFrom pos chars generalizing before tokens with
  | case1 => cases read
  | case2 pos chars place skipped =>
    cases read
    obtain ⟨gap, rfl, rfl, filled⟩ := filled_of_skip skipped
    rw [behind, Position.afterAll_behind, append_nil]
    exact .done (Filler.mono filled fun _ => trivial)
  | case3 => cases read
  | case4 => cases read
  | case5 pos chars place first rest skipped scanned isToken stop token others =>
    rename_i readOthers ih
    cases read
    obtain ⟨gap, rfl, rfl, filled⟩ := filled_of_skip skipped
    -- a token follows, so no comment in front of it ends with the text
    have filler : Filler False gap := Filler.mono filled (cons_ne_nil first rest)
    have atStop : stop = .behind (before ++ gap ++ scanned.lexeme) := by
      simp only [stop, behind, Position.afterAll_behind]
    have tiles := Tiles.token filler (scan_lexeme_ne_nil isToken) (scan_ne_endOfInput isToken)
      (ih atStop readOthers)
    rw [append_assoc, ← scan_lexeme isToken] at tiles
    simp only [token, atStop, behind, Position.afterAll_behind]
    exact tiles

namespace Tiles

variable {src : String} {before rest : List Char} {tokens : List Token}

theorem ne_nil (tiles : Tiles before rest tokens) : tokens ≠ [] := by
  cases tiles <;> exact cons_ne_nil _ _

theorem ended (tiles : Tiles before rest tokens) : Ended tokens := by
  induction tiles with
  | done => exact .last rfl
  | token _ _ isReal _ ih => exact .cons isReal ih

theorem spelled (tiles : Tiles before rest tokens) (whole : src.toList = before ++ rest) :
    ∀ token ∈ tokens.dropLast, token.kind ≠ .endOfInput ∧ token.span.start < token.span.stop ∧
      Stretch src token.span.start token.span.stop token.lexeme.toList := by
  induction tiles with
  | done => exact fun _ mem => absurd mem not_mem_nil
  | @token before gap lexeme rest kind tokens filler nonempty isReal further ih =>
    rw [dropLast_cons_of_ne_nil further.ne_nil]
    refine List.forall_mem_cons.mpr ⟨⟨isReal, ?_, ?_⟩, ih (by simpa using whole)⟩
    · obtain ⟨first, others, rfl⟩ := exists_cons_of_ne_nil nonempty
      have positive := first.utf8Size_pos
      simp only [Span.between, Position.behind, String.utf8Len_append, String.utf8Len_cons]
      omega
    · refine ⟨before ++ gap, rest, ?_, rfl, ?_⟩
      · simpa using whole
      · simp only [Span.between, Position.behind, String.utf8Len_append, String.toList_ofList]

theorem last (tiles : Tiles before rest tokens) (whole : src.toList = before ++ rest) :
    ∃ token, tokens.getLast? = some token ∧ token.kind = .endOfInput ∧
      token.span.start = src.utf8ByteSize ∧ token.span.stop = src.utf8ByteSize := by
  induction tiles with
  | done =>
    have size := congrArg String.utf8Len whole
    rw [String.utf8Len_toList] at size
    exact ⟨_, rfl, rfl, size.symm, size.symm⟩
  | @token before gap lexeme rest kind tokens filler nonempty isReal further ih =>
    obtain ⟨token, isLast, isEnd⟩ := ih (by simpa using whole)
    exact ⟨token, by simp [getLast?_cons, isLast], isEnd⟩

theorem located (tiles : Tiles before rest tokens) (whole : src.toList = before ++ rest) :
    ∀ token ∈ tokens, token.span.Located src := by
  induction tiles with
  | @done before gap filler =>
    refine List.forall_mem_singleton.mpr ⟨before ++ gap, ⟨[], [], ?_, rfl, ?_⟩, rfl, rfl⟩
    · simpa using whole
    · exact Nat.zero_add _
  | @token before gap lexeme rest kind tokens filler nonempty isReal further ih =>
    refine List.forall_mem_cons.mpr ⟨⟨before ++ gap, ⟨[], lexeme ++ rest, ?_, rfl, ?_⟩, rfl, rfl⟩,
      ih (by simpa using whole)⟩
    · simpa using whole
    · exact Nat.zero_add _

theorem le_start (tiles : Tiles before rest tokens) :
    ∀ token ∈ tokens, String.utf8Len before ≤ token.span.start := by
  induction tiles with
  | done =>
    refine List.forall_mem_singleton.mpr ?_
    simp [Span.between, Position.behind]
  | token filler nonempty isReal further ih =>
    refine List.forall_mem_cons.mpr ⟨by simp [Span.between, Position.behind], ?_⟩
    intro token mem
    have later := ih token mem
    simp only [String.utf8Len_append] at later
    omega

theorem ordered (tiles : Tiles before rest tokens) :
    tokens.Pairwise fun first second => first.span.stop ≤ second.span.start := by
  induction tiles with
  | done => exact pairwise_singleton _ _
  | token filler nonempty isReal further ih => exact .cons further.le_start ih

theorem gaps (tiles : Tiles before rest tokens) (whole : src.toList = before ++ rest) :
    ∀ bounds ∈ (String.utf8Len before :: tokens.map (·.span.stop)).zip (tokens.map (·.span.start)),
      ∃ chars, Stretch src bounds.1 bounds.2 chars ∧
        Filler (bounds.2 = src.utf8ByteSize) chars := by
  induction tiles with
  | @done before gap filler =>
    have size := congrArg String.utf8Len whole
    rw [String.utf8Len_toList] at size
    refine List.forall_mem_singleton.mpr ⟨gap, ⟨before, [], ?_, rfl, ?_⟩, ?_⟩
    · simpa using whole
    · exact (String.utf8Len_append ..).symm
    · exact filler.mono fun _ => size.symm
  | @token before gap lexeme rest kind tokens filler nonempty isReal further ih =>
    refine List.forall_mem_cons.mpr ⟨⟨gap, ⟨before, lexeme ++ rest, ?_, rfl, ?_⟩, ?_⟩, ?_⟩
    · simpa using whole
    · exact (String.utf8Len_append ..).symm
    · exact filler.mono False.elim
    · exact ih (by simpa using whole)

end Tiles

end Lexer

/-! ## Texts -/

theorem tokenize_ended {src : String} {tokens : List Token}
    (read : tokenize src = .ok tokens) : Ended tokens := by
  have tiles : Lexer.Tiles [] src.toList tokens := Lexer.tiles_of_tokensFrom rfl read
  exact tiles.ended

/-- The tokens of a text stand in it one after the other, each where its place says.  In front of
the first token, between tokens and behind the last one that is spelled there are only white space
and complete comments.  The end of the input is the last token and no other. -/
theorem tokens_tile_text {source : String} {tokens : List Token}
    (read : tokenize source = .ok tokens) :
    (∀ token ∈ tokens.dropLast, token.kind ≠ .endOfInput ∧ token.span.start < token.span.stop ∧
      Stretch source token.span.start token.span.stop token.lexeme.toList) ∧
    (∃ token, tokens.getLast? = some token ∧ token.kind = .endOfInput ∧
      token.span.start = source.utf8ByteSize ∧ token.span.stop = source.utf8ByteSize) ∧
    (tokens.Pairwise fun first second => first.span.stop ≤ second.span.start) ∧
    (∀ bounds ∈ (0 :: tokens.map (·.span.stop)).zip (tokens.map (·.span.start)),
      ∃ characters, Stretch source bounds.1 bounds.2 characters ∧
        Lexer.Filler (bounds.2 = source.utf8ByteSize) characters) ∧
    ∀ token ∈ tokens, token.span.Located source := by
  have tiles : Lexer.Tiles [] source.toList tokens := Lexer.tiles_of_tokensFrom rfl read
  exact ⟨tiles.spelled rfl, tiles.last rfl, tiles.ordered, tiles.gaps rfl, tiles.located rfl⟩

def commentedText : String :=
  "-- a\n/* b\n **/ été := \"x\ny\" // c\n\x7b- d -\x7d 12 --"

def commentedTokens : List Token :=
  [⟨.lower "été", ⟨15, 20, 3, 6⟩, "été"⟩, ⟨.mark .assign, ⟨21, 23, 3, 10⟩, ":="⟩,
    ⟨.string "x\ny", ⟨24, 29, 3, 13⟩, "\"x\ny\""⟩, ⟨.number 12, ⟨43, 45, 5, 9⟩, "12"⟩,
    ⟨.endOfInput, ⟨48, 48, 5, 14⟩, ""⟩]

theorem commentedTokens_tile_text :
    tokenize commentedText = .ok commentedTokens ∧
    (∀ token ∈ commentedTokens.dropLast, Stretch commentedText token.span.start token.span.stop
      token.lexeme.toList) ∧
    (∀ bounds ∈ [(0, 15), (20, 21), (23, 24), (29, 43), (45, 48)],
      ∃ characters, Stretch commentedText bounds.1 bounds.2 characters ∧
        Lexer.Filler (bounds.2 = 48) characters) ∧
    ∀ token ∈ commentedTokens, token.span.Located commentedText := by
  have read : tokenize commentedText = .ok commentedTokens := by decide +kernel
  have size : commentedText.utf8ByteSize = 48 := by decide +kernel
  obtain ⟨spelled, -, -, gaps, located⟩ := tokens_tile_text read
  rw [size] at gaps
  exact ⟨read, fun token member => (spelled token member).2.2, gaps, located⟩

end StoneBoard
