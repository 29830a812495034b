import StoneBoard.Proofs.JoinedTexts
import StoneBoard.Proofs.JsonText
import StoneBoard.Proofs.Words

/-!
# Tokens as text

Every token has a spelling.  A text that is put together from the spellings of tokens, with one
space between them, is read as the same tokens again.
-/

namespace StoneBoard

open List

def Text.escaped (character : Char) : List Char :=
  if character = '"' ∨ character = '\\' then ['\\', character] else [character]

namespace TokenKind

/-- The text that a token is read from.  Unlike in messages, strings are escaped. -/
def spelling : TokenKind → String
  | string value => String.ofList ('"' :: (value.toList.flatMap Text.escaped ++ ['"']))
  | kind => kind.text

structure IsName (capital : Bool) (name : String) : Prop where
  identifier : IsIdentifier name
  initial : ∀ first ∈ name.toList.head?, Text.isCapital first = capital
  free : ∀ word : Keyword, word.text ≠ name

/-- The end of the input has no spelling, and names are names of the language. -/
def Writable : TokenKind → Prop
  | upper name => IsName true name
  | lower name => IsName false name
  | endOfInput => False
  | _ => True

end TokenKind

def TokenKind.unscan (kinds : List TokenKind) : String :=
  String.intercalate " " (kinds.map spelling)

/-! ## Characters -/

namespace Text

variable {char : Char}

theorem not_covers_of_disjoint {ranges others : List (Nat × Nat)}
    (disjoint : ranges.all (fun range => others.all fun other =>
      range.2 < other.1 || other.2 < range.1) = true)
    (covered : covers ranges char = true) : covers others char = false := by
  rw [Bool.eq_false_iff]
  intro coveredToo
  obtain ⟨range, mem, inRange⟩ := List.any_eq_true.mp covered
  obtain ⟨other, otherMember, inOther⟩ := List.any_eq_true.mp coveredToo
  have apart := List.all_eq_true.mp (List.all_eq_true.mp disjoint range mem) other otherMember
  simp only [Bool.and_eq_true, Bool.or_eq_true, decide_eq_true_eq] at inRange inOther apart
  omega

theorem lt_toNat_of_isLetter (isLetter : Text.isLetter char = true) : 64 < char.toNat := by
  unfold Text.isLetter at isLetter
  split at isLetter
  next =>
    rcases Bool.or_eq_true_iff.mp isLetter with isUpper | isLower
    · exact UInt32.le_iff_toNat_le.mp (of_decide_eq_true isUpper).1
    · have low := of_decide_eq_true (Bool.and_eq_true_iff.mp isLower).1
      exact Nat.lt_of_lt_of_le (by decide) (UInt32.le_iff_toNat_le.mp low)
  next beyond =>
    rw [isAscii, decide_eq_true_eq] at beyond
    omega

theorem isBlank_of_isLetter (isLetter : Text.isLetter char = true) : isBlank char = false := by
  have large := lt_toNat_of_isLetter isLetter
  unfold isBlank
  split
  next =>
    have notSpace : (char == ' ') = false := by
      rw [beq_eq_false_iff_ne]
      rintro rfl
      cases isLetter
    rw [notSpace, Bool.false_or, Bool.and_eq_false_iff, decide_eq_false_iff_not,
      decide_eq_false_iff_not]
    omega
  next beyond =>
    rw [Text.isLetter, if_neg beyond] at isLetter
    exact not_covers_of_disjoint (by decide +kernel) isLetter

theorem isDigit_of_isLetter (isLetter : Text.isLetter char = true) : char.isDigit = false := by
  have large := lt_toNat_of_isLetter isLetter
  rw [Bool.eq_false_iff]
  intro isDigit
  have small : char.toNat ≤ 57 := (Char.isDigit_iff_toNat.mp isDigit).2
  omega

end Text

namespace Lexer

variable {first : Char} {rest : List Char} {kind : TokenKind}
variable {others chars : List Char} {pos place : Position} {kinds : List TokenKind}

def markStarts : List Char :=
  ['(', ')', '{', '}', '[', ']', ',', ';', '+', '-', '*', '^', '<', '>', '_', ':', '.', '=', '/',
    '&', '|']

theorem not_mem_markStarts
    (isStart : first = '"' ∨ first.isDigit = true ∨ Text.isLetter first = true) :
    first ∉ markStarts := by
  have others : markStarts.all (fun mark =>
    mark != '"' && !mark.isDigit && !Text.isLetter mark) = true := by decide
  intro mem
  have other := List.all_eq_true.mp others first mem
  simp only [Bool.and_eq_true, bne_iff_ne, Bool.not_eq_true'] at other
  obtain ⟨⟨notQuote, notDigit⟩, notLetter⟩ := other
  rcases isStart with isQuote | isDigit | isLetter
  · exact notQuote isQuote
  · rw [notDigit] at isDigit
    cases isDigit
  · rw [notLetter] at isLetter
    cases isLetter

section Plain

variable {first : Char} (plain : first ∉ markStarts)
include plain

theorem commentOf?_eq_none (pos : Position) (second : Char) :
    commentOf? pos first second = none := by
  unfold commentOf?
  split <;> first | rfl | exact absurd (by decide) plain

theorem pairMark?_eq_none (second : Char) : pairMark? first second = none := by
  unfold pairMark?
  split <;> first | rfl | exact absurd (by decide) plain

theorem singleMark?_eq_none : singleMark? first = none := by
  unfold singleMark?
  split <;> first | rfl | exact absurd (by decide) plain

theorem scanMark_eq_none (rest : List Char) : scanMark first rest = none := by
  cases rest with
  | nil => rw [scanMark, singleMark?_eq_none plain, Option.map_none]
  | cons second later =>
    simp only [scanMark, pairMark?_eq_none plain, singleMark?_eq_none plain, Option.map_none]

end Plain

/-! ## Single tokens -/

def Apart (rest : List Char) : Prop := ∀ next ∈ rest.head?, next = ' '

/-- With a space or nothing behind it, the text of a token starts no comment, and the token is
what it is read as. -/
def ReadAs (kind : TokenKind) (text : List Char) : Prop :=
  ∀ rest, Apart rest → ∃ first others, text = first :: others ∧
    Text.isBlank first = false ∧
    (∀ position, ∀ second ∈ (others ++ rest).head?, commentOf? position first second = none) ∧
    scan first (others ++ rest) = .ok ⟨kind, text, rest⟩

theorem readAs_of_scan (solid : Text.isBlank first = false)
    (noComment : ∀ pos, ∀ second ∈ others.head?, commentOf? pos first second = none)
    (isToken : scan first others = .ok ⟨kind, first :: others, []⟩) :
    ReadAs kind (first :: others) := by
  intro rest apart
  cases rest with
  | nil =>
    simp only [List.append_nil]
    exact ⟨first, others, rfl, solid, noComment, isToken⟩
  | cons next later =>
    obtain rfl := apart next rfl
    refine ⟨first, others, rfl, solid, fun pos second follows => ?_,
      scan_append (.inl rfl) isToken later⟩
    cases others with
    | nil =>
      cases follows
      exact Divides.commentOf? (.inl rfl) pos
    | cons => exact noComment pos second follows

theorem readAs_of_plain (isStart : first = '"' ∨ first.isDigit = true ∨ Text.isLetter first = true)
    (isToken : scan first others = .ok ⟨kind, first :: others, []⟩) :
    ReadAs kind (first :: others) := by
  have solid : Text.isBlank first = false := by
    rcases isStart with rfl | isDigit | isLetter
    · decide
    · exact Text.isBlank_of_isDigit isDigit
    · exact Text.isBlank_of_isLetter isLetter
  refine readAs_of_scan solid (fun pos second _ => ?_) isToken
  exact commentOf?_eq_none (not_mem_markStarts isStart) pos second

theorem singleMark?_or_pairMark? (sign : Mark) :
    (∃ first, sign.text.toList = [first] ∧ singleMark? first = some sign ∧
      Text.isBlank first = false) ∨
    (∃ first second, sign.text.toList = [first, second] ∧ pairMark? first second = some sign ∧
      (∀ pos, commentOf? pos first second = none) ∧ Text.isBlank first = false) := by
  cases sign <;> simp [Mark.text, singleMark?, pairMark?, commentOf?] <;> decide

theorem readAs_mark (sign : Mark) : ReadAs (.mark sign) sign.text.toList := by
  rcases singleMark?_or_pairMark? sign with
    ⟨first, spelled, isMark, solid⟩ | ⟨first, second, spelled, isMark, noComment, solid⟩ <;>
    rw [spelled]
  · refine readAs_of_scan solid (by simp) ?_
    simp only [scan, scanMark, isMark, Option.map_some]
  · refine readAs_of_scan solid (by simpa using noComment) ?_
    simp only [scan, scanMark, isMark]

theorem readAs_number (value : Nat) : ReadAs (.number value) (toString value).toList := by
  obtain ⟨first, others, spelled⟩ := exists_cons_of_ne_nil (Text.toString_ne_nil value)
  have digits := Text.isDigit_toString value
  have isValue := Text.digitsValue_toString value
  rw [spelled] at digits isValue ⊢
  obtain ⟨firstDigit, otherDigits⟩ := List.forall_mem_cons.mp digits
  apply readAs_of_plain (.inr (.inl firstDigit))
  have notQuote : first ≠ '"' := by
    rintro rfl
    cases firstDigit
  rw [scan, scanMark_eq_none (not_mem_markStarts (.inr (.inl firstDigit)))]
  simp only [if_neg notQuote, firstDigit, if_true, List.takeWhile_eq_self_iff.mpr otherDigits,
    List.dropWhile_eq_nil_iff.mpr otherDigits, isValue]

theorem scanString_escaped (value rest : List Char) :
    scanString (value.flatMap Text.escaped ++ '"' :: rest) =
      some (value, value.flatMap Text.escaped ++ ['"'], rest) := by
  induction value with
  | nil => rfl
  | cons first others ih =>
    rw [List.flatMap_cons, List.append_assoc, Text.escaped]
    by_cases special : first = '"' ∨ first = '\\'
    · have same : unescape first = first := by
        rcases special with rfl | rfl <;> rfl
      rw [if_pos special]
      simp only [cons_append, nil_append, scanString, ih, same]
    · rw [if_neg special]
      rw [not_or] at special
      simp only [cons_append, nil_append]
      rw [scanString, ih]
      · exact special.1
      · exact fun isBackslash => absurd isBackslash special.2
      · exact fun _ _ isBackslash => absurd isBackslash special.2

theorem readAs_string (value : String) :
    ReadAs (.string value) ('"' :: (value.toList.flatMap Text.escaped ++ ['"'])) := by
  apply readAs_of_plain (.inl rfl)
  rw [scan, scanMark_eq_none (not_mem_markStarts (.inl rfl))]
  simp only [if_true, scanString_escaped, String.ofList_toList]

theorem readAs_letters (isLetter : Text.isLetter first = true)
    (continues : ∀ char ∈ others, continuesName char = true) :
    ReadAs (nameKind (first :: others)) (first :: others) := by
  apply readAs_of_plain (.inr (.inr isLetter))
  have notQuote : first ≠ '"' := by
    rintro rfl
    revert isLetter
    decide
  have notDigit := Text.isDigit_of_isLetter isLetter
  rw [scan, scanMark_eq_none (not_mem_markStarts (.inr (.inr isLetter)))]
  simp only [if_neg notQuote, notDigit, Bool.false_eq_true, if_false, isLetter, if_true,
    List.takeWhile_eq_self_iff.mpr continues, List.dropWhile_eq_nil_iff.mpr continues]

theorem nameKind_keyword (word : Keyword) : nameKind word.text.toList = .keyword word := by
  cases word <;> decide

theorem nameKind_name {capital : Bool} {name : String} (isName : TokenKind.IsName capital name) :
    nameKind name.toList = if capital then .upper name else .lower name := by
  have notKeyword : Keyword.ofText? name = none := by
    rw [Keyword.ofText?, List.find?_eq_none]
    exact fun word _ => by simpa using isName.free word
  obtain ⟨first, others, spelled, -⟩ := isName.identifier
  have initial := isName.initial first (by rw [spelled]; rfl)
  simp only [nameKind, String.ofList_toList, notKeyword]
  simp only [spelled, initial]

theorem isIdentifier_keyword (word : Keyword) : IsIdentifier word.text := by
  cases word <;>
    exact ⟨_, _, rfl, by decide, List.all_eq_true.mp (by decide)⟩

theorem readAs_spelling (writable : kind.Writable) : ReadAs kind kind.spelling.toList := by
  cases kind with
  | number value => exact readAs_number value
  | string value =>
    rw [TokenKind.spelling, String.toList_ofList]
    exact readAs_string value
  | upper name | lower name =>
    obtain ⟨first, others, spelled, isLetter, continues⟩ := writable.identifier
    have named := nameKind_name writable
    have read := readAs_letters isLetter continues
    rwa [← spelled, named] at read
  | keyword word =>
    obtain ⟨first, others, spelled, isLetter, continues⟩ := isIdentifier_keyword word
    have read := readAs_letters isLetter continues
    rwa [← spelled, nameKind_keyword] at read
  | mark sign => exact readAs_mark sign
  | endOfInput => exact writable.elim

/-! ## Texts -/

theorem skip_nothing (pos : Position) (solid : Text.isBlank first = false)
    (noComment : ∀ second ∈ rest.head?, commentOf? pos first second = none) :
    skip .blank pos (first :: rest) = .ok (pos, first :: rest) := by
  rw [skip.eq_def]
  simp only [solid, Bool.false_eq_true, if_false]
  cases rest with
  | nil => rfl
  | cons second later => simp only [noComment second rfl]

theorem tokensFrom_nil (pos : Position) : ∃ span,
    tokensFrom pos [] = .ok [⟨.endOfInput, span, ""⟩] :=
  ⟨_, tokensFrom_of_end rfl⟩

theorem ReadAs.tokensFrom {text : List Char} (read : ReadAs kind text) (apart : Apart rest)
    (skipped : skip .blank pos chars = skip .blank place (text ++ rest)) : ∃ span,
    tokensFrom pos chars =
      (tokensFrom (place.afterAll text) rest).map (⟨kind, span, String.ofList text⟩ :: ·) := by
  obtain ⟨first, others, rfl, solid, noComment, isToken⟩ := read rest apart
  rw [List.cons_append, skip_nothing place solid (noComment place)] at skipped
  exact ⟨_, tokensFrom_of_scan skipped isToken⟩

def Yields (kinds : List TokenKind) (read : Except Error (List Token)) : Prop :=
  ∃ tokens, read = .ok tokens ∧ tokens.map Token.kind = kinds ++ [.endOfInput] ∧
    tokens.map Token.lexeme = kinds.map TokenKind.spelling ++ [""]

theorem Yields.cons {read : Except Error (List Token)} (yields : Yields kinds read)
    (kind : TokenKind) (span : Span) :
    Yields (kind :: kinds) (read.map (⟨kind, span, kind.spelling⟩ :: ·)) := by
  obtain ⟨tokens, rfl, sameKinds, sameSpellings⟩ := yields
  refine ⟨_, rfl, ?_, ?_⟩
  · rw [List.map_cons, sameKinds, List.cons_append]
  · rw [List.map_cons, sameSpellings, List.map_cons, List.cons_append]

theorem apart_spellings (kinds : List TokenKind) :
    Apart (kinds.flatMap fun kind => ' ' :: kind.spelling.toList) := by
  cases kinds with
  | nil => exact fun next follows => by cases follows
  | cons kind others => exact fun next follows => by cases follows; rfl

theorem yields_spellings (writable : ∀ kind ∈ kinds, kind.Writable) (pos : Position) :
    Yields kinds (tokensFrom pos (kinds.flatMap fun kind => ' ' :: kind.spelling.toList)) := by
  induction kinds generalizing pos with
  | nil =>
    obtain ⟨span, ended⟩ := tokensFrom_nil pos
    exact ⟨_, ended, rfl, rfl⟩
  | cons kind others ih =>
    obtain ⟨kindWritable, othersWritable⟩ := List.forall_mem_cons.mp writable
    obtain ⟨span, reads⟩ := (readAs_spelling kindWritable).tokensFrom (apart_spellings others)
      (skip_of_isBlank (show Text.isBlank ' ' = true by decide) _)
    rw [List.flatMap_cons, List.cons_append, reads, String.ofList_toList]
    exact (ih othersWritable _).cons kind span

end Lexer

theorem TokenKind.toList_unscan (kind : TokenKind) (others : List TokenKind) :
    (unscan (kind :: others)).toList =
      kind.spelling.toList ++ others.flatMap fun kind => ' ' :: kind.spelling.toList := by
  rw [unscan, String.toList_intercalate, List.map_cons, List.map_cons, Json.intercalate_cons]
  simp [List.flatMap_map]

/-- Tokens of all kinds can be written down, with one space between them, and are read again. -/
theorem tokenize_unscan {kinds : List TokenKind} (writable : ∀ kind ∈ kinds, kind.Writable) :
    ∃ tokens, tokenize (TokenKind.unscan kinds) = .ok tokens ∧
      tokens.map Token.kind = kinds ++ [.endOfInput] ∧
      tokens.map Token.lexeme = kinds.map TokenKind.spelling ++ [""] := by
  cases kinds with
  | nil =>
    obtain ⟨span, ended⟩ := Lexer.tokensFrom_nil .start
    exact ⟨_, ended, rfl, rfl⟩
  | cons kind others =>
    obtain ⟨kindWritable, othersWritable⟩ := List.forall_mem_cons.mp writable
    obtain ⟨span, reads⟩ := (Lexer.readAs_spelling kindWritable).tokensFrom
      (Lexer.apart_spellings others) rfl
    rw [tokenize, TokenKind.toList_unscan, reads, String.ofList_toList]
    exact (Lexer.yields_spellings othersWritable _).cons kind span

def mixedKinds : List TokenKind :=
  [.mark .leftBrace, .mark .minus, .mark .minus, .mark .arrow, .mark .notEqual, .mark .star,
    .number 1180591620717411303424, .string "\\n \" -- ", .upper "Ñu'", .lower "div_2",
    .keyword .div]

theorem mixedKinds_read_again :
    (∀ kind ∈ mixedKinds, kind.Writable) ∧
      TokenKind.unscan mixedKinds =
        "\x7b - - -> /= * 1180591620717411303424 \"\\\\n \\\" -- \" Ñu' div_2 div" ∧
      ∃ tokens, tokenize (TokenKind.unscan mixedKinds) = .ok tokens ∧
        tokens.map Token.kind = mixedKinds ++ [.endOfInput] := by
  have upper : TokenKind.IsName true "Ñu'" := by
    refine ⟨⟨'Ñ', ['u', '\x27'], rfl, by decide +kernel, List.all_eq_true.mp (by decide +kernel)⟩,
      fun first isFirst => ?_, fun word => by cases word <;> decide⟩
    cases isFirst
    decide +kernel
  have lower : TokenKind.IsName false "div_2" := by
    refine ⟨⟨'d', ['i', 'v', '_', '2'], rfl, by decide +kernel,
      List.all_eq_true.mp (by decide +kernel)⟩,
      fun first isFirst => ?_, fun word => by cases word <;> decide⟩
    cases isFirst
    decide +kernel
  have writable : ∀ kind ∈ mixedKinds, kind.Writable := by
    simp [mixedKinds, TokenKind.Writable, upper, lower]
  obtain ⟨tokens, read, sameKinds, -⟩ := tokenize_unscan writable
  exact ⟨writable, by decide +kernel, tokens, read, sameKinds⟩

end StoneBoard
