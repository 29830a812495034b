import Mathlib.Data.List.TakeWhile
import Mathlib.Data.String.Basic
import Mathlib.Tactic.SplitIfs
import StoneBoard.Proofs.Places
import StoneBoard.Proofs.Regular

/-!
# Tokens that have been read

The tokens of a text lie within the text, and those that are names are names of the language.
While a text is read, the position and the characters that are left make up the whole text.
-/

namespace StoneBoard

open List

/-- Tokens of a text; only the end of the input need not stand on one of its lines. -/
structure Token.Spelled (source : String) (token : Token) : Prop where
  within : token.span.Within source
  shown : token.kind ≠ .endOfInput → token.span.On source
  lower : ∀ name, token.kind = .lower name → IsIdentifier name
  upper : ∀ name, token.kind = .upper name → IsIdentifier name

def Spelled (source : String) (tokens : List Token) : Prop := ∀ token ∈ tokens, token.Spelled source

namespace Spelled

variable {src : String} {token : Token} {rest : List Token}

theorem head (spelled : Spelled src (token :: rest)) : token.Spelled src :=
  spelled token mem_cons_self

theorem tail (spelled : Spelled src (token :: rest)) : Spelled src rest :=
  fun other mem => spelled other (mem_cons_of_mem _ mem)

end Spelled

/-- Tokens up to the end of the input, which is the last of them and no other. -/
inductive Ended : List Token → Prop
  | last {token : Token} (atEnd : token.kind = .endOfInput) : Ended [token]
  | cons {token : Token} {rest : List Token} (notEnd : token.kind ≠ .endOfInput)
      (ended : Ended rest) : Ended (token :: rest)

/-! ## Positions -/

theorem Text.linesFrom_cons_ne_nil (line : List Char) {char : Char} {rest : List Char} :
    linesFrom line (char :: rest) ≠ [] := by
  induction rest generalizing line char with
  | nil => by_cases newLine : char = '\n' <;> simp [linesFrom, newLine]
  | cons next rest ih =>
    by_cases newLine : char = '\n'
    · simp [linesFrom, newLine]
    · rw [linesFrom, if_neg newLine]
      exact ih _

/-- A position in a text, with the characters behind it.  Some lines end before it. -/
structure Position.Before (source : String) (position : Position) (characters : List Char) :
    Prop where
  offset : position.offset + String.utf8Len characters = source.utf8ByteSize
  line : position.line ≤ position.offset + 1
  column : position.column ≤ position.offset + 1
  lines : ∃ done line, Text.linesFrom [] source.toList = done ++ Text.linesFrom line characters ∧
    position.line = done.length + 1

namespace Position.Before

variable {src : String} {pos : Position} {chars rest : List Char} {char : Char}

theorem start (src : String) : Position.start.Before src src.toList where
  offset := by
    rw [← String.utf8ByteSize_ofList, String.ofList_toList]
    exact Nat.zero_add _
  line := Nat.le_refl _
  column := Nat.le_refl _
  lines := ⟨[], [], rfl, rfl⟩

theorem after (before : pos.Before src (char :: rest)) : (pos.after char).Before src rest := by
  obtain ⟨whole, line, column, done, current, lines, count⟩ := before
  have positive := char.utf8Size_pos
  rw [String.utf8Len_cons] at whole
  rw [Text.linesFrom] at lines
  unfold Position.after
  split
  next newLine =>
    rw [if_pos newLine, append_cons] at lines
    exact ⟨by simp only; omega, by simp only; omega, by simp only; omega, _, _, lines, by
      simp [count]⟩
  next inLine =>
    rw [if_neg inLine] at lines
    exact ⟨by simp only; omega, by simp only; omega, by simp only; omega, _, _, lines, count⟩

theorem afterAll (before : pos.Before src (chars ++ rest)) :
    (pos.afterAll chars).Before src rest := by
  induction chars generalizing pos with
  | nil => exact before
  | cons first others ih => exact ih before.after

theorem offset_le (before : pos.Before src chars) : pos.offset ≤ src.utf8ByteSize := by
  have whole := before.offset
  omega

theorem between (before : pos.Before src chars) {stop : Nat} (within : stop ≤ src.utf8ByteSize) :
    (Span.between pos stop).Within src where
  start := before.offset_le
  stop := within
  line := Nat.le_trans before.line (Nat.succ_le_succ before.offset_le)
  column := Nat.le_trans before.column (Nat.succ_le_succ before.offset_le)

theorem between_on (before : pos.Before src (char :: rest)) {stop : Nat}
    (within : stop ≤ src.utf8ByteSize) : (Span.between pos stop).On src := by
  obtain ⟨done, line, lines, count⟩ := before.lines
  refine ⟨before.between within, done.length, ?_, count⟩
  rw [Text.lines, length_map, lines, length_append]
  exact Nat.lt_add_of_pos_right (List.length_pos_iff.mpr (Text.linesFrom_cons_ne_nil line))

end Position.Before

namespace Lexer

variable {src : String}
variable {pos : Position} {first : Char} {chars rest : List Char} {scanned : Scanned}
variable {later : List Char} {gap : Gap} {name : String}

/-! ## Between tokens -/

/-- A comment that has to be closed began within the text. -/
def Gap.OpenedIn (source : String) : Gap → Prop
  | .block opening _ _ => (Span.between opening (opening.offset + 2)).Within source
  | _ => True

theorem commentOf?_openedIn {second : Char} (before : pos.Before src (first :: second :: later))
    (opens : commentOf? pos first second = some gap) : gap.OpenedIn src := by
  have within : (Span.between pos (pos.offset + 2)).Within src := by
    apply before.between
    have whole := before.offset
    have firstPositive := first.utf8Size_pos
    have secondPositive := second.utf8Size_pos
    rw [String.utf8Len_cons, String.utf8Len_cons] at whole
    omega
  unfold commentOf? at opens
  split at opens <;> cases opens
  · trivial
  · trivial
  · exact within
  · exact within

theorem skip_before (opened : gap.OpenedIn src) (before : pos.Before src chars) :
    FaultsIn (Span.Within src) (skip gap pos chars) ∧
      ∀ place rest, skip gap pos chars = .ok (place, rest) →
        place.Before src rest := by
  fun_induction skip gap pos chars with
  | case1 => exact ⟨.ok _, fun _ _ same => by cases same; exact before⟩
  | case2 => exact ⟨.ok _, fun _ _ same => by cases same; exact before⟩
  | case3 => exact ⟨.error (.located rfl opened), fun _ _ same => by cases same⟩
  | case4 pos first rest isBlank ih => exact ih trivial before.after
  | case5 => exact ⟨.ok _, fun _ _ same => by cases same; exact before⟩
  | case6 pos first notBlank second later gap opens ih =>
    exact ih (commentOf?_openedIn before opens) before.after.after
  | case7 => exact ⟨.ok _, fun _ _ same => by cases same; exact before⟩
  | case8 pos rest ih => exact ih trivial before.after
  | case9 pos first rest inLine ih => exact ih trivial before.after
  | case10 => exact ⟨.error (.located rfl opened), fun _ _ same => by cases same⟩
  | case11 _ _ _ _ _ _ _ _ ih => exact ih trivial before.after.after
  | case12 _ _ _ _ _ _ _ _ ih => exact ih opened before.after

theorem skip_blank_before (before : pos.Before src chars) :
    FaultsIn (Span.Within src) (skip .blank pos chars) ∧
      ∀ place rest, skip .blank pos chars = .ok (place, rest) →
        place.Before src rest :=
  skip_before trivial before

/-! ## Tokens -/

theorem scanString_spelling {value spelling : List Char}
    (scanned : scanString chars = some (value, spelling, later)) : chars = spelling ++ later := by
  fun_induction scanString chars generalizing value spelling later <;> grind

theorem scanMark_lexeme (isMark : scanMark first rest = some scanned) :
    first :: rest = scanned.lexeme ++ scanned.rest ∧ ∃ sign, scanned.kind = .mark sign := by
  have single : ∀ found,
      ((singleMark? first).map fun sign => (⟨.mark sign, [first], rest⟩ : Scanned)) = some found →
        first :: rest = found.lexeme ++ found.rest ∧ ∃ sign, found.kind = .mark sign := by
    intro found isSingle
    obtain ⟨sign, -, rfl⟩ := Option.map_eq_some_iff.mp isSingle
    exact ⟨rfl, sign, rfl⟩
  unfold scanMark at isMark
  split at isMark
  next => exact single _ isMark
  next second later =>
    split at isMark
    next sign _ =>
      cases isMark
      exact ⟨rfl, sign, rfl⟩
    next => exact single _ isMark

theorem scan_lexeme (isToken : scan first rest = .ok scanned) :
    first :: rest = scanned.lexeme ++ scanned.rest := by
  unfold scan at isToken
  split at isToken
  next found isMark =>
    cases isToken
    exact (scanMark_lexeme isMark).1
  next =>
    split_ifs at isToken with isQuote isDigit isLetter
    · split at isToken
      next value spelling later closed =>
        cases isToken
        rw [cons_append, ← scanString_spelling closed]
      next => cases isToken
    · cases isToken
      rw [cons_append, takeWhile_append_dropWhile]
    · cases isToken
      rw [cons_append, takeWhile_append_dropWhile]

theorem nameKind_spelled (isLetter : Text.isLetter first = true)
    (continues : ∀ char ∈ rest, continuesName char = true)
    (isName : nameKind (first :: rest) = .lower name ∨ nameKind (first :: rest) = .upper name) :
    IsIdentifier name := by
  have same : String.ofList (first :: rest) = name := by
    simp only [nameKind] at isName
    split at isName
    · rcases isName with isName | isName <;> cases isName
    · split at isName <;> rcases isName with isName | isName <;> cases isName <;> rfl
  exact ⟨first, rest, by rw [← same, String.toList_ofList], isLetter, continues⟩

theorem scan_spelled (isToken : scan first rest = .ok scanned)
    (isName : scanned.kind = .lower name ∨ scanned.kind = .upper name) : IsIdentifier name := by
  unfold scan at isToken
  split at isToken
  next found isMark =>
    cases isToken
    obtain ⟨-, sign, isSign⟩ := scanMark_lexeme isMark
    rw [isSign] at isName
    rcases isName with isName | isName <;> cases isName
  next =>
    split_ifs at isToken with isQuote isDigit isLetter
    · split at isToken <;> cases isToken
      rcases isName with isName | isName <;> cases isName
    · cases isToken
      rcases isName with isName | isName <;> cases isName
    · cases isToken
      exact nameKind_spelled isLetter (fun _ mem => mem_takeWhile_imp mem) isName

theorem scan_fault {cause : Cause} (fails : scan first rest = .error cause) :
    cause.errorClass = .static := by
  unfold scan at fails
  split at fails
  next => cases fails
  next =>
    split_ifs at fails
    · split at fails <;> cases fails
      rfl
    · cases fails
      rfl

theorem faultStop_le (before : pos.Before src (first :: rest)) (cause : Cause) :
    faultStop pos first rest cause ≤ src.utf8ByteSize := by
  unfold faultStop
  split
  · have wholeBefore : pos.Before src ((first :: rest) ++ []) := by simpa using before
    exact wholeBefore.afterAll.offset_le
  · exact before.after.offset_le

theorem tokensFrom_spelled (before : pos.Before src chars) :
    FaultsIn (Span.Within src) (tokensFrom pos chars) ∧
      ∀ tokens, tokensFrom pos chars = .ok tokens → Spelled src tokens := by
  fun_induction tokensFrom pos chars with
  | case1 pos chars error skipped =>
    refine ⟨.error ?_, fun _ same => by cases same⟩
    exact (skip_blank_before before).1 error skipped
  | case2 pos chars place skipped =>
    refine ⟨.ok _, fun tokens same => ?_⟩
    cases same
    have atEnd := (skip_blank_before before).2 _ _ skipped
    intro token mem
    cases List.mem_singleton.mp mem
    exact ⟨atEnd.between atEnd.offset_le, fun notEnd => absurd rfl notEnd, nofun, nofun⟩
  | case3 pos chars place first rest skipped cause fails =>
    have atToken := (skip_blank_before before).2 _ _ skipped
    refine ⟨.error (.located (scan_fault fails) ?_), fun _ same => by cases same⟩
    exact atToken.between (faultStop_le atToken cause)
  | case4 pos chars place first rest skipped scanned isToken stop error failed ih =>
    have atToken := (skip_blank_before before).2 _ _ skipped
    rw [scan_lexeme isToken] at atToken
    exact ⟨.error ((ih atToken.afterAll).1 error failed), fun _ same => by cases same⟩
  | case5 pos chars place first rest skipped scanned isToken stop token others readOthers
      ih =>
    have atToken := (skip_blank_before before).2 _ _ skipped
    have behind := scan_lexeme isToken ▸ atToken
    have isOn := atToken.between_on behind.afterAll.offset_le
    refine ⟨.ok _, fun tokens same => ?_⟩
    cases same
    refine List.forall_mem_cons.mpr ⟨⟨isOn.toWithin, fun _ => isOn, fun name isName => ?_,
      fun name isName => ?_⟩, ?_⟩
    · exact scan_spelled isToken (.inl isName)
    · exact scan_spelled isToken (.inr isName)
    · exact (ih behind.afterAll).2 others readOthers

end Lexer

theorem tokenize_spelled (src : String) : FaultsIn (Span.Within src) (tokenize src) ∧
      ∀ tokens, tokenize src = .ok tokens → Spelled src tokens :=
  Lexer.tokensFrom_spelled (.start src)

end StoneBoard
