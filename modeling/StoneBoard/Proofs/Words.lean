import Mathlib.Data.List.Basic
import Mathlib.Data.List.TakeWhile
import StoneBoard.Text.Blank
import StoneBoard.Text.Numeral

/-!
# Words and lines

A text that is put together from words and lines is cut into the same words and lines again.
-/

namespace StoneBoard.Text

open List

variable {chars : List Char} {others : List String}
variable {word : List Char} {first text : String} {char : Char}

structure Solid (characters : List Char) : Prop where
  nonempty : characters ≠ []
  dense : ∀ character ∈ characters, isBlank character = false

-- Deciding `dense` itself would try every character there is.
theorem Solid.of_all (nonempty : chars ≠ [])
    (dense : chars.all (fun char => !isBlank char) = true) : Solid chars where
  nonempty := nonempty
  dense char mem := by simpa using List.all_eq_true.mp dense char mem

def line (first : String) (others : List String) : String :=
  first ++ String.join (others.map (" " ++ ·))

def unlines (texts : List String) : String := String.join (texts.map (· ++ "\n"))

theorem toList_line (first : String) (others : List String) : (line first others).toList =
      first.toList ++ others.flatMap fun word => ' ' :: word.toList := by
  simp [line, flatMap_map]

theorem toList_unlines (texts : List String) :
    (unlines texts).toList = texts.flatMap fun text => text.toList ++ ['\n'] := by
  simp [unlines, flatMap_map]

/-! ## Words -/

theorem wordsFrom_append (dense : ∀ char ∈ chars, isBlank char = false) (word rest : List Char) :
    wordsFrom word (chars ++ rest) = wordsFrom (chars.reverse ++ word) rest := by
  induction chars generalizing word with
  | nil => rfl
  | cons first others ih =>
    obtain ⟨firstDense, othersDense⟩ := List.forall_mem_cons.mp dense
    rw [cons_append, wordsFrom, if_neg (by simp [firstDense]), ih othersDense,
      reverse_cons, append_assoc, singleton_append]

theorem wordsFrom_others (solid : ∀ word ∈ others, Solid word.toList) (begun : word ≠ []) :
    wordsFrom word (others.flatMap fun word => ' ' :: word.toList) =
      word.reverse :: others.map String.toList := by
  have notEmpty : word.isEmpty = false := List.isEmpty_eq_false_iff.mpr begun
  induction others generalizing word with
  | nil => rw [flatMap_nil, wordsFrom, notEmpty, map_nil, if_neg Bool.false_ne_true]
  | cons next rest ih =>
    obtain ⟨nextSolid, restSolid⟩ := List.forall_mem_cons.mp solid
    have nextBegun : next.toList.reverse ≠ [] := List.reverse_ne_nil_iff.mpr nextSolid.nonempty
    have blank : isBlank ' ' = true := by decide
    rw [flatMap_cons, cons_append, wordsFrom, if_pos blank, notEmpty,
      if_neg Bool.false_ne_true, wordsFrom_append nextSolid.dense, append_nil,
      ih restSolid nextBegun (List.isEmpty_eq_false_iff.mpr nextBegun), reverse_reverse,
      map_cons]

theorem words_line (firstSolid : Solid first.toList) (solid : ∀ word ∈ others, Solid word.toList) :
    words (line first others) = first :: others := by
  have begun : first.toList.reverse ≠ [] := List.reverse_ne_nil_iff.mpr firstSolid.nonempty
  rw [words, toList_line, wordsFrom_append firstSolid.dense, append_nil,
    wordsFrom_others solid begun, reverse_reverse, map_cons, map_map]
  simp

/-! ## Lines -/

/-- Characters of a line that trimming does not change. -/
structure Tight (characters : List Char) : Prop where
  first : ∃ character rest, characters = character :: rest ∧ isBlank character = false
  last : ∃ start character, characters = start ++ [character] ∧ isBlank character = false
  single : '\n' ∉ characters

theorem Solid.tight (solid : Solid chars) : Tight chars := by
  have notLine : '\n' ∉ chars := fun mem => by cases solid.dense _ mem
  refine ⟨?_, ?_, notLine⟩
  · obtain ⟨char, rest, rfl⟩ := exists_cons_of_ne_nil solid.nonempty
    exact ⟨char, rest, rfl, solid.dense char mem_cons_self⟩
  · obtain ⟨start, char, rfl⟩ := (eq_nil_or_concat' chars).resolve_left solid.nonempty
    exact ⟨start, char, rfl, solid.dense char (by simp)⟩

theorem Tight.append (tight : Tight chars) (solid : Solid word) : Tight (chars ++ ' ' :: word) := by
  obtain ⟨first, rest, isFirst, firstDense⟩ := tight.first
  obtain ⟨start, last, isLast, lastDense⟩ := solid.tight.last
  refine ⟨⟨first, rest ++ ' ' :: word, by rw [isFirst]; rfl, firstDense⟩,
    ⟨chars ++ ' ' :: start, last, by rw [isLast]; simp, lastDense⟩, ?_⟩
  simp [tight.single, solid.tight.single]

theorem tight_line (firstSolid : Solid first.toList) (solid : ∀ word ∈ others, Solid word.toList) :
    Tight (line first others).toList := by
  rw [toList_line]
  have tight := firstSolid.tight
  generalize first.toList = chars at tight
  induction others generalizing chars with
  | nil => simpa using tight
  | cons next rest ih =>
    obtain ⟨nextSolid, restSolid⟩ := List.forall_mem_cons.mp solid
    rw [flatMap_cons, ← append_assoc]
    exact ih restSolid _ (tight.append nextSolid)

theorem trimmed_of_tight (tight : Tight chars) : trimmed chars = chars := by
  obtain ⟨first, rest, isFirst, firstDense⟩ := tight.first
  obtain ⟨start, last, isLast, lastDense⟩ := tight.last
  have front : chars.dropWhile isBlank = chars := by
    rw [isFirst, dropWhile_cons_of_neg (by simp [firstDense])]
  have back : chars.reverse.dropWhile isBlank = chars.reverse := by
    rw [isLast, reverse_append, reverse_singleton, singleton_append,
      dropWhile_cons_of_neg (by simp [lastDense])]
  rw [trimmed, front, back, reverse_reverse]

theorem trim_of_tight (tight : Tight text.toList) : trim text = text := by
  rw [trim, trimmed_of_tight tight, String.ofList_toList]

theorem isEmpty_trim (mem : char ∈ text.toList) (dense : isBlank char = false) :
    (trim text).isEmpty = false := by
  rw [Bool.eq_false_iff]
  intro isEmpty
  have nothing : trimmed text.toList = [] := by
    have sameList := congrArg String.toList (String.isEmpty_iff.mp isEmpty)
    rwa [trim, String.toList_ofList] at sameList
  rw [trimmed, reverse_eq_nil_iff, dropWhile_eq_nil_iff] at nothing
  have allBlank : text.toList.dropWhile isBlank = [] := by
    by_contra some
    obtain ⟨first, rest, isFirst⟩ := exists_cons_of_ne_nil some
    have notBlank : isBlank first = false := by
      simpa [isFirst] using head_dropWhile_not isBlank some
    have isBlankToo := nothing first (by simp [isFirst])
    rw [notBlank] at isBlankToo
    cases isBlankToo
  rw [dropWhile_eq_nil_iff] at allBlank
  rw [allBlank char mem] at dense
  cases dense

theorem linesFrom_append (single : '\n' ∉ chars) (line rest : List Char) :
    linesFrom line (chars ++ rest) = linesFrom (chars.reverse ++ line) rest := by
  induction chars generalizing line with
  | nil => rfl
  | cons first others ih =>
    rw [mem_cons, not_or] at single
    rw [cons_append, linesFrom, if_neg (Ne.symm single.1), ih single.2, reverse_cons,
      append_assoc, singleton_append]

theorem withoutReturn_of_tight (tight : Tight chars) :
    withoutReturn chars.reverse = chars.reverse := by
  obtain ⟨start, last, rfl, dense⟩ := tight.last
  rw [reverse_append, reverse_singleton, singleton_append]
  unfold withoutReturn
  split
  next isReturn =>
    cases isReturn
    cases dense
  next => rfl

theorem lines_unlines {texts : List String} (tight : ∀ text ∈ texts, Tight text.toList) :
    lines (unlines texts) = texts := by
  rw [lines, toList_unlines]
  have cut : linesFrom [] (texts.flatMap fun text => text.toList ++ ['\n']) =
      texts.map String.toList := by
    induction texts with
    | nil => rfl
    | cons first rest ih =>
      obtain ⟨firstTight, restTight⟩ := List.forall_mem_cons.mp tight
      rw [flatMap_cons, append_assoc, linesFrom_append firstTight.single, append_nil,
        singleton_append, linesFrom, if_pos rfl, withoutReturn_of_tight firstTight,
        reverse_reverse, ih restTight, map_cons]
  rw [cut, map_map]
  simp

/-! ## Numbers -/

theorem isBlank_of_isDigit (isDigit : char.isDigit = true) : isBlank char = false := by
  have digit : 48 ≤ char.toNat ∧ char.toNat ≤ 57 := Char.isDigit_iff_toNat.mp isDigit
  have ascii : isAscii char = true := by
    rw [isAscii, decide_eq_true_eq]
    omega
  have notSpace : (char == ' ') = false := by
    rw [beq_eq_false_iff_ne]
    rintro rfl
    cases isDigit
  rw [isBlank, if_pos ascii, notSpace, Bool.false_or, Bool.and_eq_false_iff,
    decide_eq_false_iff_not, decide_eq_false_iff_not]
  omega

section Numbers

variable (number : Nat)

theorem toList_toString : (toString number).toList = Nat.toDigits 10 number := by
  rw [Nat.toString_eq_ofList_toDigits, String.toList_ofList]

theorem isDigit_toString : ∀ char ∈ (toString number).toList, char.isDigit = true := by
  rw [toList_toString]
  exact fun _ mem => Nat.isDigit_of_mem_toDigits (by decide) (by decide) mem

theorem toString_ne_nil : (toString number).toList ≠ [] := by
  rw [toList_toString]
  exact Nat.toDigits_ne_nil

theorem solid_toString : Solid (toString number).toList :=
  ⟨toString_ne_nil number, fun char mem =>
    isBlank_of_isDigit (isDigit_toString number char mem)⟩

theorem digitsValue_toString : digitsValue (toString number).toList = number := by
  rw [toList_toString]
  exact Nat.ofDigitChars_toDigits (by decide) (by decide)

end Numbers

theorem readCount?_toString {number : Nat} (small : number ≤ maxCount) :
    readCount? (toString number) = some number := by
  have digits := isDigit_toString number
  have unsigned : ∀ rest, (toString number).toList ≠ '+' :: rest := by
    intro rest starts
    have isDigit := digits '+' (by rw [starts]; exact mem_cons_self)
    cases isDigit
  have someDigits : (toString number).toList.isEmpty = false :=
    List.isEmpty_eq_false_iff.mpr (toString_ne_nil number)
  have allDigits : (toString number).toList.all Char.isDigit = true := List.all_eq_true.mpr digits
  unfold readCount?
  split
  next rest starts => exact absurd starts (unsigned rest)
  next => simp only [someDigits, allDigits, digitsValue_toString, if_pos small, Bool.not_true,
    Bool.or_self, Bool.false_eq_true, if_false]

end StoneBoard.Text
