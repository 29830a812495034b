import Mathlib.Data.List.Nodup
import StoneBoard.Board.Text
import StoneBoard.Proofs.Boards
import StoneBoard.Proofs.Words

/-!
# Boards from their texts

The text of a well-formed board describes this board, without the states that have been saved.
-/

namespace StoneBoard

open Text List

variable {board : Board}

theorem Color.solid_name (color : Color) : Solid color.name.toList := by
  cases color <;> exact .of_all (by decide) (by decide)

/-! ## The lines of a text -/

def Cell.colors (cell : Cell) : List Color := Color.all.filter fun color => cell.count color ≠ 0

namespace Board

variable {place : Place}
variable {other : Place} {before after drawn : Board} {places : List Place} {first : String}
  {numbered : List (Nat × String)}

def stoneWords (cell : Cell) (colors : List Color) : List String :=
  colors.flatMap fun color => [color.name, toString (cell.count color)]

def cellLine (board : Board) (place : Place) : String :=
  line "cell" (toString place.column :: toString place.row ::
    stoneWords (board.cell place) (board.cell place).colors)

def occupied (board : Board) : List Place :=
  board.places.filter fun place => board.cell place ≠ .empty

def bodyLines (board : Board) : List String :=
  line "size" [toString board.width, toString board.height] ::
    (board.occupied.map board.cellLine ++
      [line "head" [toString board.head.column, toString board.head.row]])

theorem toList_cellText (cell : Cell) : (cellText cell).toList =
      (stoneWords cell cell.colors).flatMap fun word => ' ' :: word.toList := by
  rw [cellText, Cell.colors, stoneWords, String.toList_join]
  generalize Color.all = colors
  induction colors with
  | nil => rfl
  | cons first rest ih =>
    rw [map_cons, flatMap_cons, ih]
    by_cases none : cell.count first = 0 <;> simp [none, toString]

theorem toList_placeText (board : Board) (place : Place) : (board.placeText place).toList =
      if board.cell place = .empty then [] else (board.cellLine place).toList ++ ['\n'] := by
  unfold placeText
  dsimp only
  split
  next => rfl
  next => simp [cellLine, toList_line, toList_cellText, toString]

theorem toText_eq (board : Board) : board.toText = unlines (textHeader :: board.bodyLines) := by
  have cells (places : List Place) : (places.flatMap fun place => (board.placeText place).toList) =
      ((places.filter fun place => board.cell place ≠ .empty).map board.cellLine).flatMap
        fun text => text.toList ++ ['\n'] := by
    induction places with
    | nil => rfl
    | cons first rest ih =>
      rw [flatMap_cons, ih, toList_placeText]
      by_cases isEmpty : board.cell first = .empty <;> simp [isEmpty]
  apply String.toList_inj.mp
  rw [toText, toList_unlines]
  simp only [String.toList_append, String.toList_join, flatMap_map, cells, bodyLines, occupied,
    flatMap_cons, flatMap_append, toList_line]
  simp [toString]

/-! ## Cells -/

def fill (board : Board) (place : Place) (cell : Cell) (colors : List Color) : Board :=
  colors.foldl (fun board color => board.setStones place color (cell.count color)) board

structure SameFrame (before after : Board) : Prop where
  width : after.width = before.width
  height : after.height = before.height
  size : after.cells.size = before.cells.size
  saved : after.saved = before.saved

theorem sameFrame_fill (board : Board) (place : Place) (cell : Cell) (colors : List Color) :
    board.SameFrame (board.fill place cell colors) := by
  induction colors generalizing board with
  | nil => exact ⟨rfl, rfl, rfl, rfl⟩
  | cons first rest ih =>
    obtain ⟨width, height, size, saved⟩ := ih (board.setStones place first (cell.count first))
    exact ⟨width, height, size.trans Array.size_modify, saved⟩

theorem cell_fill (cell : Cell) (colors : List Color)
    (size : board.cells.size = board.width * board.height) (onBoard : board.contains place = true)
    (otherOn : board.contains other = true) : (board.fill place cell colors).cell other =
      if other = place then
        colors.foldl (fun before color => before.setCount color (cell.count color))
          (board.cell place) else board.cell other := by
  induction colors generalizing board with
  | nil =>
    split
    next same => rw [same]; rfl
    next => rfl
  | cons first rest ih =>
    have stillSize : (board.setStones place first (cell.count first)).cells.size =
        board.width * board.height := Array.size_modify.trans size
    have later := ih stillSize onBoard otherOn
    rw [cell_setStones _ _ size onBoard onBoard, cell_setStones _ _ size onBoard otherOn] at later
    rw [fill, foldl_cons, foldl_cons, ← fill, later]
    split <;> simp

theorem foldl_colors (cell : Cell) : cell.colors.foldl
    (fun before color => before.setCount color (cell.count color)) Cell.empty = cell := by
  obtain ⟨blue, black, red, green⟩ := cell
  unfold Cell.colors Color.all
  by_cases noBlue : blue = 0 <;> by_cases noBlack : black = 0 <;> by_cases noRed : red = 0 <;>
    by_cases noGreen : green = 0 <;>
    simp [Cell.count, Cell.setCount, Cell.empty, noBlue, noBlack, noRed, noGreen]

/-- The board with the stones that another one has at some places. -/
def copy (source : Board) (places : List Place) (board : Board) : Board :=
  places.foldl (fun board place => board.fill place (source.cell place) (source.cell place).colors)
    board

theorem sameFrame_copy (src : Board) (places : List Place) (board : Board) :
    board.SameFrame (src.copy places board) := by
  induction places generalizing board with
  | nil => exact ⟨rfl, rfl, rfl, rfl⟩
  | cons first rest ih =>
    obtain ⟨width, height, size, saved⟩ :=
      board.sameFrame_fill first (src.cell first) (src.cell first).colors
    obtain ⟨width', height', size', saved'⟩ := ih (board.fill first (src.cell first)
      (src.cell first).colors)
    exact ⟨width'.trans width, height'.trans height, size'.trans size, saved'.trans saved⟩

theorem SameFrame.contains (same : before.SameFrame after) (place : Place) :
    after.contains place = before.contains place := by
  rw [Board.contains, Board.contains, same.width, same.height]

theorem SameFrame.fits (same : before.SameFrame after)
    (size : before.cells.size = before.width * before.height) :
    after.cells.size = after.width * after.height := by
  rw [same.size, same.width, same.height, size]

theorem cell_copy (src : Board) (nodup : places.Nodup)
    (size : board.cells.size = board.width * board.height)
    (onBoard : ∀ place ∈ places, board.contains place = true)
    (isEmpty : ∀ place ∈ places, board.cell place = .empty)
    (otherOn : board.contains other = true) : (src.copy places board).cell other =
      if other ∈ places then src.cell other else board.cell other := by
  induction places generalizing board with
  | nil => rfl
  | cons first rest ih =>
    obtain ⟨notAgain, restNodup⟩ := List.nodup_cons.mp nodup
    obtain ⟨firstOn, restOn⟩ := List.forall_mem_cons.mp onBoard
    obtain ⟨firstEmpty, restEmpty⟩ := List.forall_mem_cons.mp isEmpty
    have same := board.sameFrame_fill first (src.cell first) (src.cell first).colors
    have filled {place : Place} (placeOn : board.contains place = true) :=
      cell_fill (src.cell first) (src.cell first).colors size firstOn placeOn
    rw [firstEmpty, foldl_colors] at filled
    have stillEmpty : ∀ place ∈ rest, (board.fill first (src.cell first)
        (src.cell first).colors).cell place = .empty := by
      intro place mem
      have apart : place ≠ first := by
        rintro rfl
        exact notAgain mem
      rw [filled (restOn place mem), if_neg apart]
      exact restEmpty place mem
    have later := ih restNodup (same.fits size)
      (fun place mem => (same.contains place).trans (restOn place mem)) stillEmpty
      ((same.contains other).trans otherOn)
    rw [copy, foldl_cons, ← copy, later, filled otherOn]
    by_cases inRest : other ∈ rest
    · simp [inRest]
    · by_cases isFirst : other = first <;> simp [inRest, isFirst]

theorem mem_places : place ∈ board.places ↔ board.contains place = true := by
  obtain ⟨column, row⟩ := place
  simp [places, contains, and_comm]

theorem nodup_places (board : Board) : board.places.Nodup := by
  unfold places
  rw [nodup_flatMap]
  constructor
  · intro row _
    exact List.nodup_range.map fun first second same => by cases same; rfl
  · apply List.nodup_range.imp
    intro first second differ place inFirst inSecond
    obtain ⟨_, -, rfl⟩ := List.mem_map.mp inFirst
    obtain ⟨_, -, same⟩ := List.mem_map.mp inSecond
    cases same
    exact differ rfl

section Blank

variable {board : Board} (wellFormed : board.WellFormed)

include wellFormed

theorem WellFormed.width_blank : (blank board.width board.height).width = board.width :=
  Nat.max_eq_left (Nat.lt_of_le_of_lt (Nat.zero_le _) wellFormed.current.column)

theorem WellFormed.height_blank : (blank board.width board.height).height = board.height :=
  Nat.max_eq_left (Nat.lt_of_le_of_lt (Nat.zero_le _) wellFormed.current.row)

theorem WellFormed.contains_blank (place : Place) :
    (blank board.width board.height).contains place = board.contains place := by
  rw [contains, contains, wellFormed.width_blank, wellFormed.height_blank]

theorem cells_copy_blank :
    (board.copy board.occupied (blank board.width board.height)).cells = board.cells := by
  have size : (blank board.width board.height).cells.size =
      (blank board.width board.height).width * (blank board.width board.height).height :=
    Array.size_replicate
  have noStones (place : Place) : (blank board.width board.height).cell place = .empty := by
    rw [cell, Array.getD_eq_getD_getElem?, blank, Array.getElem?_replicate]
    split <;> rfl
  have same := board.sameFrame_copy board.occupied (blank board.width board.height)
  apply cells_ext (same.width.trans wellFormed.width_blank)
    (same.height.trans wellFormed.height_blank) (same.fits size) wellFormed.current.size
  intro place onCopy
  have onBoard : board.contains place = true := by
    rw [← wellFormed.contains_blank, ← same.contains]
    exact onCopy
  have occupiedNodup : board.occupied.Nodup := board.nodup_places.filter _
  have occupiedOn : ∀ other ∈ board.occupied,
      (blank board.width board.height).contains other = true := by
    intro other mem
    rw [wellFormed.contains_blank]
    exact mem_places.mp (mem_of_mem_filter mem)
  rw [cell_copy board occupiedNodup size occupiedOn (fun place _ => noStones place)
    ((wellFormed.contains_blank place).trans onBoard)]
  split
  next => rfl
  next notOccupied =>
    have isEmpty : board.cell place = .empty := by
      by_contra hasStones
      exact notOccupied (List.mem_filter.mpr ⟨mem_places.mpr onBoard, decide_eq_true hasStones⟩)
    rw [noStones, isEmpty]

end Blank

/-! ## Reading -/

theorem readStones_stoneWords (number : Nat) (board : Board) (place : Place) {cell : Cell}
    (small : ∀ color, cell.count color ≤ maxCount) (colors : List Color) :
    readStones number place board (stoneWords cell colors) =
      .ok (board.fill place cell colors) := by
  induction colors generalizing board with
  | nil => rfl
  | cons first rest ih =>
    have words : stoneWords cell (first :: rest) =
      first.name :: toString (cell.count first) :: stoneWords cell rest := rfl
    simp only [words, readStones, Color.ofName?_name, readCount?_toString (small first)]
    exact ih (board.setStones place first (cell.count first))

theorem length_stoneWords (cell : Cell) (colors : List Color) :
    (stoneWords cell colors).length = 2 * colors.length := by
  induction colors with
  | nil => rfl
  | cons first rest ih =>
    rw [stoneWords, flatMap_cons, ← stoneWords, length_append, ih, length_cons,
      length_cons, length_cons, length_nil]
    omega

theorem solid_stoneWords (cell : Cell) (colors : List Color) :
    ∀ word ∈ stoneWords cell colors, Solid word.toList := by
  intro word mem
  obtain ⟨color, -, inPair⟩ := List.mem_flatMap.mp mem
  rcases List.mem_cons.mp inPair with rfl | inRest
  · exact color.solid_name
  · rw [List.mem_singleton.mp inRest]
    exact solid_toString _

theorem solid_numbers (column row : Nat) {words : List String}
    (solid : ∀ word ∈ words, Solid word.toList) :
    ∀ word ∈ toString column :: toString row :: words, Solid word.toList :=
  List.forall_mem_cons.mpr ⟨solid_toString column,
    List.forall_mem_cons.mpr ⟨solid_toString row, solid⟩⟩

theorem words_cellLine (board : Board) (place : Place) :
    words (board.cellLine place) = "cell" :: toString place.column :: toString place.row ::
      stoneWords (board.cell place) (board.cell place).colors :=
  words_line (.of_all (by decide) (by decide)) (solid_numbers _ _ (solid_stoneWords _ _))

theorem words_pair (solid : Solid first.toList) (column row : Nat) :
    words (line first [toString column, toString row]) = [first, toString column, toString row] :=
  words_line solid (solid_numbers column row fun _ mem => by cases mem)

theorem readNumber_toString {number : Nat} (small : number ≤ maxCount) (pos : Nat) :
    readNumber pos (toString number) = .ok number := by
  rw [readNumber, readCount?_toString small]

variable {board : Board}

theorem readLine_size (wellFormed : board.WellFormed) (pos : Nat) (head : Place) :
    readLine pos ⟨none, head⟩ (line "size" [toString board.width, toString board.height]) =
      .ok ⟨some (blank board.width board.height), head⟩ := by
  have positive : ¬ (board.width = 0 ∨ board.height = 0) := by
    have column := wellFormed.current.column
    have row := wellFormed.current.row
    omega
  rw [readLine, words_pair (.of_all (by decide) (by decide))]
  simp only [if_pos, readSize, Option.isSome_none, Bool.false_eq_true, if_false,
    readNumber_toString wellFormed.width, readNumber_toString wellFormed.height]
  exact if_neg positive

theorem readLine_head (wellFormed : board.WellFormed) (pos : Nat) (state : TextState) :
    readLine pos state (line "head" [toString board.head.column, toString board.head.row]) =
      .ok { state with head := board.head } := by
  have column : board.head.column ≤ maxCount :=
    Nat.le_trans (Nat.le_of_lt wellFormed.current.column) wellFormed.width
  have row : board.head.row ≤ maxCount :=
    Nat.le_trans (Nat.le_of_lt wellFormed.current.row) wellFormed.height
  rw [readLine, words_pair (.of_all (by decide) (by decide))]
  simp only [readHead, readNumber_toString column, readNumber_toString row]
  rfl

theorem readLine_cellLine (wellFormed : board.WellFormed) (onBoard : board.contains place = true)
    (pos : Nat) (head : Place) (onDrawn : drawn.contains place = true) :
    readLine pos ⟨some drawn, head⟩ (board.cellLine place) =
      .ok ⟨some (drawn.fill place (board.cell place) (board.cell place).colors), head⟩ := by
  obtain ⟨columnOn, rowOn⟩ := contains_iff.mp onBoard
  have column : place.column ≤ maxCount := Nat.le_trans (Nat.le_of_lt columnOn) wellFormed.width
  have row : place.row ≤ maxCount := Nat.le_trans (Nat.le_of_lt rowOn) wellFormed.height
  have even : ¬ (stoneWords (board.cell place) (board.cell place).colors).length % 2 = 1 := by
    rw [length_stoneWords]
    omega
  have stones := readStones_stoneWords pos drawn place
    (fun color => wellFormed.stones_le place color) (board.cell place).colors
  rw [readLine, words_cellLine]
  simp only [readCell, if_neg even, readNumber_toString column, readNumber_toString row]
  simp [onDrawn, stones]

theorem readLines_append {state middle : TextState} {first : List (Nat × String)}
    (read : readLines state first = .ok middle) (second : List (Nat × String)) :
    readLines state (first ++ second) = readLines middle second := by
  induction first generalizing state with
  | nil =>
    cases read
    rfl
  | cons head rest ih =>
    obtain ⟨between, readFirst, readRest⟩ := bind_eq_ok.mp read
    rw [cons_append, readLines, readFirst]
    exact ih readRest

theorem readLines_cells (wellFormed : board.WellFormed)
    (onBoard : ∀ place ∈ places, board.contains place = true) (head : Place)
    (same : ∀ place, drawn.contains place = board.contains place)
    (texts : numbered.map Prod.snd = places.map board.cellLine) :
    readLines ⟨some drawn, head⟩ numbered = .ok ⟨some (board.copy places drawn), head⟩ := by
  induction places generalizing drawn numbered with
  | nil =>
    rw [map_nil, map_eq_nil_iff] at texts
    subst texts
    rfl
  | cons first rest ih =>
    obtain ⟨⟨pos, text⟩, others, rfl, rfl, restTexts⟩ := List.map_eq_cons_iff.mp texts
    obtain ⟨firstOn, restOn⟩ := List.forall_mem_cons.mp onBoard
    have filled := drawn.sameFrame_fill first (board.cell first) (board.cell first).colors
    rw [readLines, readLine_cellLine wellFormed firstOn pos head ((same first).trans firstOn)]
    exact ih restOn (fun place => (filled.contains place).trans (same place)) restTexts

/-! ## Texts -/

/-- A line that is neither blank nor a remark. -/
structure Matters (text : String) : Prop where
  tight : Tight text.toList
  notRemark : text.startsWith "%" = false

theorem matters_line {others : List String} (firstSolid : Solid first.toList)
    (notRemark : first.toList.head? ≠ some '%') (solid : ∀ word ∈ others, Solid word.toList) :
    Matters (line first others) := by
  refine ⟨tight_line firstSolid solid, Bool.eq_false_iff.mpr fun starts => notRemark ?_⟩
  obtain ⟨char, rest, isFirst⟩ := exists_cons_of_ne_nil firstSolid.nonempty
  have isPrefix := String.startsWith_string_iff.mp starts
  rw [toList_line, isFirst] at isPrefix
  obtain ⟨_, same⟩ := isPrefix
  cases same
  rw [isFirst]
  rfl

theorem matters_bodyLines (board : Board) :
    ∀ text ∈ textHeader :: board.bodyLines, Matters text := by
  have noWords : ∀ word ∈ ([] : List String), Solid word.toList := fun _ mem => by cases mem
  have header : Matters textHeader := by
    have single : textHeader = line textHeader [] := by simp [line, String.join]
    rw [single]
    exact matters_line (.of_all (by decide) (by decide)) (by decide) noWords
  intro text mem
  simp only [bodyLines, mem_cons, mem_append, mem_map, not_mem_nil, or_false] at mem
  rcases mem with rfl | rfl | ⟨place, -, rfl⟩ | rfl
  · exact header
  · exact matters_line (.of_all (by decide) (by decide)) (by decide)
      (solid_numbers _ _ noWords)
  · exact matters_line (.of_all (by decide) (by decide)) (by decide)
      (solid_numbers _ _ (solid_stoneWords _ _))
  · exact matters_line (.of_all (by decide) (by decide)) (by decide)
      (solid_numbers _ _ noWords)

theorem textLines_unlines {texts : List String} (matter : ∀ text ∈ texts, Matters text) :
    (textLines (unlines texts)).map Prod.snd = texts := by
  have trimmed : texts.map trim = texts :=
    (map_congr_left fun text mem => trim_of_tight (matter text mem).tight).trans
      (map_id _)
  rw [textLines, lines_unlines fun text mem => (matter text mem).tight, trimmed]
  clear trimmed
  generalize 1 = start
  induction texts generalizing start with
  | nil => rfl
  | cons first rest ih =>
    obtain ⟨firstMatters, restMatter⟩ := List.forall_mem_cons.mp matter
    obtain ⟨_, _, isFirst, -⟩ := firstMatters.tight.first
    have notEmpty : first.isEmpty = false := by
      rw [Bool.eq_false_iff]
      intro isEmpty
      rw [String.isEmpty_iff.mp isEmpty] at isFirst
      cases isFirst
    simp only [zipIdx_cons, filterMap_cons, notEmpty, firstMatters.notRemark,
      Bool.or_self, Bool.false_eq_true, if_false, map_cons]
    rw [ih restMatter]

theorem readLines_bodyLines (wellFormed : board.WellFormed)
    (texts : numbered.map Prod.snd = board.bodyLines) : readLines ⟨none, .origin⟩ numbered =
      .ok ⟨some (board.copy board.occupied (blank board.width board.height)), board.head⟩ := by
  obtain ⟨⟨first, _⟩, others, rfl, rfl, otherTexts⟩ := List.map_eq_cons_iff.mp texts
  obtain ⟨cells, ending, rfl, cellTexts, endingText⟩ := List.map_eq_append_iff.mp otherTexts
  obtain ⟨⟨last, _⟩, rfl, rfl⟩ := List.map_eq_singleton_iff.mp endingText
  have occupiedOn : ∀ place ∈ board.occupied, board.contains place = true :=
    fun place mem => mem_places.mp (mem_of_mem_filter mem)
  have readCells :=
    readLines_cells wellFormed occupiedOn .origin wellFormed.contains_blank cellTexts
  rw [readLines, readLine_size wellFormed]
  change readLines _ (cells ++ _) = _
  rw [readLines_append readCells, readLines, readLine_head wellFormed]
  rfl

/-- The text of a well-formed board describes the board, but for the states that have been
saved. -/
theorem ofText_toText (wellFormed : board.WellFormed) :
    ofText board.toText = .ok { board with saved := [] } := by
  have texts := textLines_unlines (matters_bodyLines board)
  rw [← toText_eq] at texts
  obtain ⟨⟨pos, _⟩, rest, isText, rfl, restTexts⟩ := List.map_eq_cons_iff.mp texts
  have same := board.sameFrame_copy board.occupied (blank board.width board.height)
  have cells := cells_copy_blank wellFormed
  have width := same.width.trans wellFormed.width_blank
  have height := same.height.trans wellFormed.height_blank
  have onCopy := (same.contains board.head).trans
    ((wellFormed.contains_blank board.head).trans wellFormed.head)
  have saved := same.saved
  rw [ofText, isText]
  simp only [ne_eq, not_true, if_false, readLines_bodyLines wellFormed restTexts]
  generalize board.copy board.occupied (blank board.width board.height) = copy at *
  obtain ⟨_, _, _, _, _⟩ := copy
  cases width
  cases height
  cases cells
  cases saved
  exact if_pos onCopy

end Board

end StoneBoard
