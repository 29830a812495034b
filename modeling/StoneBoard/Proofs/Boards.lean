import StoneBoard.Proofs.Session

/-!
# Well-formed boards

A well-formed board has one cell for each of its places, its head lies on it, and no number of
stones is larger than what can be written; the same holds of every state that has been saved.
Operations keep boards well formed, and so do runs of programs.  A board is known from its cells
at all places.
-/

namespace StoneBoard

structure Snapshot.Fits (width height : Nat) (snapshot : Snapshot) : Prop where
  size : snapshot.cells.size = width * height
  column : snapshot.head.column < width
  row : snapshot.head.row < height
  counts : ∀ cell ∈ snapshot.cells, ∀ color, cell.count color ≤ Text.maxCount

structure Board.WellFormed (board : Board) : Prop where
  width : board.width ≤ Text.maxCount
  height : board.height ≤ Text.maxCount
  current : board.snapshot.Fits board.width board.height
  saved : ∀ snapshot ∈ board.saved, snapshot.Fits board.width board.height

namespace Board

variable {board after : Board} {place other : Place}
variable {color : Color} {dir : Direction}

/-! ## Places and cells -/

theorem contains_iff :
    board.contains place = true ↔ place.column < board.width ∧ place.row < board.height := by
  simp [contains]

theorem index_lt (onBoard : board.contains place = true) :
    board.index place < board.width * board.height := by
  obtain ⟨column, row⟩ := contains_iff.mp onBoard
  calc board.index place < place.row * board.width + board.width := Nat.add_lt_add_left column _
    _ = (place.row + 1) * board.width := (Nat.succ_mul _ _).symm
    _ ≤ board.height * board.width := Nat.mul_le_mul_right _ row
    _ = board.width * board.height := Nat.mul_comm _ _

theorem index_divMod (inside : place.column < board.width) :
    board.index place / board.width = place.row ∧
      board.index place % board.width = place.column := by
  have positive : 0 < board.width := Nat.lt_of_le_of_lt (Nat.zero_le _) inside
  rw [index, Nat.mul_comm]
  constructor
  · rw [Nat.mul_add_div positive, Nat.div_eq_of_lt inside, Nat.add_zero]
  · rw [Nat.mul_add_mod, Nat.mod_eq_of_lt inside]

theorem index_inj (onBoard : board.contains place = true) (otherOn : board.contains other = true) :
    board.index place = board.index other ↔ place = other := by
  obtain ⟨row, column⟩ := index_divMod (contains_iff.mp onBoard).1
  obtain ⟨otherRow, otherColumn⟩ := index_divMod (contains_iff.mp otherOn).1
  constructor
  · intro same
    rw [same] at row column
    cases place
    cases other
    simp_all
  · rintro rfl
    rfl

theorem exists_place {pos : Nat} (inside : pos < board.width * board.height) :
    ∃ place, board.contains place = true ∧ board.index place = pos := by
  have positive : 0 < board.width :=
    Nat.pos_of_mul_pos_right (Nat.lt_of_le_of_lt (Nat.zero_le _) inside)
  refine ⟨⟨pos % board.width, pos / board.width⟩, contains_iff.mpr ⟨?_, ?_⟩, ?_⟩
  · exact Nat.mod_lt _ positive
  · exact Nat.div_lt_of_lt_mul inside
  · exact Nat.div_add_mod' pos board.width

theorem cell_setStones (color : Color) (number : Nat)
    (size : board.cells.size = board.width * board.height)
    (onBoard : board.contains place = true) (otherOn : board.contains other = true) :
    (board.setStones place color number).cell other =
      if other = place then (board.cell place).setCount color number else board.cell other := by
  have inside : board.index place < board.cells.size := size ▸ index_lt onBoard
  have stored : (board.setStones place color number).cell other =
      ((board.cells.modify (board.index place) fun cell => cell.setCount color number)[
        board.index other]?).getD .empty := Array.getD_eq_getD_getElem? ..
  rw [stored, Array.getElem?_modify]
  by_cases same : other = place
  · subst same
    simp [cell, inside]
  · have apart : board.index place ≠ board.index other := fun sameIndex =>
      same ((index_inj onBoard otherOn).mp sameIndex).symm
    rw [if_neg apart, if_neg same, cell, Array.getD_eq_getD_getElem?]

theorem cells_ext {other : Board} (width : board.width = other.width)
    (height : board.height = other.height) (size : board.cells.size = board.width * board.height)
    (otherSize : other.cells.size = other.width * other.height)
    (same : ∀ place, board.contains place = true → board.cell place = other.cell place) :
    board.cells = other.cells := by
  have sameSize : board.cells.size = other.cells.size := by rw [size, otherSize, width, height]
  apply Array.ext sameSize
  intro pos inside otherInside
  obtain ⟨place, onBoard, rfl⟩ := exists_place (size ▸ inside)
  have sameIndex : other.index place = board.index place := by rw [index, index, width]
  have sameCell := same place onBoard
  rw [cell, cell, sameIndex] at sameCell
  simpa [Array.getD, inside, otherInside] using sameCell

/-! ## Operations -/

theorem WellFormed.head (wellFormed : board.WellFormed) : board.contains board.head = true :=
  contains_iff.mpr ⟨wellFormed.current.column, wellFormed.current.row⟩

theorem WellFormed.setStones (wellFormed : board.WellFormed) {number : Nat}
    (small : number ≤ Text.maxCount) (place : Place) (color : Color) :
    (board.setStones place color number).WellFormed := by
  refine ⟨wellFormed.width, wellFormed.height, ⟨?_, wellFormed.current.column,
    wellFormed.current.row, ?_⟩, wellFormed.saved⟩
  · exact Array.size_modify.trans wellFormed.current.size
  · intro cell mem other
    obtain ⟨pos, found⟩ := Array.mem_iff_getElem?.mp mem
    have found : (board.cells.modify (board.index place) fun cell =>
      cell.setCount color number)[pos]? = some cell := found
    rw [Array.getElem?_modify] at found
    split at found
    · obtain ⟨old, isOld, rfl⟩ := Option.map_eq_some_iff.mp found
      rw [Cell.count_setCount]
      split
      · exact small
      · exact wellFormed.current.counts old (Array.mem_of_getElem? isOld) other
    · exact wellFormed.current.counts cell (Array.mem_of_getElem? found) other

theorem WellFormed.stones_le (wellFormed : board.WellFormed) (place : Place) (color : Color) :
    (board.cell place).count color ≤ Text.maxCount := by
  rw [cell, Array.getD_eq_getD_getElem?]
  cases found : board.cells[board.index place]? with
  | none => simp
  | some cell => exact wellFormed.current.counts cell (Array.mem_of_getElem? found) color

theorem WellFormed.putStone (wellFormed : board.WellFormed)
    (put : board.putStone color = .ok after) : after.WellFormed := by
  obtain ⟨room, rfl⟩ := putStone_eq_ok.mp put
  exact wellFormed.setStones room board.head color

theorem WellFormed.takeStone (wellFormed : board.WellFormed)
    (taken : board.takeStone color = .ok after) : after.WellFormed := by
  obtain ⟨-, rfl⟩ := takeStone_eq_ok.mp taken
  have few : board.stones color ≤ Text.maxCount := wellFormed.stones_le board.head color
  exact wellFormed.setStones (Nat.le_trans (Nat.sub_le _ _) few) board.head color

theorem contains_of_neighbour? (found : board.neighbour? dir = some place) :
    board.contains place = true := by
  unfold neighbour? at found
  dsimp only at found
  split at found
  next inside =>
    cases found
    rw [contains_iff]
    dsimp only
    omega
  next => cases found

theorem WellFormed.withHead (wellFormed : board.WellFormed)
    (onBoard : board.contains place = true) : WellFormed { board with head := place } := by
  obtain ⟨column, row⟩ := contains_iff.mp onBoard
  exact ⟨wellFormed.width, wellFormed.height,
    ⟨wellFormed.current.size, column, row, wellFormed.current.counts⟩, wellFormed.saved⟩

theorem WellFormed.moveHead (wellFormed : board.WellFormed)
    (moved : board.moveHead dir = .ok after) : after.WellFormed := by
  obtain ⟨place, found, rfl⟩ := moveHead_eq_ok.mp moved
  exact wellFormed.withHead (contains_of_neighbour? found)

theorem WellFormed.goToOrigin (wellFormed : board.WellFormed) : board.goToOrigin.WellFormed := by
  apply wellFormed.withHead
  have column := wellFormed.current.column
  have row := wellFormed.current.row
  exact contains_iff.mpr ⟨Nat.lt_of_le_of_lt (Nat.zero_le _) column,
    Nat.lt_of_le_of_lt (Nat.zero_le _) row⟩

theorem WellFormed.clear (wellFormed : board.WellFormed) : board.clear.WellFormed := by
  refine ⟨wellFormed.width, wellFormed.height, ⟨?_, wellFormed.current.column,
    wellFormed.current.row, ?_⟩, wellFormed.saved⟩
  · exact Array.size_map.trans wellFormed.current.size
  · intro cell mem color
    obtain ⟨_, -, rfl⟩ := Array.mem_map.mp mem
    simp

theorem WellFormed.save (wellFormed : board.WellFormed) : board.save.WellFormed :=
  ⟨wellFormed.width, wellFormed.height, wellFormed.current,
    List.forall_mem_cons.mpr ⟨wellFormed.current, wellFormed.saved⟩⟩

theorem WellFormed.restore (wellFormed : board.WellFormed) : board.restore.WellFormed := by
  unfold Board.restore restore?
  split
  next => exact wellFormed
  next snapshot earlier isSaved =>
    have saved := wellFormed.saved
    rw [isSaved] at saved
    obtain ⟨fits, earlierFit⟩ := List.forall_mem_cons.mp saved
    exact ⟨wellFormed.width, wellFormed.height, fits, earlierFit⟩

theorem WellFormed.perform {action : Action} {args : List Value}
    (wellFormed : board.WellFormed) (performed : action.perform args board = .ok after) :
    after.WellFormed := by
  cases Action.performs_of_perform performed with
  | putStone color put => exact wellFormed.putStone put
  | takeStone color taken => exact wellFormed.takeStone taken
  | move dir moved => exact wellFormed.moveHead moved
  | goToOrigin => exact wellFormed.goToOrigin
  | clearBoard => exact wellFormed.clear

theorem wellFormed_blank {width height : Nat} (widthFits : width ≤ Text.maxCount)
    (heightFits : height ≤ Text.maxCount) : (blank width height).WellFormed := by
  have one : 1 ≤ Text.maxCount := by decide
  refine ⟨Nat.max_le.mpr ⟨widthFits, one⟩, Nat.max_le.mpr ⟨heightFits, one⟩, ⟨?_, ?_, ?_, ?_⟩, ?_⟩
  · exact Array.size_replicate
  · exact Nat.le_max_right width 1
  · exact Nat.le_max_right height 1
  · intro cell mem color
    obtain ⟨-, rfl⟩ := Array.mem_replicate.mp mem
    simp
  · intro snapshot mem
    cases mem

end Board

/-! ## Runs -/

theorem Scene.Change.wellFormed {before after : Scene} (change : Change before after)
    (wellFormed : before.board.WellFormed) : after.board.WellFormed := by
  cases change with
  | none => exact wellFormed
  | record performed routine => exact wellFormed.perform performed
  | enter => exact wellFormed.save
  | leave => exact wellFormed.restore

theorem Moment.Later.wellFormed {limit : Nat} {before after : Moment}
    (later : Later limit before after) (wellFormed : before.scene.board.WellFormed) :
    after.scene.board.WellFormed := by
  induction later with
  | refl => exact wellFormed
  | tail _ next ih => exact next.change.wellFormed ih

end StoneBoard
