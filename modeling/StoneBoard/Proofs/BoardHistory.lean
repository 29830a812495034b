import StoneBoard.Proofs.BoardText

/-!
# Boards and what has been done with them

A board begins blank or is described by a text, and operations lead from one board to the next.
Every board that comes about in this way is well formed, so that its text describes it.
-/

namespace StoneBoard

namespace Board

variable {board before after : Board}
variable {word text : String} {number pos : Nat}

/-! ## Boards that texts describe -/

theorem readCount?_le (read : Text.readCount? word = some number) : number ≤ Text.maxCount := by
  simp only [Text.readCount?, Option.ite_none_left_eq_some, Option.ite_none_right_eq_some,
    Option.some.injEq] at read
  obtain ⟨-, small, rfl⟩ := read
  exact small

theorem readNumber_le (read : readNumber pos word = .ok number) : number ≤ Text.maxCount := by
  unfold readNumber at read
  cases found : Text.readCount? word with
  | none => simp [found] at read
  | some value =>
    simp only [found, Except.ok.injEq] at read
    exact read ▸ readCount?_le found

structure Described (board : Board) : Prop where
  wellFormed : board.WellFormed
  unsaved : board.saved = []

theorem Described.readStones {place : Place} {words : List String} (described : before.Described)
    (read : readStones pos place before words = .ok after) : after.Described := by
  fun_induction Board.readStones pos place before words with
  | case1 => cases read
  | case2 => cases read
  | case3 board colorName countText rest color number isNumber isColor ih =>
    apply ih _ read
    exact ⟨described.wellFormed.setStones (readCount?_le isNumber) place color, described.unsaved⟩
  | case4 board words tooFew =>
    cases read
    exact described

def TextState.Sound (state : TextState) : Prop :=
  ∀ board, state.board = some board → board.Described

namespace TextState.Sound

variable {state next : TextState} {pos : Nat} {args : List String}

theorem readSize (read : readSize pos state args = .ok next) : next.Sound := by
  unfold Board.readSize at read
  split at read
  next widthText heightText =>
    split at read
    next => cases read
    next =>
      obtain ⟨width, readWidth, read⟩ := bind_eq_ok.mp read
      obtain ⟨height, readHeight, read⟩ := bind_eq_ok.mp read
      split at read
      next => cases read
      next =>
        cases read
        rintro _ ⟨⟩
        exact ⟨wellFormed_blank (readNumber_le readWidth) (readNumber_le readHeight), rfl⟩
  next => cases read

theorem readCell (sound : state.Sound) (read : readCell pos state args = .ok next) :
    next.Sound := by
  unfold Board.readCell at read
  split at read
  next => cases read
  next board columnText rowText stones isBoard =>
    split at read
    next => cases read
    next =>
      obtain ⟨column, -, read⟩ := bind_eq_ok.mp read
      obtain ⟨row, -, read⟩ := bind_eq_ok.mp read
      dsimp only at read
      split at read
      next =>
        obtain ⟨filled, readStones, read⟩ := bind_eq_ok.mp read
        cases read
        rintro _ ⟨⟩
        exact (sound board isBoard).readStones readStones
      next => cases read
  next => cases read

theorem readHead (sound : state.Sound) (read : readHead pos state args = .ok next) :
    next.Sound := by
  unfold Board.readHead at read
  split at read
  next =>
    obtain ⟨column, -, read⟩ := bind_eq_ok.mp read
    obtain ⟨row, -, read⟩ := bind_eq_ok.mp read
    cases read
    exact sound
  next => cases read

theorem readLine (sound : state.Sound) (read : readLine pos state text = .ok next) :
    next.Sound := by
  unfold Board.readLine at read
  split at read
  next =>
    cases read
    exact sound
  next =>
    split at read
    next => exact readSize read
    next =>
      split at read
      next => exact sound.readCell read
      next =>
        split at read
        next => exact sound.readHead read
        next => cases read

theorem readLines {texts : List (Nat × String)} (sound : state.Sound)
    (read : readLines state texts = .ok next) : next.Sound := by
  induction texts generalizing state with
  | nil =>
    cases read
    exact sound
  | cons first rest ih =>
    obtain ⟨middle, readFirst, readRest⟩ := bind_eq_ok.mp read
    exact ih (sound.readLine readFirst) readRest

end TextState.Sound

theorem described_of_ofText (read : ofText text = .ok board) : board.Described := by
  unfold ofText at read
  split at read
  next => cases read
  next pos header rest isText =>
    split at read
    next => cases read
    next =>
      obtain ⟨state, readRest, read⟩ := bind_eq_ok.mp read
      have start : TextState.Sound ⟨none, .origin⟩ := fun _ none => by cases none
      have sound : state.Sound := start.readLines readRest
      split at read
      next => cases read
      next described isDescribed =>
        split at read
        next onBoard =>
          cases read
          have whole := sound described isDescribed
          exact ⟨whole.wellFormed.withHead onBoard, whole.unsaved⟩
        next => cases read

/-! ## Operations, one after the other -/

/-- What an operation makes of a board.  An operation that fails makes nothing of it. -/
inductive Operation : Board → Board → Prop where
  | putStone {before after : Board} (color : Color) (put : before.putStone color = .ok after) :
      Operation before after
  | takeStone {before after : Board} (color : Color) (taken : before.takeStone color = .ok after) :
      Operation before after
  | moveHead {before after : Board} (direction : Direction)
      (moved : before.moveHead direction = .ok after) : Operation before after
  | goToOrigin (before : Board) : Operation before before.goToOrigin
  | clear (before : Board) : Operation before before.clear
  | save (before : Board) : Operation before before.save
  | restore (before : Board) : Operation before before.restore

/-- The boards that come from a blank one or from a text by operations.  The sides of a blank
board are numbers that can be written. -/
inductive Reachable : Board → Prop where
  | blank {width height : Nat} (widthFits : width ≤ Text.maxCount)
      (heightFits : height ≤ Text.maxCount) : Reachable (blank width height)
  | ofText {text : String} {board : Board} (read : ofText text = .ok board) : Reachable board
  | operation {before after : Board} (reachable : Reachable before)
      (operation : Operation before after) : Reachable after

theorem WellFormed.operation (wellFormed : before.WellFormed) (operation : Operation before after) :
    after.WellFormed := by
  cases operation with
  | putStone color put => exact wellFormed.putStone put
  | takeStone color taken => exact wellFormed.takeStone taken
  | moveHead dir moved => exact wellFormed.moveHead moved
  | goToOrigin => exact wellFormed.goToOrigin
  | clear => exact wellFormed.clear
  | save => exact wellFormed.save
  | restore => exact wellFormed.restore

theorem Reachable.wellFormed (reachable : board.Reachable) : board.WellFormed := by
  induction reachable with
  | blank widthFits heightFits => exact wellFormed_blank widthFits heightFits
  | ofText read => exact (described_of_ofText read).wellFormed
  | operation _ operation ih => exact ih.operation operation

end Board

open Board

def fullCellText : String :=
  "% a full cell\nGBB/1.0\nsize 2 3\ncell 1 2 Red 18446744073709551615 Blue 0\n\nhead 1 1\n"

/-- The board of the text after it has been saved, a red stone has been taken from the full cell
and a green one has been put on it. -/
def changedFullCell : Board where
  width := 2
  height := 3
  cells := #[.empty, .empty, .empty, .empty, .empty, ⟨0, 0, 18446744073709551614, 1⟩]
  head := ⟨1, 2⟩
  saved := [⟨#[.empty, .empty, .empty, .empty, .empty, ⟨0, 0, 18446744073709551615, 0⟩], ⟨1, 1⟩⟩]

end StoneBoard
