import StoneBoard.Proofs.BoardHistory
import StoneBoard.Proofs.Isolation
import StoneBoard.Shell

/-!
# Dialogues

The board of a shell changes with the lines that succeed, and with no others.  A run that succeeds
leaves the board that the same run would have left here.
-/

namespace StoneBoard

open List

/-! ## Waiting for a run -/

theorem Handle.drain_of_pending {handle next : Handle} (polled : handle.poll = (.pending, next)) :
    handle.drain = ([], none, next) := by
  rw [drain]
  split
  next found =>
    rw [polled] at found
    cases found
  next found =>
    rw [polled] at found
    cases found
  next found =>
    rw [polled] at found
    cases found
    rfl

theorem Handle.settle_patient (timeout : Option Nat) (outcome : Except Error Completion) :
    settle ⟨timeout, false⟩ outcome = outcome := by
  unfold settle
  split
  next error =>
    split
    · rfl
    · rfl
  next => rfl

/-- A message about the end of a run tells its outcome, unless it is nested too deeply. -/
theorem Handle.drain_message {msg : Message} (isExact : msg.toJson.Exact)
    (isOutcome : ∀ text, msg ≠ .log text) (closed : Bool) :
    ∃ fault, (drain ⟨[Message.decode msg.encode], closed, false⟩).2.1 =
      some (if (Message.decode? msg.encode).isSome then outcomeOf msg else .error fault) := by
  cases decoded : Message.decode? msg.encode with
  | none =>
    obtain ⟨fault, refused⟩ : ∃ fault, Message.decode msg.encode = .error fault :=
      ⟨_, by rw [Message.decode, decoded]⟩
    exact ⟨fault, by rw [refused, drain_of_done rfl]; rfl⟩
  | some other =>
    have read : Message.decode msg.encode = .ok other := by rw [Message.decode, decoded]
    obtain rfl := Message.eq_of_decode_encode isExact read
    obtain ⟨last, drained⟩ := drain_logs [] isOutcome closed
    exact ⟨.interrupted, by rw [read]; exact congrArg (·.2.1) drained⟩

/-- Whether the message about the end of a run can be read. -/
def Completion.isReadable (completion : Completion) : Bool :=
  (Message.decode? (Message.ok completion.board.toText completion.result).encode).isSome

namespace Isolation

variable {tree : FileTree} {budget : Nat} {timeout : Option Nat} {filename src : String}
  {board : Board}

/-- The steps that a run may take before it is given up. -/
def stepLimit (budget : Nat) (timeout : Option Nat) : Nat :=
  Handle.Patience.budget ⟨timeout, false⟩ budget

theorem run_eq (patient : timeout ≠ some 0) (described : board.Described) {stages : List Stage}
    {ending : RunEnd} (ran : (job tree filename src board).run Job.permitAll
      (stepLimit budget timeout) = (stages, ending)) :
    (run tree budget timeout filename src board).2 =
      (Handle.drain ⟨(Worker.outcome? ending).toList.map fun msg =>
          Message.decode msg.encode, (Worker.outcome? ending).isSome, false⟩).2.1.or
        (if timeout.isSome then some (.error .interrupted) else none) := by
  have first : Handle.start.drain = ([], none, .start) := Handle.drain_of_pending rfl
  have unfinished : Handle.start.finished = false := rfl
  have notZero : (timeout == some 0) = false := beq_eq_false_iff_ne.mpr patient
  simp only [run, Handle.wait, first, unfinished, Bool.false_eq_true, if_false, Bool.false_or,
    notZero]
  rw [← stepLimit, Handle.receive_start, transcript_eq described.wellFormed described.unsaved, ran,
    Handle.drain_append]
  generalize Handle.drain _ = drained
  obtain ⟨texts, _ | outcome, last⟩ := drained
  · cases timeout <;> rfl
  · simp [Handle.settle_patient]

/-- A run in a worker succeeds like the run here does in the same time, if the message about its end
can be read. -/
theorem run_completion (patient : timeout ≠ some 0) (described : board.Described)
    (fits : src.utf8ByteSize < Text.maxCount) :
    (run tree budget timeout filename src board).2.bind Except.toOption =
      ((Execution.runHere tree (stepLimit budget timeout) {} filename src board).outcome.bind
        Except.toOption).filter Completion.isReadable := by
  rcases ran : (job tree filename src board).run Job.permitAll (stepLimit budget timeout)
    with ⟨stages, ending⟩
  have isEnding : ((job tree filename src board).run Job.permitAll
      (stepLimit budget timeout)).2 = ending := by rw [ran]
  rw [run_eq patient described ran]
  simp only [Execution.runHere]
  rw [← job, ran]
  by_cases unfinished : ending = .unfinished
  · subst unfinished
    rw [show Handle.drain _ = _ from Handle.drain_of_pending rfl]
    cases timeout <;> rfl
  · obtain ⟨msg, told, isExact, isOutcome, conveys⟩ :=
      conveys_outcome described.wellFormed fits ran unfinished
    obtain ⟨fault, drained⟩ := Handle.drain_message isExact isOutcome true
    rw [told, Option.toList_some, map_singleton, Option.isSome_some, drained]
    cases ending with
    | unfinished => exact absurd rfl unfinished
    | failed error =>
      generalize Handle.outcomeOf msg = outcome at conveys
      cases conveys
      split <;> rfl
    | completed result scene =>
      obtain rfl : Message.ok scene.board.toText result = msg := Option.some.inj told
      have unsaved : scene.board.saved = [] := (Job.saved_of_run isEnding).trans described.unsaved
      have read : Board.ofText scene.board.toText = .ok scene.board := by
        rw [Board.ofText_toText (Job.wellFormed_of_run described.wellFormed isEnding), ← unsaved]
      simp only [Handle.outcomeOf, read]
      change _ = (some (Completion.mk scene.board result)).filter Completion.isReadable
      rw [Option.filter_some, Completion.isReadable]
      split <;> rfl

end Isolation

theorem Execution.described_of_runHere {tree : FileTree} {steps : Nat} {options : RunOptions}
    {file src : String} {board : Board} {completion : Completion} (described : board.Described)
    (ran : (runHere tree steps options file src board).outcome = some (.ok completion)) :
    completion.board.Described := by
  unfold runHere at ran
  dsimp only at ran
  split at ran
  next ended =>
    cases ran
    exact ⟨Job.wellFormed_of_run described.wellFormed ended,
      (Job.saved_of_run ended).trans described.unsaved⟩
  next => cases ran
  next => cases ran

/-! ## Files -/

namespace FileTree

variable {tree : FileTree} {place : Location} {contents : ByteArray}

/-- Files are no longer than numbers can tell. -/
def Sized (tree : FileTree) : Prop := ∀ file ∈ tree.files, file.2.size < Text.maxCount

theorem Sized.contents? (sized : tree.Sized) (found : tree.contents? place = some contents) :
    contents.size < Text.maxCount := by
  unfold FileTree.contents? at found
  split at found
  · cases found
    decide
  · obtain ⟨before, after, isTree, -⟩ := List.lookup_eq_some_iff.mp found
    exact sized (place, contents) (isTree ▸ mem_append_right before mem_cons_self)

theorem Sized.follow (sized : tree.Sized) {start : Location} {segments : List String}
    (found : tree.follow start segments = .file place contents) :
    contents.size < Text.maxCount := by
  fun_induction FileTree.follow tree start segments <;> grind [→ Sized.contents?, obstructed]

theorem Sized.readBytes (sized : tree.Sized) {path : String}
    (read : tree.readBytes path = .ok contents) : contents.size < Text.maxCount := by
  unfold FileTree.readBytes resolve at read
  split at read
  next place _ found =>
    cases read
    split at found
    · cases found
    · split at found
      · cases found
      · split at found
        · cases found
        · exact sized.follow found
        · exact sized.follow found
  all_goals cases read

theorem Sized.readSource (sized : tree.Sized) {path src : String}
    (read : Execution.readSource tree path = .ok src) : src.utf8ByteSize < Text.maxCount := by
  obtain ⟨contents, bytes, decoded⟩ := bind_eq_ok.mp (mapError_eq_ok.mp read)
  split at decoded
  next isText =>
    cases decoded
    unfold String.fromUTF8? at isText
    split at isText
    next =>
      cases isText
      exact sized.readBytes bytes
    next => cases isText
  next => cases decoded

end FileTree

/-! ## Lines -/

def Effect.isComplaint : Effect → Bool
  | complain _ => true
  | _ => false

namespace Shell

/-- The board after a request that is carried out, with a number of steps for a run.  Whatever is
run is run here. -/
def Request.carry? (tree : FileTree) (steps : Nat) (board : Board) : Request → Option Board
  | .run file => do
      let source ← (Execution.readSource tree file).toOption
      let outcome := (Execution.runHere tree steps {} file source board).outcome
      let completion ← (outcome.bind Except.toOption).filter Completion.isReadable
      return completion.board
  | .load file => (Execution.readBoard tree file).toOption
  | .size width height => do
      return .blank (← Text.readCount? width) (← Text.readCount? height)
  | .timeout milliseconds => (Text.readCount? milliseconds).map fun _ => board
  | .unknown => none
  | .exit | .help | .board => some board

def carry? (tree : FileTree) (steps : Nat) (line : String) (board : Board) : Option Board :=
  match (Text.corrected line).map Text.words with
  | none => none
  | some [] => some board
  | some words => (Request.ofWords words).carry? tree steps board

structure Turn where
  before : Shell
  line : String
  reply : Reply

def turns (tree : FileTree) (budget : Nat) (shell : Shell) :
    List (Except FileFault String) → List Turn
  | .ok line :: rest =>
      let reply := shell.respond tree budget line
      ⟨shell, line, reply⟩ ::
        if reply.verdict = .goesOn then turns tree budget reply.shell rest else []
  | _ => []

def Turn.carry? (turn : Turn) (tree : FileTree) (budget : Nat) (board : Board) : Option Board :=
  Shell.carry? tree (Isolation.stepLimit budget turn.before.timeout) turn.line board

/-- Nothing is complained about, and the shell does not wait for a run forever. -/
def Reply.succeeds (reply : Reply) : Bool :=
  !reply.effects.any Effect.isComplaint && reply.verdict != .busy

structure Ready (shell : Shell) : Prop where
  described : shell.board.Described
  patient : shell.timeout ≠ some 0

theorem ready_start : start.Ready :=
  ⟨⟨Board.wellFormed_blank (by decide) (by decide), rfl⟩, nofun⟩

/-- A reply is that to a line which leaves a board, or to one that fails. -/
structure Reply.Answers (reply : Reply) (before : Board) (after : Option Board) : Prop where
  board : reply.shell.board = after.getD before
  succeeds : reply.succeeds = after.isSome

variable {tree : FileTree} {budget : Nat} {shell : Shell}

theorem runFile_answers (sized : tree.Sized) (ready : shell.Ready) (file : String) :
    (shell.runFile tree budget file).Answers shell.board
        (Request.carry? tree (Isolation.stepLimit budget shell.timeout) shell.board (.run file)) ∧
      (shell.runFile tree budget file).shell.Ready := by
  rw [runFile, Request.carry?]
  cases read : Execution.readSource tree file with
  | error error => exact ⟨⟨rfl, rfl⟩, ready⟩
  | ok src =>
    have agrees : (Isolation.run tree budget shell.timeout file src shell.board).2.bind
        Except.toOption = _ :=
      Isolation.run_completion ready.patient ready.described (sized.readSource read)
    change Reply.Answers _ _ ((Option.filter _ _).bind fun completion : Completion =>
      some completion.board) ∧ _
    rw [← agrees]
    dsimp only
    rcases ran : Isolation.run tree budget shell.timeout file src shell.board with
      ⟨texts, _ | _ | completion⟩
    · exact ⟨⟨rfl, by simp [Reply.succeeds]⟩, ready⟩
    · exact ⟨⟨rfl, by simp [Reply.succeeds, Effect.isComplaint, Execution.complaint,
        Except.toOption]⟩, ready⟩
    · have here : completion ∈ (Option.filter _ _) := (agrees.symm.trans (by rw [ran]; rfl))
      refine ⟨⟨rfl, ?_⟩, ?_, ready.patient⟩
      · simp [Reply.succeeds, Effect.isComplaint, Execution.showCompletion, Execution.showBoard,
          Except.toOption]
      · obtain ⟨outcome, ended, isOk⟩ :=
          Option.bind_eq_some_iff.mp (Option.filter_eq_some_iff.mp here).1
        cases outcome <;> cases isOk
        exact Execution.described_of_runHere ready.described ended

theorem perform_answers (sized : tree.Sized) (ready : shell.Ready) (request : Request) :
    (shell.perform tree budget request).Answers shell.board
        (request.carry? tree (Isolation.stepLimit budget shell.timeout) shell.board) ∧
      (shell.perform tree budget request).shell.Ready := by
  cases request with
  | exit | help | board | unknown => exact ⟨⟨rfl, rfl⟩, ready⟩
  | load file =>
    simp only [perform, Request.carry?]
    cases read : Execution.readBoard tree file with
    | error error => exact ⟨⟨rfl, rfl⟩, ready⟩
    | ok board =>
      obtain ⟨text, -, found⟩ := bind_eq_ok.mp read
      exact ⟨⟨rfl, rfl⟩, Board.described_of_ofText (mapError_eq_ok.mp found), ready.patient⟩
  | size width height =>
    simp only [perform, Request.carry?]
    cases wide : Text.readCount? width with
    | none => exact ⟨⟨rfl, rfl⟩, ready⟩
    | some columns =>
      cases high : Text.readCount? height with
      | none => exact ⟨⟨rfl, rfl⟩, ready⟩
      | some rows =>
        have wellFormed :=
          Board.wellFormed_blank (Board.readCount?_le wide) (Board.readCount?_le high)
        exact ⟨⟨rfl, rfl⟩, ⟨wellFormed, rfl⟩, ready.patient⟩
  | timeout milliseconds =>
    simp only [perform, Request.carry?]
    rcases Text.readCount? milliseconds with _ | _ | limit
    · exact ⟨⟨rfl, rfl⟩, ready⟩
    · exact ⟨⟨rfl, rfl⟩, ready.described, nofun⟩
    · exact ⟨⟨rfl, rfl⟩, ready.described, nofun⟩
  | run file => exact runFile_answers sized ready file

theorem respond_answers (budget : Nat) (sized : tree.Sized) (ready : shell.Ready) (line : String) :
    (shell.respond tree budget line).Answers shell.board
        (carry? tree (Isolation.stepLimit budget shell.timeout) line shell.board) ∧
      (shell.respond tree budget line).shell.Ready := by
  unfold respond carry?
  rcases (Text.corrected line).map Text.words with _ | _ | ⟨word, words⟩
  · exact ⟨⟨rfl, rfl⟩, ready⟩
  · exact ⟨⟨rfl, rfl⟩, ready⟩
  · exact perform_answers sized ready _

/-- Whatever is left of a dialogue, the board changes with the lines that are carried out. -/
theorem converse_answers (sized : tree.Sized) (ready : shell.Ready)
    (lines : List (Except FileFault String)) : (converse tree budget shell lines).shell.board =
        (turns tree budget shell lines).foldl
          (fun board turn => (turn.carry? tree budget board).getD board) shell.board ∧
      ∀ turn ∈ turns tree budget shell lines,
        turn.reply.succeeds = (turn.carry? tree budget turn.before.board).isSome := by
  induction lines generalizing shell with
  | nil => exact ⟨rfl, nofun⟩
  | cons line rest ih =>
    cases line with
    | error fault => exact ⟨rfl, nofun⟩
    | ok line =>
      obtain ⟨answers, later⟩ := respond_answers budget sized ready line
      obtain ⟨board, succeed⟩ := ih later
      rw [converse, turns, foldl_cons, Turn.carry?, ← answers.board, forall_mem_cons]
      cases verdict : (shell.respond tree budget line).verdict with
      | goesOn => exact ⟨board, answers.succeeds, succeed⟩
      | ended | busy | broken => exact ⟨rfl, answers.succeeds, nofun⟩

end Shell

def Shell.sampleTree : FileTree where
  files := [(["p.gbs"], "procedure Main()\x7bMove(East)\x7d".toUTF8)]
  directories := []

def Shell.sampleLines : List (Except FileFault String) :=
  ["size 2 1", "run p.gbs", "size 3"].map .ok

end StoneBoard
