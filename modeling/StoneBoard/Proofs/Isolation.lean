import StoneBoard.Caller
import StoneBoard.Proofs.Blame
import StoneBoard.Proofs.BoardText
import StoneBoard.Proofs.Service

/-!
# Isolated runs

A run in a worker ends as it would have ended here.  The request reaches the worker, every
message of the worker reaches the caller, and the outcome that the caller takes from them has
the same board and the same values, or is the same error without its line of text.
-/

namespace StoneBoard

open List

variable {error : Error}
variable {src : String} {outcome : Message}

/-! ## Reports -/

theorem Span.Within.exact_toJson {span : Span} (within : span.Within src)
    (fits : src.utf8ByteSize < Text.maxCount) : span.toJson.Exact := by
  have word {number : Nat} (small : number ≤ src.utf8ByteSize + 1) : Json.isWord number = true :=
    isWord_of_le (Nat.le_trans small fits)
  exact ⟨word (Nat.le_succ_of_le within.start), word (Nat.le_succ_of_le within.stop),
    word within.line, word within.column, trivial⟩

theorem Cause.exact_of_isExpected {cause : Cause} (expected : cause.isExpected = true)
    (limited : ∀ limit, cause.callLimit? = some limit → limit ≤ Text.maxCount) :
    cause.toJson.Exact := by
  cases cause with
  | stackOverflow limit => exact ⟨isWord_of_le (limited limit rfl), trivial⟩
  | incomparableValues => exact ⟨⟨trivial, trivial, trivial⟩, trivial⟩
  | argumentType | emptyColor | stoneOverflow | cannotMove | uninitializedVariable | boom =>
    exact ⟨trivial, trivial⟩
  | divisionByZero | negativeExponent | emptyList | conditionNotBoolean => trivial
  | _ => cases expected

/-- An error that can be reported: all of its numbers can be written. -/
structure Error.Reportable (error : Error) : Prop where
  cause : error.cause.toJson.Exact
  spans : ∀ span, error.span = some span → span.toJson.Exact

theorem Error.FoundIn.reportable (found : error.FoundIn (Span.Within src))
    (fits : src.utf8ByteSize < Text.maxCount) : error.Reportable := by
  obtain ⟨static, place, isPlace, within⟩ := found
  refine ⟨Cause.exact_of_static static, fun span isSpan => ?_⟩
  cases isPlace.symm.trans isSpan
  exact within.exact_toJson fits

theorem Job.span_explain (job : Job) (error : Error) : (job.explain error).span = error.span := by
  obtain ⟨line, same⟩ := job.explain_eq error
  rw [same]

namespace Job

variable {job : Job} {budget : Nat}

theorem reportable_of_execute {site : Site} {compiled : CompiledModule}
    (fits : job.source.utf8ByteSize < Text.maxCount)
    (accepted : Site.ofEntry? job.settings job.file job.source = some site)
    (loaded : Library.fresh (Library.loadEntry job.settings job.file job.source) = .ok compiled)
    (failed : job.execute budget compiled = .failed error) : error.Reportable := by
  have expected := dynamic_of_execute accepted loaded failed
  have isEntry := Library.isEntry_of_loadEntry loaded
  unfold execute at failed
  split at failed
  next => cases failed
  next fault after ran =>
    cases failed
    obtain ⟨within, -, limited⟩ := isEntry.blame ran
    rw [cause_explain] at expected
    constructor
    · rw [cause_explain]
      apply Cause.exact_of_isExpected expected
      intro limit isLimit
      rw [limited limit isLimit]
      decide
    · intro span isSpan
      rw [span_explain] at isSpan
      exact (within span isSpan).toWithin.exact_toJson fits
  next => cases failed

theorem reportable_of_run (fits : job.source.utf8ByteSize < Text.maxCount)
    (failed : (job.run permitAll budget).2 = .failed error) : error.Reportable := by
  unfold run at failed
  have course := job.course_prepare
  generalize (job.prepare permitAll).run.run [] = prepared at failed course
  cases course with
  | unreadable found =>
    cases failed
    exact found.reportable fits
  | unsound found =>
    cases failed
    exact found.reportable fits
  | started accepted loaded => exact reportable_of_execute fits accepted loaded failed

/-- A run that is completed leaves a well-formed board as a well-formed board. -/
theorem wellFormed_of_run (wellFormed : job.board.WellFormed) {result : Bindings} {scene : Scene}
    (completed : (job.run permitAll budget).2 = .completed result scene) :
    scene.board.WellFormed := by
  unfold run at completed
  split at completed
  next compiled stages prepared =>
    dsimp only at completed
    unfold execute at completed
    split at completed
    next ran =>
      cases completed
      exact (CompiledModule.later_of_run ran).wellFormed wellFormed
    next => cases completed
    next => cases completed
  next => cases completed

end Job

/-! ## Messages from the worker -/

namespace Handle

theorem inbox_foldl_deliver (arrivals : List (Except Error Message)) (handle : Handle) :
    arrivals.foldl deliver handle = { handle with inbox := handle.inbox ++ arrivals } := by
  induction arrivals generalizing handle with
  | nil => simp
  | cons first rest ih => simp [deliver, ih]

variable {handle next : Handle}

theorem drain_of_log {text : String} (polled : handle.poll = (.log text, next)) :
    handle.drain = (text :: next.drain.1, next.drain.2) := by
  rw [drain]
  split
  next found =>
    rw [polled] at found
    cases found
    rfl
  next found =>
    rw [polled] at found
    cases found
  next found =>
    rw [polled] at found
    cases found

theorem drain_of_done {outcome : Except Error Completion}
    (polled : handle.poll = (.done outcome, next)) : handle.drain = ([], some outcome, next) := by
  rw [drain]
  split
  next found =>
    rw [polled] at found
    cases found
  next found =>
    rw [polled] at found
    cases found
    rfl
  next found =>
    rw [polled] at found
    cases found

theorem drain_append (texts : List String) (rest : List (Except Error Message)) (closed : Bool) :
    drain ⟨texts.map (fun text => .ok (.log text)) ++ rest, closed, false⟩ =
      (texts ++ (drain ⟨rest, closed, false⟩).1, (drain ⟨rest, closed, false⟩).2) := by
  induction texts with
  | nil => rfl
  | cons first others ih => rw [map_cons, cons_append, drain_of_log rfl, ih]; rfl

theorem drain_logs (texts : List String) (isOutcome : ∀ text, outcome ≠ .log text) (closed : Bool) :
    ∃ last, drain ⟨texts.map (fun text => .ok (.log text)) ++ [.ok outcome], closed, false⟩ =
      (texts, some (outcomeOf outcome), last) := by
  have polled : poll ⟨[.ok outcome], closed, false⟩ =
      (.done (outcomeOf outcome), ⟨[], closed, true⟩) := by
    cases outcome with
    | log text => exact absurd rfl (isOutcome text)
    | start | exit | ok | fail => rfl
  refine ⟨⟨[], closed, true⟩, ?_⟩
  rw [drain_append, drain_of_done polled, append_nil]

end Handle

namespace Isolation

variable {msg : Message}

/-- The run that a worker is asked for, as it would be here: with types, and with the modules
next to the file. -/
def job (tree : FileTree) (filename source : String) (board : Board) : Job :=
  { catalogue := .besides tree filename, file := filename, source, board, typecheck := true }

variable {tree : FileTree} {budget : Nat} {filename src : String} {board : Board}

theorem serve_request (wellFormed : board.WellFormed) (unsaved : board.saved = []) :
    Worker.serve tree budget [.ok (request filename src board)] =
      (Worker.logs ((job tree filename src board).run Job.permitAll budget).1 ++
        (Worker.outcome? ((job tree filename src board).run Job.permitAll budget).2).toList,
        if (Worker.outcome? ((job tree filename src board).run Job.permitAll budget).2).isSome
        then .stopped else .busy) := by
  have read : Board.ofText board.toText = .ok board := by
    rw [Board.ofText_toText wellFormed, ← unsaved]
  rw [Worker.serve, Worker.react, request, Message.isEmpty_trim_encode, if_neg Bool.false_ne_true,
    Message.decode_start]
  simp only [Worker.replies, read]
  rw [← job]
  cases Worker.outcome? ((job tree filename src board).run Job.permitAll budget).2 with
  | none => simp [Worker.logs]
  | some msg => simp [Worker.logs, Worker.serve]

theorem decode_logs (stages : List Stage) :
    (Worker.logs stages).map (fun msg => Message.decode msg.encode) =
      (stages.map Stage.text).map fun text => .ok (.log text) := by
  induction stages with
  | nil => rfl
  | cons first rest ih =>
    rw [Worker.logs] at ih ⊢
    rw [map_cons, map_cons, Message.decode_log, ih, map_cons, map_cons]

theorem transcript_eq (wellFormed : board.WellFormed) (unsaved : board.saved = []) :
    transcript tree budget filename src board =
      ⟨(((job tree filename src board).run Job.permitAll budget).1.map Stage.text).map
          (fun text => .ok (.log text)) ++
        (Worker.outcome? ((job tree filename src board).run Job.permitAll budget).2).toList.map
          (fun msg => Message.decode msg.encode),
        (Worker.outcome? ((job tree filename src board).run Job.permitAll budget).2).isSome⟩ := by
  rw [transcript, serve_request wellFormed unsaved, ← decode_logs, ← map_append]
  cases Worker.outcome? ((job tree filename src board).run Job.permitAll budget).2 <;> rfl

theorem arrivals_transcript (wellFormed : board.WellFormed) (unsaved : board.saved = [])
    (ended : Worker.outcome? ((job tree filename src board).run Job.permitAll budget).2 = some msg)
    (decodes : Message.decode msg.encode = .ok msg) :
    (transcript tree budget filename src board).arrivals =
      (((job tree filename src board).run Job.permitAll budget).1.map Stage.text).map
        (fun text => .ok (.log text)) ++ [.ok msg] := by
  rw [transcript_eq wellFormed unsaved, ended, Option.toList_some, map_singleton, decodes]

end Isolation

theorem Handle.receive_start (transcript : Transcript) :
    start.receive transcript = ⟨transcript.arrivals, transcript.ends, false⟩ := by
  rw [receive, inbox_foldl_deliver]
  cases transcript.ends <;> rfl

theorem Handle.drain_receive {transcript : Transcript} {texts : List String}
    (arrivals : transcript.arrivals = texts.map (fun text => .ok (.log text)) ++ [.ok outcome])
    (isOutcome : ∀ text, outcome ≠ .log text) :
    ∃ last, (start.receive transcript).drain = (texts, some (outcomeOf outcome), last) := by
  rw [receive_start, arrivals]
  exact drain_logs texts isOutcome transcript.ends

namespace Isolation

/-- The end of a run as its caller should hear of it: a board of the same contents with the same
values, or the same error without its line of text. -/
inductive Conveys : RunEnd → Except Error Completion → Prop
  | completed {result : Bindings} {scene : Scene} {board : Board}
      (same : board.sameContents scene.board = true) :
      Conveys (.completed result scene) (.ok ⟨board, result⟩)
  | failed (error : Error) : Conveys (.failed error) (.error { error with sourceLine := none })

/-- The message about a run that has ended can be written, and it conveys the end. -/
theorem conveys_outcome {job : Job} {budget : Nat} (wellFormed : job.board.WellFormed)
    (fits : job.source.utf8ByteSize < Text.maxCount) {stages : List Stage} {ending : RunEnd}
    (ran : job.run Job.permitAll budget = (stages, ending)) (terminates : ending ≠ .unfinished) :
    ∃ msg, Worker.outcome? ending = some msg ∧ msg.toJson.Exact ∧
      (∀ text, msg ≠ .log text) ∧ Conveys ending (Handle.outcomeOf msg) := by
  have isEnding : (job.run Job.permitAll budget).2 = ending := by rw [ran]
  cases ending with
  | completed result scene =>
    have read := Board.ofText_toText (Job.wellFormed_of_run wellFormed isEnding)
    refine ⟨_, rfl, ⟨trivial, trivial, Wire.exact_bindingsToJson result, trivial⟩, nofun, ?_⟩
    simp only [Handle.outcomeOf, read]
    exact .completed (by simp [Board.sameContents])
  | failed error =>
    have reportable := Job.reportable_of_run fits isEnding
    exact ⟨_, rfl, ⟨trivial, ErrorReport.exact_toJson reportable.cause reportable.spans, trivial⟩,
      nofun, .failed error⟩
  | unfinished => exact absurd rfl terminates

end Isolation

/-- A run in a worker ends like the run here.  If the run terminates, and the message about its
end nests no deeper than messages may, then the caller of a worker that has at least as many
steps hears of every stage and then of this end. -/
theorem isolated_run_agrees {tree : FileTree} {budget more : Nat} {filename source : String}
    {board : Board} {stages : List Stage} {ending : RunEnd} (wellFormed : board.WellFormed)
    (unsaved : board.saved = []) (fits : source.utf8ByteSize < Text.maxCount)
    (ran : (Isolation.job tree filename source board).run Job.permitAll budget = (stages, ending))
    (terminates : ending ≠ .unfinished)
    (shallow : ∀ message, Worker.outcome? ending = some message →
      message.toJson.depth ≤ Message.nestingLimit)
    (enough : budget ≤ more) :
    ∃ outcome last,
      (Handle.start.receive (Isolation.transcript tree more filename source board)).drain =
        (stages.map Stage.text, some outcome, last) ∧
      Isolation.Conveys ending outcome := by
  obtain ⟨message, told, isExact, isOutcome, conveys⟩ :=
    Isolation.conveys_outcome wellFormed fits ran terminates
  have decodes := Message.decode_encode isExact (shallow message told)
  have stays : (Isolation.job tree filename source board).run Job.permitAll more =
      (stages, ending) := by
    rw [Job.run_of_le enough (by rw [ran]; exact terminates), ran]
  have arrivals :=
    Isolation.arrivals_transcript wellFormed unsaved (by rw [stays]; exact told) decodes
  rw [stays] at arrivals
  obtain ⟨last, drained⟩ := Handle.drain_receive arrivals isOutcome
  exact ⟨Handle.outcomeOf message, last, drained, conveys⟩

def RunEnd.result? : RunEnd → Option Bindings
  | .completed result _ => some result
  | _ => none

def Isolation.sampleJob : Job :=
  job .empty "main.gbs" "procedure Main() \x7b PutStone(Red) x := [1, 2] return (x) \x7d"
    (.blank 2 1)

theorem isolated_sample_run_agrees :
    ∃ stages ending outcome last,
      Isolation.sampleJob.run Job.permitAll 40 = (stages, ending) ∧
      ending.result? = some [("x", .list [.int 1, .int 2])] ∧
      (Handle.start.receive (Isolation.transcript .empty 40 "main.gbs" Isolation.sampleJob.source
        (.blank 2 1))).drain = (stages.map Stage.text, some outcome, last) ∧
      Isolation.Conveys ending outcome := by
  have results : (Isolation.sampleJob.run Job.permitAll 40).2.result? =
      some [("x", .list [.int 1, .int 2])] := by decide +kernel
  have depths : (Worker.outcome? (Isolation.sampleJob.run Job.permitAll 40).2).map
      (fun message => message.toJson.depth) = some 8 := by decide +kernel
  have short : Isolation.sampleJob.source.utf8ByteSize < Text.maxCount := by decide +kernel
  have wellFormed : (Board.blank 2 1).WellFormed := Board.wellFormed_blank (by decide) (by decide)
  rcases ran : Isolation.sampleJob.run Job.permitAll 40 with ⟨stages, ending⟩
  rw [ran] at results depths
  have terminates : ending ≠ .unfinished := by
    rintro rfl
    cases results
  have shallow : ∀ message, Worker.outcome? ending = some message →
      message.toJson.depth ≤ Message.nestingLimit := by
    intro message told
    rw [told, Option.map_some, Option.some.injEq] at depths
    rw [depths]
    decide
  obtain ⟨outcome, last, drained, conveys⟩ :=
    isolated_run_agrees wellFormed rfl short ran terminates shallow (Nat.le_refl 40)
  exact ⟨stages, ending, outcome, last, rfl, results, drained, conveys⟩

end StoneBoard
