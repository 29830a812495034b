import StoneBoard.Proofs.Stages
import StoneBoard.Proofs.WireForms
import StoneBoard.Worker

/-!
# The service of a worker

A worker answers requests for runs one after the other, up to the first line that ends its
service: a request to exit, or anything that is no request.  The answer to a request is a block
of messages: the stages that have begun, and then the outcome.
-/

namespace StoneBoard

open List

namespace Worker

variable {tree : FileTree} {budget : Nat} {filename src board : String}

/-! ## Requests -/

inductive Request where
  | blank
  | start (filename source board : String)
  | exit
  | offence
deriving DecidableEq

namespace Request

def ofLine : Except FileFault String → Request
  | .error _ => offence
  | .ok line =>
      if (Text.trim line).isEmpty then blank
      else
        match Message.decode line with
        | .ok .exit => exit
        | .ok (.start filename source board) => start filename source board
        | _ => offence

theorem ofLine_start (filename src board : String) :
    ofLine (.ok (Message.start filename src board).encode) = start filename src board := by
  rw [ofLine, Message.isEmpty_trim_encode, if_neg Bool.false_ne_true, Message.decode_start]

theorem ofLine_exit : ofLine (.ok Message.exit.encode) = exit := by
  rw [ofLine, Message.isEmpty_trim_encode, if_neg Bool.false_ne_true, Message.decode_exit]

def isLast : Request → Bool
  | exit | offence => true
  | _ => false

def run? : Request → Option (String × String × String)
  | start filename source board => some (filename, source, board)
  | _ => none

end Request

def runs (lines : List (Except FileFault String)) : List (String × String × String) :=
  ((lines.map Request.ofLine).takeWhile fun request => !request.isLast).filterMap Request.run?

def last? (lines : List (Except FileFault String)) : Option Request :=
  (lines.map Request.ofLine).find? Request.isLast

/-! ## Blocks -/

def logs (stages : List Stage) : List Message := stages.map fun stage => .log stage.text

/-- A prefix of the messages about all stages, and one outcome: a success only after all of
them, and a failure that is static if and only if some are missing. -/
inductive IsBlock : List Message → Prop
  | success (board : String) (result : Bindings) : IsBlock (logs Stage.all ++ [.ok board result])
  | failure {stages : List Stage} {report : ErrorReport} (begun : stages <+: Stage.all)
      (static : report.errorClass = .static ↔ stages.length < Stage.all.length) :
      IsBlock (logs stages ++ [.fail report])

theorem isBlock_replies (complete : (replies tree budget filename src board).2 = true) :
    IsBlock (replies tree budget filename src board).1 := by
  unfold replies at complete ⊢
  cases read : Board.ofText board with
  | error fault =>
    have static : (Error.ofCause (.boardFormat fault.message)).report.errorClass = .static := rfl
    exact .failure nil_prefix (iff_of_true static (by decide))
  | ok given =>
    rw [read] at complete
    simp only [Job.run] at complete ⊢
    generalize isJob : Job.mk _ filename src given true = job at complete ⊢
    have course := job.course_prepare
    generalize (job.prepare Job.permitAll).run.run [] = prepared at complete course ⊢
    cases course with
    | unreadable found =>
      have begun : [.parsing] <+: Stage.all := by decide
      have few : [Stage.parsing].length < Stage.all.length := by decide
      exact .failure begun (iff_of_true found.static few)
    | unsound found =>
      have begun : [.parsing, .checking] <+: Stage.all := by decide
      have few : [Stage.parsing, .checking].length < Stage.all.length := by decide
      exact .failure begun (iff_of_true found.static few)
    | @started _ compiled accepted loaded =>
      dsimp only at complete ⊢
      cases ends : job.execute budget compiled with
      | completed result scene => exact .success _ _
      | failed error =>
        have expected := Job.dynamic_of_execute accepted loaded ends
        have dynamic : error.errorClass = .dynamic := Cause.errorClass_of_isExpected expected
        refine .failure (prefix_refl _) (iff_of_false ?_ (Nat.lt_irrefl _))
        change error.errorClass ≠ .static
        rw [dynamic]
        decide
      | unfinished =>
        rw [ends] at complete
        cases complete

theorem replies_of_le {more : Nat} (complete : (replies tree budget filename src board).2 = true)
    (enough : budget ≤ more) :
    replies tree more filename src board = replies tree budget filename src board := by
  unfold replies at complete ⊢
  split
  next => rfl
  next given readable =>
    rw [readable] at complete
    dsimp only at complete ⊢
    rw [Job.run_of_le enough]
    intro unfinished
    rw [unfinished] at complete
    cases complete

/-! ## The service -/

def answer (tree : FileTree) (budget : Nat) (run : String × String × String) :
    List Message × Bool :=
  replies tree budget run.1 run.2.1 run.2.2

section Lines

variable (line : Except FileFault String) (rest : List (Except FileFault String))

theorem runs_cons : runs (line :: rest) = match Request.ofLine line with
      | .blank => runs rest
      | .start filename src board => (filename, src, board) :: runs rest
      | _ => [] := by
  rw [runs, map_cons]
  cases Request.ofLine line <;> rfl

theorem last?_cons : last? (line :: rest) = match Request.ofLine line with
      | .exit => some .exit
      | .offence => some .offence
      | _ => last? rest := by
  rw [last?, map_cons]
  cases Request.ofLine line <;> rfl

theorem serve_cons (tree : FileTree) (budget : Nat) :
    match Request.ofLine line with
    | .blank => serve tree budget (line :: rest) = serve tree budget rest
    | .exit => serve tree budget (line :: rest) = ([], .stopped)
    | .offence => ∃ error, serve tree budget (line :: rest) = ([], .failed error)
    | .start filename src board =>
      (answer tree budget (filename, src, board)).2 = true →
      serve tree budget (line :: rest) =
        ((answer tree budget (filename, src, board)).1 ++ (serve tree budget rest).1,
          (serve tree budget rest).2) := by
  unfold Request.ofLine
  rw [serve, react.eq_def]
  cases line with
  | error fault => exact ⟨_, rfl⟩
  | ok line =>
    dsimp only
    generalize (Text.trim line).isEmpty = blank
    cases blank with
    | true => rfl
    | false =>
      simp only [Bool.false_eq_true, if_false]
      cases Message.decode line with
      | error error => exact ⟨error, rfl⟩
      | ok msg =>
        cases msg with
        | start filename src board =>
          intro complete
          rw [answer] at complete
          simp only [answer, complete]
        | exit => rfl
        | log | ok | fail => exact ⟨_, rfl⟩

end Lines

/-- All that a worker says, and how it ends, if the budget is enough for every run. -/
theorem serve_eq {lines : List (Except FileFault String)}
    (complete : ∀ run ∈ runs lines, (answer tree budget run).2 = true) :
    (serve tree budget lines).1 = ((runs lines).map fun run => (answer tree budget run).1).flatten ∧
      ((serve tree budget lines).2 = .stopped ↔ last? lines ≠ some .offence) ∧
      ((∃ error, (serve tree budget lines).2 = .failed error) ↔ last? lines = some .offence) := by
  induction lines with
  | nil => simp [serve, runs, last?]
  | cons line rest ih =>
    have served := serve_cons line rest tree budget
    rw [runs_cons] at complete ⊢
    rw [last?_cons]
    cases isLine : Request.ofLine line with
    | blank =>
      simp only [isLine] at served complete ⊢
      rw [served]
      exact ih complete
    | start filename src board =>
      simp only [isLine] at served complete ⊢
      obtain ⟨first, later⟩ := List.forall_mem_cons.mp complete
      obtain ⟨messages, ending⟩ := ih later
      rw [served first, map_cons, flatten_cons, messages]
      exact ⟨rfl, ending⟩
    | exit =>
      simp only [isLine] at served ⊢
      simp [served]
    | offence =>
      simp only [isLine] at served ⊢
      obtain ⟨error, served⟩ := served
      simp [served]

theorem exists_common_budget {asked : List (String × String × String)}
    (terminate : ∀ run ∈ asked, ∃ budget, (answer tree budget run).2 = true) :
    ∃ enough, ∀ run ∈ asked, (answer tree enough run).2 = true := by
  induction asked with
  | nil => exact ⟨0, fun run mem => by cases mem⟩
  | cons first rest ih =>
    obtain ⟨⟨early, firstEnds⟩, restEnd⟩ := List.forall_mem_cons.mp terminate
    obtain ⟨late, laterEnd⟩ := ih restEnd
    refine ⟨max early late, List.forall_mem_cons.mpr ⟨?_, fun run mem => ?_⟩⟩
    · rw [answer, replies_of_le firstEnds (Nat.le_max_left early late)]
      exact firstEnds
    · have ends := laterEnd run mem
      rw [answer, replies_of_le ends (Nat.le_max_right early late)]
      exact ends

end Worker

/-- If every run that is asked for terminates, a worker answers them in order with one block
each, whatever budget beyond some number of steps it has.  It says nothing after the line that
ends its service, and fails if and only if this line is no request to exit. -/
theorem worker_answers_in_blocks (tree : FileTree) {lines : List (Except FileFault String)}
    (terminate : ∀ run ∈ Worker.runs lines, ∃ budget, (Worker.answer tree budget run).2 = true) :
    ∃ enough blocks, List.Forall₂ (fun run block => Worker.IsBlock block ∧
          ∀ budget ≥ enough, Worker.answer tree budget run = (block, true))
        (Worker.runs lines) blocks ∧
      ∀ budget ≥ enough,
        (Worker.serve tree budget lines).1 = blocks.flatten ∧
        ((Worker.serve tree budget lines).2 = .stopped ↔
          Worker.last? lines ≠ some .offence) ∧
        ((∃ error, (Worker.serve tree budget lines).2 = .failed error) ↔
          Worker.last? lines = some .offence) := by
  obtain ⟨enough, complete⟩ := Worker.exists_common_budget terminate
  have stays {budget : Nat} (more : enough ≤ budget) {run : String × String × String}
      (member : run ∈ Worker.runs lines) :
      Worker.answer tree budget run = Worker.answer tree enough run :=
    Worker.replies_of_le (complete run member) more
  refine ⟨enough, (Worker.runs lines).map fun run => (Worker.answer tree enough run).1, ?_, ?_⟩
  · rw [List.forall₂_map_right_iff, List.forall₂_same]
    intro run member
    refine ⟨Worker.isBlock_replies (complete run member), fun budget more => ?_⟩
    rw [stays more member, ← complete run member]
  · intro budget more
    have sameBlocks : (Worker.runs lines).map (fun run => (Worker.answer tree enough run).1) =
        (Worker.runs lines).map fun run => (Worker.answer tree budget run).1 :=
      List.map_congr_left fun run member => by rw [stays more member]
    rw [sameBlocks]
    apply Worker.serve_eq
    intro run member
    rw [stays more member]
    exact complete run member

namespace Worker

def sampleRuns : List (String × String × String) :=
  ["procedure Main() \x7b PutStone(Red) \x7d", "procedure Main() \x7b TakeStone(Red) \x7d",
    "procedure Main() \x7b"].map fun source => ("main.gbs", source, (Board.blank 1 1).toText)

def sampleLines : List (Except FileFault String) :=
  .ok " " :: sampleRuns.map (fun run => .ok (Message.start run.1 run.2.1 run.2.2).encode) ++
    [.ok Message.exit.encode, .ok "?"]

theorem ofLine_blank : Request.ofLine (.ok " ") = .blank := by decide

theorem runs_sampleLines : runs sampleLines = sampleRuns := by
  simp only [sampleLines, sampleRuns, map_cons, map_nil, cons_append,
    nil_append, runs_cons, ofLine_blank, Request.ofLine_start, Request.ofLine_exit]

theorem last?_sampleLines : last? sampleLines = some .exit := by
  simp only [sampleLines, sampleRuns, map_cons, map_nil, cons_append,
    nil_append, last?_cons, ofLine_blank, Request.ofLine_start, Request.ofLine_exit]

theorem answer_sampleRuns : ∀ run ∈ sampleRuns, (answer .empty 20 run).2 = true := by
  decide +kernel

end Worker

theorem worker_answers_sampleLines :
    Worker.runs Worker.sampleLines = Worker.sampleRuns ∧
      (∀ run ∈ Worker.sampleRuns, (Worker.answer .empty 20 run).2 = true) ∧
      ∃ enough blocks,
        List.Forall₂ (fun _ block => Worker.IsBlock block) Worker.sampleRuns blocks ∧
        ∀ budget ≥ enough, Worker.serve .empty budget Worker.sampleLines =
          (blocks.flatten, .stopped) := by
  have complete : ∀ run ∈ Worker.runs Worker.sampleLines,
      (Worker.answer .empty 20 run).2 = true := Worker.runs_sampleLines ▸ Worker.answer_sampleRuns
  obtain ⟨enough, blocks, related, served⟩ :=
    worker_answers_in_blocks .empty fun run member => ⟨20, complete run member⟩
  rw [Worker.runs_sampleLines] at related
  refine ⟨Worker.runs_sampleLines, Worker.answer_sampleRuns, enough, blocks,
    related.imp fun _ _ both => both.1, fun budget more => ?_⟩
  obtain ⟨messages, stops, -⟩ := served budget more
  refine Prod.ext messages (stops.mpr ?_)
  rw [Worker.last?_sampleLines]
  decide

end StoneBoard
