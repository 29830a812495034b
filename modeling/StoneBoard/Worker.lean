import StoneBoard.Board.Text
import StoneBoard.Message.Description
import StoneBoard.Run
import StoneBoard.Text.Stream

/-!
# Workers

To each request for a run a worker replies with a log message for every stage that begins, and
then with the outcome.  It stops at a request to exit, at the end of its input, and at anything
that is no request.
-/

namespace StoneBoard

namespace Worker

inductive Ending where
  | stopped
  | failed (error : Error)
  | busy

def failure (error : Error) : Message := .fail error.report

def outcome? : RunEnd → Option Message
  | .completed result scene => some (.ok scene.board.toText result)
  | .failed error => some (failure error)
  | .unfinished => none

def replies (tree : FileTree) (budget : Nat) (filename source board : String) :
    List Message × Bool :=
  match Board.ofText board with
  | .error fault => ([failure (.ofCause (.boardFormat fault.message))], true)
  | .ok board =>
      let job : Job :=
        { catalogue := .besides tree filename, file := filename, source, board,
          typecheck := true }
      let (stages, ending) := job.run Job.permitAll budget
      let logs := stages.map fun stage => Message.log stage.text
      match outcome? ending with
      | some message => (logs ++ [message], true)
      | none => (logs, false)

inductive Reaction where
  | ignore
  | stop
  | refuse (error : Error)
  | reply (messages : List Message) (complete : Bool)

def react (tree : FileTree) (budget : Nat) : Except FileFault String → Reaction
  | .error fault =>
      .refuse (.ofCause (.io s!"cannot read from caller: {fault.message}"))
  | .ok line =>
      if (Text.trim line).isEmpty then .ignore
      else
        match Message.decode line with
        | .error error => .refuse error
        | .ok .exit => .stop
        | .ok (.start filename source board) =>
            let (messages, complete) := replies tree budget filename source board
            .reply messages complete
        | .ok other =>
            let complaint := s!"unexpected message from caller: {other.describe}"
            .refuse (.ofCause (.protocol complaint))

def serve (tree : FileTree) (budget : Nat) :
    List (Except FileFault String) → List Message × Ending
  | [] => ([], .stopped)
  | line :: rest =>
      match react tree budget line with
      | .ignore => serve tree budget rest
      | .stop => ([], .stopped)
      | .refuse error => ([], .failed error)
      | .reply messages false => (messages, .busy)
      | .reply messages true =>
          let (others, ending) := serve tree budget rest
          (messages ++ others, ending)

end Worker

end StoneBoard
