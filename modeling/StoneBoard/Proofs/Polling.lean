import Mathlib.Data.List.Induction
import StoneBoard.Caller

/-!
# Polling a run

What the caller of a worker sees, whatever the worker says and however its words arrive between
the calls of the caller.  A history lists what happens to a handle: something arrives, the worker
goes, the caller polls or gives up.  What is seen of the run is compared with what has arrived
in all: the log messages in front of the first message that is none, and what this one announces.
-/

namespace StoneBoard.Handle

open List

variable {outcome : Except Error Completion} {handle : Handle}

/-! ## Histories -/

inductive Event where
  | arrives (arrival : Except Error Message)
  | closes
  | polls
  | aborts

inductive Sight where
  | polled (answer : Poll)
  | aborted (error : Error)

namespace Sight

def isFinal : Sight → Bool
  | polled (.done _) => true
  | aborted _ => true
  | _ => false

def IsQuiet (sight : Sight) : Prop := sight = polled .pending ∨ sight = aborted .interrupted

def log? : Sight → Option String
  | polled (.log text) => some text
  | _ => none

def outcome? : Sight → Option (Except Error Completion)
  | polled (.done outcome) => some outcome
  | _ => none

end Sight

/-- The handle after an event, and what the caller sees of it.  Nothing arrives from a worker
that has gone. -/
def act (handle : Handle) : Event → List Sight × Handle
  | .arrives arrival => ([], if handle.closed then handle else handle.deliver arrival)
  | .closes => ([], handle.close)
  | .polls => ([.polled handle.poll.1], handle.poll.2)
  | .aborts => ([.aborted handle.abort.1], handle.abort.2)

def proceed (history : List Sight × Handle) (event : Event) : List Sight × Handle :=
  (history.1 ++ (history.2.act event).1, (history.2.act event).2)

def watch (events : List Event) : List Sight × Handle := events.foldl proceed ([], start)

theorem watch_snoc (events : List Event) (event : Event) :
    watch (events ++ [event]) = proceed (watch events) event := by
  rw [watch, foldl_append, foldl_cons, foldl_nil, watch]

def sights (events : List Event) : List Sight := (watch events).1

def logs (events : List Event) : List String := (sights events).filterMap Sight.log?

def outcomes (events : List Event) : List (Except Error Completion) :=
  (sights events).filterMap Sight.outcome?

/-! ## What arrives -/

def arrived : List Event → List (Except Error Message)
  | [] | .closes :: _ => []
  | .arrives arrival :: later => arrival :: arrived later
  | .polls :: later | .aborts :: later => arrived later

def goes : List Event → Bool
  | [] => false
  | .closes :: _ => true
  | .arrives _ :: later | .polls :: later | .aborts :: later => goes later

/-- The log messages in front of the first message that is none. -/
def leadingLogs : List (Except Error Message) → List String
  | .ok (.log text) :: later => text :: leadingLogs later
  | _ => []

def announced? : List (Except Error Message) → Option (Except Error Completion)
  | [] => none
  | .ok (.log _) :: later => announced? later
  | .ok message :: _ => some (outcomeOf message)
  | .error error :: _ => some (.error error)

def verdict? (events : List Event) : Option (Except Error Completion) :=
  (announced? (arrived events)).or (if goes events then some (.error abandoned) else none)

theorem arrived_append (events later : List Event) : arrived (events ++ later) =
      if goes events then arrived events else arrived events ++ arrived later := by
  induction events with
  | nil => rfl
  | cons first rest ih =>
    cases first with
    | closes => rfl
    | arrives arrival =>
      change arrival :: arrived (rest ++ later) =
        if goes rest then arrival :: arrived rest else arrival :: (arrived rest ++ arrived later)
      rw [ih]
      exact apply_ite (arrival :: ·) _ _ _
    | polls | aborts => exact ih

theorem goes_append (events later : List Event) :
    goes (events ++ later) = (goes events || goes later) := by
  induction events with
  | nil => rfl
  | cons first rest ih =>
    cases first with
    | closes => rfl
    | arrives | polls | aborts => exact ih

def logArrival (text : String) : Except Error Message := .ok (.log text)

theorem leadingLogs_append (texts : List String) (later : List (Except Error Message)) :
    leadingLogs (texts.map logArrival ++ later) = texts ++ leadingLogs later := by
  induction texts with
  | nil => rfl
  | cons first rest ih =>
    rw [map_cons, cons_append, logArrival, leadingLogs, ih, cons_append]

theorem announced?_append (texts : List String) (later : List (Except Error Message)) :
    announced? (texts.map logArrival ++ later) = announced? later := by
  induction texts with
  | nil => rfl
  | cons first rest ih => rw [map_cons, cons_append, logArrival, announced?, ih]

/-- What is announced stays so, and so do the log messages in front of it. -/
theorem announced?_mono {arrivals : List (Except Error Message)}
    (known : announced? arrivals = some outcome) (later : List (Except Error Message)) :
    announced? (arrivals ++ later) = some outcome ∧
      leadingLogs (arrivals ++ later) = leadingLogs arrivals := by
  fun_induction announced? arrivals with
  | case1 => cases known
  | case2 text rest ih =>
    obtain ⟨same, sameLogs⟩ := ih known
    exact ⟨same, congrArg (text :: ·) sameLogs⟩
  | case3 msg rest isOther =>
    rw [cons_append]
    cases msg with
    | log text => exact absurd rfl (isOther text)
    | _ => exact ⟨known, rfl⟩
  | case4 error rest => exact ⟨known, rfl⟩

theorem leadingLogs_isPrefix (arrivals later : List (Except Error Message)) :
    leadingLogs arrivals <+: leadingLogs (arrivals ++ later) := by
  fun_induction leadingLogs arrivals with
  | case1 text rest ih => exact (prefix_cons_inj text).mpr ih
  | case2 => exact nil_prefix

theorem leadingLogs_arrived_isPrefix (events later : List Event) :
    leadingLogs (arrived events) <+: leadingLogs (arrived (events ++ later)) := by
  by_cases gone : goes events
  · exact ⟨[], by rw [append_nil, arrived_append, if_pos gone]⟩
  · rw [arrived_append, if_neg gone]
    exact leadingLogs_isPrefix _ _

/-- A known outcome does not change, whatever happens later. -/
theorem verdict?_mono {events : List Event} (known : verdict? events = some outcome)
    (later : List Event) : verdict? (events ++ later) = some outcome ∧
      leadingLogs (arrived (events ++ later)) = leadingLogs (arrived events) := by
  rw [verdict?] at known ⊢
  rw [arrived_append, goes_append]
  by_cases gone : goes events
  · rw [if_pos gone] at known ⊢
    exact ⟨by rw [gone]; exact known, rfl⟩
  · rw [if_neg gone, Option.or_none] at known
    rw [if_neg gone]
    obtain ⟨announced, sameLogs⟩ := announced?_mono known (arrived later)
    exact ⟨by rw [announced]; rfl, sameLogs⟩

/-! ## One event -/

theorem poll_cases (unfinished : handle.finished = false) :
    (∃ text rest, handle.inbox = logArrival text :: rest ∧
      handle.poll = (.log text, { handle with inbox := rest })) ∨
    (∃ outcome rest, leadingLogs handle.inbox = [] ∧
      (announced? handle.inbox).or (if handle.closed then some (.error abandoned) else none) =
        some outcome ∧
      handle.poll = (.done outcome, { handle with inbox := rest, finished := true })) ∨
    (handle.inbox = [] ∧ handle.closed = false ∧ handle.poll = (.pending, handle)) := by
  obtain ⟨inbox, closed, finished⟩ := handle
  obtain rfl : finished = false := unfinished
  cases inbox with
  | nil =>
    cases closed with
    | true => exact .inr (.inl ⟨_, [], rfl, rfl, rfl⟩)
    | false => exact .inr (.inr ⟨rfl, rfl, rfl⟩)
  | cons arrival rest =>
    cases arrival with
    | error error => exact .inr (.inl ⟨_, rest, rfl, rfl, rfl⟩)
    | ok msg =>
      cases msg with
      | log text => exact .inl ⟨text, rest, rfl, rfl⟩
      | _ => exact .inr (.inl ⟨_, rest, rfl, rfl, rfl⟩)

theorem poll_of_finished (finished : handle.finished = true) :
    handle.poll = (.pending, handle) := by
  rw [poll, if_pos finished]

/-- What is known of a handle after a history. -/
structure Follows (events : List Event) (handle : Handle) : Prop where
  closed : handle.closed = goes events
  finished : handle.finished = (sights events).any Sight.isFinal
  /-- until the run is over, just the log messages have been taken from what has arrived -/
  unread : handle.finished = false → arrived events = (logs events).map logArrival ++ handle.inbox
  inOrder : logs events <+: leadingLogs (arrived events)
  settled : outcomes events = [] ∨ ∃ outcome, outcomes events = [outcome] ∧
    verdict? events = some outcome ∧ logs events = leadingLogs (arrived events)

section Step

variable {events : List Event} {event : Event} {seen : List Sight} {sight : Sight}

theorem logs_snoc (isSeen : sights (events ++ [event]) = sights events ++ seen) :
    logs (events ++ [event]) = logs events ++ seen.filterMap Sight.log? := by
  rw [logs, isSeen, filterMap_append, logs]

theorem outcomes_snoc (isSeen : sights (events ++ [event]) = sights events ++ seen) :
    outcomes (events ++ [event]) = outcomes events ++ seen.filterMap Sight.outcome? := by
  rw [outcomes, isSeen, filterMap_append, outcomes]

theorem outcomes_eq_nil (unfinished : (sights events).any Sight.isFinal = false) :
    outcomes events = [] := by
  rw [outcomes, filterMap_eq_nil_iff]
  intro sight mem
  have notFinal := List.any_eq_false.mp unfinished sight mem
  cases sight with
  | aborted => rfl
  | polled answer =>
    cases answer with
    | done => exact absurd rfl notFinal
    | pending | log => rfl

variable {handle : Handle}

/-- An event of which no log message and no outcome is seen. -/
theorem Follows.of_quiet (before : Follows events handle) {next : Handle}
    (isSeen : sights (events ++ [event]) = sights events ++ seen)
    (noLog : seen.filterMap Sight.log? = []) (noOutcome : seen.filterMap Sight.outcome? = [])
    (closed : next.closed = goes (events ++ [event]))
    (finished : next.finished = (handle.finished || seen.any Sight.isFinal))
    (unread : next.finished = false → handle.finished = false →
      arrived events = (logs events).map logArrival ++ handle.inbox →
      arrived (events ++ [event]) = (logs events).map logArrival ++ next.inbox) :
    Follows (events ++ [event]) next := by
  have sameLogs : logs (events ++ [event]) = logs events := by
    rw [logs_snoc isSeen, noLog, append_nil]
  have sameOutcomes : outcomes (events ++ [event]) = outcomes events := by
    rw [outcomes_snoc isSeen, noOutcome, append_nil]
  refine ⟨closed, ?_, ?_, ?_, ?_⟩
  · rw [finished, before.finished, isSeen, any_append]
  · intro unfinished
    have unfinishedBefore : handle.finished = false := by
      rw [finished, Bool.or_eq_false_iff] at unfinished
      exact unfinished.1
    rw [sameLogs]
    exact unread unfinished unfinishedBefore (before.unread unfinishedBefore)
  · rw [sameLogs]
    exact before.inOrder.trans (leadingLogs_arrived_isPrefix events [event])
  · rw [sameLogs, sameOutcomes]
    rcases before.settled with none | ⟨outcome, isOutcome, known, allLogs⟩
    · exact .inl none
    · obtain ⟨stillKnown, stillAll⟩ := verdict?_mono known [event]
      exact .inr ⟨outcome, isOutcome, stillKnown, allLogs.trans stillAll.symm⟩

theorem arrived_snoc_polls : arrived (events ++ [.polls]) = arrived events := by
  rw [arrived_append, arrived, arrived, append_nil, ite_self]

theorem Follows.polls (before : Follows events handle)
    (isSeen : sights (events ++ [.polls]) = sights events ++ [.polled handle.poll.1]) :
    Follows (events ++ [.polls]) handle.poll.2 := by
  have sameGoes : goes (events ++ [.polls]) = goes events := by
    rw [goes_append, goes, goes, Bool.or_false]
  have sameVerdict : verdict? (events ++ [.polls]) = verdict? events := by
    rw [verdict?, verdict?, arrived_snoc_polls, sameGoes]
  by_cases finished : handle.finished = true
  · rw [poll_of_finished finished] at isSeen ⊢
    refine before.of_quiet isSeen rfl rfl ?_ ?_ ?_
    · rw [before.closed, sameGoes]
    · exact (Bool.or_false _).symm
    · intro unfinished
      exact absurd finished (by rw [unfinished]; decide)
  · have unfinished := Bool.eq_false_iff.mpr finished
    have unread := before.unread unfinished
    have noOutcome : outcomes events = [] := outcomes_eq_nil (before.finished ▸ unfinished)
    rcases poll_cases unfinished with
      ⟨text, rest, inbox, polled⟩ | ⟨outcome, rest, noLogs, known, polled⟩ | ⟨inbox, open_, polled⟩
    · -- a log message moves from the inbox to what has been seen
      rw [polled] at isSeen ⊢
      have newLogs : logs (events ++ [.polls]) = logs events ++ [text] := logs_snoc isSeen
      have allArrived : arrived (events ++ [.polls]) =
          (logs (events ++ [.polls])).map logArrival ++ rest := by
        rw [arrived_snoc_polls, unread, inbox, newLogs, map_append, append_assoc]
        rfl
      refine ⟨by rw [before.closed, sameGoes], ?_, fun _ => allArrived, ?_, .inl ?_⟩
      · rw [isSeen, any_append, ← before.finished]
        exact (Bool.or_false _).symm
      · rw [allArrived, leadingLogs_append]
        exact prefix_append _ _
      · rw [outcomes_snoc isSeen, noOutcome]
        rfl
    · -- the outcome is seen, after all log messages in front of it
      rw [polled] at isSeen ⊢
      have sameLogs : logs (events ++ [.polls]) = logs events :=
        (logs_snoc isSeen).trans (append_nil _)
      have allLogs : leadingLogs (arrived events) = logs events := by
        rw [unread, leadingLogs_append, noLogs, append_nil]
      refine ⟨by rw [before.closed, sameGoes], ?_, by rintro ⟨⟩, ?_, .inr ⟨outcome, ?_, ?_, ?_⟩⟩
      · rw [isSeen, any_append]
        exact (Bool.or_true _).symm
      · exact ⟨[], by rw [append_nil, sameLogs, arrived_snoc_polls, allLogs]⟩
      · rw [outcomes_snoc isSeen, noOutcome]
        rfl
      · rw [sameVerdict, verdict?, unread, announced?_append, ← before.closed]
        exact known
      · rw [sameLogs, arrived_snoc_polls, allLogs]
    · rw [polled] at isSeen ⊢
      refine before.of_quiet isSeen rfl rfl ?_ ?_ ?_
      · rw [before.closed, sameGoes]
      · exact (Bool.or_false _).symm
      · intro _ _ allArrived
        rw [arrived_snoc_polls, allArrived]

theorem Follows.act (before : Follows events handle)
    (isSeen : sights (events ++ [event]) = sights events ++ (handle.act event).1) :
    Follows (events ++ [event]) (handle.act event).2 := by
  cases event with
  | polls => exact before.polls isSeen
  | aborts =>
    refine before.of_quiet isSeen rfl rfl ?_ ?_ ?_
    · rw [goes_append, goes, goes, Bool.or_false]
      exact before.closed
    · exact (Bool.or_true _).symm
    · rintro ⟨⟩
  | closes =>
    refine before.of_quiet isSeen rfl rfl ?_ ?_ ?_
    · rw [goes_append, goes, Bool.or_true]
      rfl
    · exact (Bool.or_false _).symm
    · intro _ _ allArrived
      rw [arrived_append, arrived, append_nil, ite_self]
      exact allArrived
  | arrives arrival =>
    have goesOn : goes (events ++ [.arrives arrival]) = goes events := by
      rw [goes_append, goes, goes, Bool.or_false]
    by_cases gone : handle.closed = true
    · have same : (handle.act (.arrives arrival)).2 = handle := if_pos gone
      rw [same]
      refine before.of_quiet isSeen rfl rfl ?_ ?_ ?_
      · rw [before.closed, goesOn]
      · exact (Bool.or_false _).symm
      · intro _ _ allArrived
        rw [arrived_append, ← before.closed, if_pos gone, allArrived]
    · have delivered : (handle.act (.arrives arrival)).2 = handle.deliver arrival := if_neg gone
      rw [delivered]
      refine before.of_quiet isSeen rfl rfl ?_ ?_ ?_
      · rw [goesOn]
        exact before.closed
      · exact (Bool.or_false _).symm
      · intro _ _ allArrived
        rw [arrived_append, ← before.closed, if_neg gone, allArrived, append_assoc]
        rfl

end Step

/-! ## Whole histories -/

theorem sights_snoc (events : List Event) (event : Event) :
    sights (events ++ [event]) = sights events ++ ((watch events).2.act event).1 := by
  rw [sights, watch_snoc, proceed, sights]

theorem follows_watch (events : List Event) : Follows events (watch events).2 := by
  induction events using List.reverseRecOn with
  | nil => exact ⟨rfl, rfl, fun _ => rfl, prefix_rfl, .inl rfl⟩
  | append_singleton before event ih =>
    have after := ih.act (sights_snoc before event)
    rw [watch_snoc]
    exact after

/-- What a poll has to answer after a history: the next log message, the outcome when all of them
have been seen, and nothing once the run is over. -/
def answer (events : List Event) : Poll :=
  if (sights events).any Sight.isFinal then .pending
  else
    match (leadingLogs (arrived events))[(logs events).length]?, verdict? events with
    | some text, _ => .log text
    | none, some outcome => .done outcome
    | none, none => .pending

theorem sights_polls (events : List Event) :
    sights (events ++ [.polls]) = sights events ++ [.polled (answer events)] := by
  have known := follows_watch events
  rw [sights_snoc, act, answer, ← known.finished, verdict?, ← known.closed]
  generalize (watch events).2 = handle at known ⊢
  by_cases finished : handle.finished = true
  · rw [poll_of_finished finished, if_pos finished]
  · have unfinished := Bool.eq_false_iff.mpr finished
    have unread := known.unread unfinished
    rw [if_neg finished, unread, leadingLogs_append, announced?_append,
      getElem?_append_right (Nat.le_refl _), Nat.sub_self]
    rcases poll_cases unfinished with
      ⟨text, rest, inbox, polled⟩ | ⟨outcome, rest, noLogs, known, polled⟩ | ⟨inbox, open_, polled⟩
    · rw [polled, inbox]
      rfl
    · rw [polled, noLogs, known]
      rfl
    · rw [polled, inbox, open_]
      rfl

theorem quiet_of_finished (before later : List Event)
    (finished : (sights before).any Sight.isFinal = true) :
    ∃ seen, sights (before ++ later) = sights before ++ seen ∧
      ∀ sight ∈ seen, sight.IsQuiet := by
  induction later using List.reverseRecOn with
  | nil => exact ⟨[], by rw [append_nil, append_nil], forall_mem_nil _⟩
  | append_singleton middle event ih =>
    obtain ⟨seen, isSeen, quiet⟩ := ih
    have known := follows_watch (before ++ middle)
    have stillFinished : (watch (before ++ middle)).2.finished = true := by
      rw [known.finished, isSeen, any_append, finished, Bool.true_or]
    refine ⟨seen ++ ((watch (before ++ middle)).2.act event).1, ?_, ?_⟩
    · rw [← append_assoc, sights_snoc, isSeen, append_assoc]
    · refine List.forall_mem_append.mpr ⟨quiet, ?_⟩
      cases event with
      | arrives | closes => exact forall_mem_nil _
      | polls =>
        rw [act, poll_of_finished stillFinished]
        exact List.forall_mem_singleton.mpr (.inl rfl)
      | aborts => exact List.forall_mem_singleton.mpr (.inr rfl)

theorem eq_interrupted_of_mem (events : List Event) (error : Error)
    (mem : .aborted error ∈ sights events) : error = .interrupted := by
  induction events using List.reverseRecOn with
  | nil => cases mem
  | append_singleton before event ih =>
    rw [sights_snoc, mem_append] at mem
    rcases mem with earlier | now
    · exact ih earlier
    · cases event with
      | arrives | closes => cases now
      | polls => cases List.mem_singleton.mp now
      | aborts =>
        cases List.mem_singleton.mp now
        rfl

/-- However arrivals, polls and giving up follow one another, at most one outcome is seen, and it
is what the first message announces that is no log message, or that the worker has gone without
one.  Before that the log messages in front of this message are seen, each once and in order.
Afterwards nothing is seen, and whoever gives up before hears of nothing but that. -/
theorem polling_is_safe (events : List Event) :
    (outcomes events).length ≤ 1 ∧
    logs events <+: leadingLogs (arrived events) ∧
    (∀ outcome ∈ outcomes events,
      verdict? events = some outcome ∧ logs events = leadingLogs (arrived events)) ∧
    (∀ before later, events = before ++ .polls :: later →
      sights (before ++ [.polls]) = sights before ++ [.polled (answer before)]) ∧
    (∀ before later, events = before ++ later → (sights before).any Sight.isFinal = true →
      ∃ seen, sights events = sights before ++ seen ∧ ∀ sight ∈ seen, sight.IsQuiet) ∧
    (∀ before later, events = before ++ .aborts :: later → outcomes before = [] →
      outcomes events = [] ∧ .aborted .interrupted ∈ sights events) ∧
    (∀ error, .aborted error ∈ sights events → error = .interrupted) := by
  have known := follows_watch events
  refine ⟨?_, known.inOrder, ?_, fun before _ _ => sights_polls before, ?_, ?_, ?_⟩
  · rcases known.settled with none | ⟨outcome, isOutcome, -⟩
    · rw [none]
      exact Nat.zero_le 1
    · rw [isOutcome]
      exact Nat.le_refl 1
  · intro outcome member
    rcases known.settled with none | ⟨only, isOutcome, isVerdict, allLogs⟩
    · rw [none] at member
      cases member
    · rw [isOutcome, List.mem_singleton] at member
      rw [member]
      exact ⟨isVerdict, allLogs⟩
  · rintro before later rfl finished
    exact quiet_of_finished before later finished
  · rintro before later rfl noOutcome
    have aborted : sights (before ++ [.aborts]) = sights before ++ [.aborted .interrupted] :=
      sights_snoc before .aborts
    have finished : (sights (before ++ [.aborts])).any Sight.isFinal = true := by
      simp [aborted, Sight.isFinal]
    obtain ⟨seen, isSeen, quiet⟩ := quiet_of_finished (before ++ [.aborts]) later finished
    rw [List.append_assoc, List.singleton_append, aborted] at isSeen
    constructor
    · have quietly : seen.filterMap Sight.outcome? = [] := by
        rw [List.filterMap_eq_nil_iff]
        intro sight member
        rcases quiet sight member with rfl | rfl <;> rfl
      rw [outcomes, isSeen, List.filterMap_append, List.filterMap_append, quietly, ← outcomes,
        noOutcome]
      rfl
    · rw [isSeen]
      simp
  · exact fun error => eq_interrupted_of_mem events error

end StoneBoard.Handle
