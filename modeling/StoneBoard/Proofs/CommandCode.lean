import StoneBoard.Proofs.ExpressionCode
import StoneBoard.Proofs.Lines

/-!
# The code of commands

The code of a command follows its execution and leaves the stack as it was.  Loops and
cases keep a value in a hidden variable.  Its number is taken when the command is compiled,
so that the commands inside, which take later numbers, leave it alone.
-/

namespace StoneBoard

open Machine Compilation List

variable {name : String} {less : Nat} {after : Bindings}
variable {first second entries : Bindings}

/-! ## Hidden variables -/

theorem isLetter_underscore : Text.isLetter '_' = false := by decide

theorem IsIdentifier.head?_ne {name : String} (isIdentifier : IsIdentifier name) :
    name.toList.head? ≠ some '_' := by
  obtain ⟨first, rest, chars, isLetter, -⟩ := isIdentifier
  rw [chars, head?_cons]
  rintro ⟨⟩
  rw [isLetter_underscore] at isLetter
  cases isLetter

namespace Compilation.Counters

theorem hiddenName_toList (counters : Counters) :
    counters.hiddenName.toList = "_tempvar".toList ++ Nat.toDigits 10 counters.hidden := by
  simp [hiddenName, toString, Nat.toList_repr]

theorem hidden_eq_of_hiddenName_eq {first second : Counters}
    (same : first.hiddenName = second.hiddenName) : first.hidden = second.hidden := by
  have sameCharacters := congrArg String.toList same
  rw [hiddenName_toList, hiddenName_toList, append_right_inj] at sameCharacters
  have sameNumber := congrArg (Nat.ofDigitChars 10 · 0) sameCharacters
  simpa [Nat.ofDigitChars_toDigits] using sameNumber

theorem hiddenName_ne (named : IsIdentifier name) (counters : Counters) :
    counters.hiddenName ≠ name := by
  rintro rfl
  exact named.head?_ne (by rw [hiddenName_toList]; rfl)

end Compilation.Counters

/-- The hidden variables with numbers below a limit are as they were. -/
def Keeps (limit : Nat) (before after : Bindings) : Prop :=
  ∀ counters : Counters, counters.hidden < limit →
    Table.get? after counters.hiddenName = Table.get? before counters.hiddenName

namespace Keeps

variable {limit : Nat} {held : Bindings}

theorem refl (limit : Nat) (held : Bindings) : Keeps limit held held := fun _ _ => rfl

theorem trans {third : Bindings} (early : Keeps limit first second)
    (late : Keeps limit second third) : Keeps limit first third :=
  fun counters below => (late counters below).trans (early counters below)

theorem mono {before : Bindings} (keeps : Keeps limit before after) (le : less ≤ limit) :
    Keeps less before after :=
  fun counters below => keeps counters (Nat.lt_of_lt_of_le below le)

theorem insert (named : IsIdentifier name) (value : Value) :
    Keeps limit held (Table.insert held name value) := by
  intro counters _
  rw [Table.get?_insert, if_neg (counters.hiddenName_ne named)]

theorem erase (named : IsIdentifier name) : Keeps limit held (Table.erase held name) := by
  intro counters _
  rw [Table.get?_erase, if_neg (counters.hiddenName_ne named)]

theorem insertAll (named : ∀ entry ∈ entries, IsIdentifier entry.1) :
    Keeps limit held (Table.insertAll held entries) := by
  induction entries generalizing held with
  | nil => exact .refl _ _
  | cons entry rest ih =>
    have first := named entry mem_cons_self
    have others := fun other mem => named other (mem_cons_of_mem _ mem)
    exact (Keeps.insert first entry.2).trans (ih others)

/-- A new hidden variable has a number that is not below its own. -/
theorem insert_hidden (counters : Counters) (value : Value) :
    Keeps counters.hidden held (Table.insert held counters.hiddenName value) := by
  intro other below
  have differ : other.hiddenName ≠ counters.hiddenName := by
    intro same
    have sameNumber := Counters.hidden_eq_of_hiddenName_eq same
    omega
  rw [Table.get?_insert, if_neg differ]

end Keeps

namespace Agrees

variable {locals held : Bindings}

theorem refl (locals : Bindings) : Agrees locals locals := fun _ _ => rfl

theorem insert (agrees : Agrees locals held) (name : String) (value : Value) :
    Agrees (Table.insert locals name value) (Table.insert held name value) := by
  intro other named
  rw [Table.get?_insert, Table.get?_insert, agrees other named]

theorem erase (agrees : Agrees locals held) (name : String) :
    Agrees (Table.erase locals name) (Table.erase held name) := by
  intro other named
  rw [Table.get?_erase, Table.get?_erase, agrees other named]

theorem insert_hidden (agrees : Agrees locals held) (counters : Counters) (value : Value) :
    Agrees locals (Table.insert held counters.hiddenName value) := by
  intro name named
  rw [Table.get?_insert, if_neg (counters.hiddenName_ne named).symm, agrees name named]

theorem insertAll_reverse (agrees : Agrees locals held) (differ : (entries.map Prod.fst).Nodup) :
    Agrees (Table.insertAll locals entries) (Table.insertAll held entries.reverse) := by
  intro name named
  rw [Table.get?_insertAll, Table.get?_insertAll, reverse_reverse,
    Table.get?_reverse differ, agrees name named]

end Agrees

/-! ## Single commands -/

namespace Context

variable {ctx : Context} {base : Machine} {offset start stop : Nat} {span : Span}
variable {hidden fuel label target more other again done : Nat} {stack : Stack} {held : Bindings}
  {scene : Scene} {execution body : Bindings → Evaluation Bindings}
  {cond : Bindings → Evaluation Value} {index : String} {counters : Counters}
variable {jumpBack count : Nat} {bound : Value} {indexType : Option BasicTy}

def Arrives (base : Machine) (stop hidden : Nat) (stack : Stack) (before : Bindings)
    (after : Bindings) (last : Machine) : Prop :=
  ∃ holds, last = base.resume stop holds stack last.scene ∧ Agrees after holds ∧
    Keeps hidden before holds

/-- The code between two places does what an execution does, and leaves the hidden
variables with numbers below `hidden` alone. -/
def Executes (context : Context) (base : Machine) (start stop hidden : Nat)
    (execution : Bindings → Evaluation Bindings) : Prop :=
  ∀ locals held stack scene, Agrees locals held →
    Follows context.maxDepth base.callers.length context.fuel
      (base.resume start held stack scene) (execution locals)
      (Arrives base stop hidden stack held)

theorem Arrives.mono {last : Machine} (arrives : Arrives base stop hidden stack second after last)
    (keeps : Keeps less first second) (le : less ≤ hidden) :
    Arrives base stop less stack first after last := by
  obtain ⟨holds, there, agrees, kept⟩ := arrives
  exact ⟨holds, there, agrees, keeps.trans (kept.mono le)⟩

theorem follows_assign {α : Type} {eval : Evaluation α} {ends : α → Machine → Prop}
    {value : Value} (found : base.frame.routine.code[offset]? = some (.assign name, span))
    (follows : Follows ctx.maxDepth base.callers.length fuel
      (base.resume (offset + 1) (Table.insert held name value) stack scene) eval ends) :
    Follows ctx.maxDepth base.callers.length fuel
      (base.resume offset held (stack.push value) scene) eval ends :=
  follows.instruction (Nat.le_refl _) found rfl

theorem follows_jump {α : Type} {eval : Evaluation α} {ends : α → Machine → Prop}
    (found : base.frame.routine.code[offset]? = some (.jump label, span))
    (labelled : base.frame.routine.target? label = some target)
    (follows : Follows ctx.maxDepth base.callers.length fuel
      (base.resume target held stack scene) eval ends) :
    Follows ctx.maxDepth base.callers.length fuel (base.resume offset held stack scene) eval ends :=
  follows.instruction (Nat.le_refl _) found (jump_resume labelled)

theorem follows_label {α : Type} {eval : Evaluation α} {ends : α → Machine → Prop}
    (found : base.frame.routine.code[offset]? = some (.label label, span))
    (follows : Follows ctx.maxDepth base.callers.length fuel
      (base.resume (offset + 1) held stack scene) eval ends) :
    Follows ctx.maxDepth base.callers.length fuel (base.resume offset held stack scene) eval ends :=
  follows.instruction (Nat.le_refl _) found rfl

theorem executes_assign {value : Bindings → Evaluation Value} (named : IsIdentifier name)
    (valueCode : ctx.Computes base start offset value)
    (found : base.frame.routine.code[offset]? = some (.assign name, span)) :
    ctx.Executes base start (offset + 1) hidden (fun locals => do
        let value ← value locals
        return Table.insert locals name value) := by
  intro locals held stack scene agrees
  refine (valueCode locals held stack scene agrees).bind fun value last atAssign => ?_
  rw [atAssign]
  exact follows_assign found (.pure ⟨_, rfl, agrees.insert name value, .insert named value⟩)

theorem follows_assignments {α : Type} {eval : Evaluation α} {ends : α → Machine → Prop}
    (entries : Bindings) (code : base.frame.routine.HasCode offset
      (entries.map fun entry => (.assign entry.1, span)))
    (follows : Follows ctx.maxDepth base.callers.length fuel
      (base.resume (offset + entries.length) (Table.insertAll held entries) stack scene)
      eval ends) : Follows ctx.maxDepth base.callers.length fuel
      (base.resume offset held (stack.pushMany (entries.map Prod.snd).reverse) scene)
      eval ends := by
  induction entries generalizing offset held with
  | nil => exact follows
  | cons entry rest ih =>
    simp only [map_cons, Routine.hasCode_cons] at code
    simp only [map_cons, reverse_cons, Stack.pushMany_append, Stack.pushMany_cons,
      Stack.pushMany_nil]
    refine follows_assign code.1 (ih code.2 ?_)
    rw [Nat.add_right_comm, Nat.add_assoc]
    exact follows

theorem executes_tuple {names : List String} {values : Bindings → Evaluation (List Value)}
    (named : ∀ name ∈ names, IsIdentifier name) (differ : names.Nodup)
    (valuesCode : ctx.ComputesAll base start offset names.length values)
    (code : base.frame.routine.HasCode offset
      (names.reverse.map fun name => (.assign name, span))) :
    ctx.Executes base start (offset + names.length) hidden (fun locals => do
        let values ← values locals
        return Table.insertAll locals (names.zip values)) := by
  intro locals held stack scene agrees
  refine (valuesCode locals held stack scene agrees).bind ?_
  rintro values last ⟨counted, atAssign⟩
  obtain ⟨entries, rfl, rfl⟩ : ∃ entries : Bindings,
      entries.map Prod.fst = names ∧ entries.map Prod.snd = values :=
    ⟨names.zip values, map_fst_zip (Nat.le_of_eq counted.symm),
      map_snd_zip (Nat.le_of_eq counted)⟩
  have sameValues : entries.map Prod.snd = (entries.reverse.map Prod.snd).reverse := by simp
  have assignments : base.frame.routine.HasCode offset
      (entries.reverse.map fun entry => (.assign entry.1, span)) := by
    simpa [← map_reverse, Function.comp_def] using code
  rw [atAssign, sameValues]
  refine follows_assignments entries.reverse assignments
    (.pure ⟨Table.insertAll held entries.reverse, ?_, ?_, .insertAll ?_⟩)
  · simp
  · rw [← sameValues, ← zip_of_prod rfl rfl]
    exact agrees.insertAll_reverse differ
  · intro entry mem
    exact named entry.1 (mem_map_of_mem (List.mem_reverse.mp mem))

/-! ## Sequences, choices and loops -/

theorem Executes.seq {middle : Nat} {first second : Bindings → Evaluation Bindings}
    (early : ctx.Executes base start middle hidden first)
    (late : ctx.Executes base middle stop more second) (le : hidden ≤ more) :
    ctx.Executes base start stop hidden (fun locals => do
        let locals ← first locals
        second locals) := by
  intro locals held stack scene agrees
  refine (early locals held stack scene agrees).bind ?_
  rintro between last ⟨holds, atMiddle, agreesThere, keeps⟩
  rw [atMiddle]
  exact (late between holds stack _ agreesThere).weaken (Nat.le_refl _) (Nat.le_refl _)
    fun after final arrives => arrives.mono keeps le

theorem Executes.extend (executes : ctx.Executes base start stop hidden execution)
    (goesOn : ∀ held stack scene, (base.resume stop held stack scene).step ctx.maxDepth =
      .next (base.resume other held stack scene)) :
    ctx.Executes base start other hidden execution := by
  intro locals held stack scene agrees
  refine (executes locals held stack scene agrees).andThen ?_
  rintro after last ⟨holds, atStop, agreesThere, keeps⟩
  rw [atStop]
  exact .step (Nat.le_refl _) (goesOn holds stack _) rfl (.pure ⟨holds, rfl, agreesThere, keeps⟩)

theorem executes_choice {yes no : Bindings → Evaluation Bindings}
    (test : ctx.Computes base start offset cond)
    (found : base.frame.routine.code[offset]? = some (.jumpIfFalse label, span))
    (labelled : base.frame.routine.target? label = some target)
    (ifTrue : ctx.Executes base (offset + 1) stop hidden yes)
    (ifFalse : ctx.Executes base target stop hidden no) : ctx.Executes base start stop hidden
      (fun locals => do
        let value ← cond locals
        if ← Evaluation.truth value then yes locals else no locals) := by
  intro locals held stack scene agrees
  refine (test locals held stack scene agrees).bind fun value last atTest => ?_
  rw [atTest]
  exact follows_truth found labelled (ifTrue locals held stack _ agrees)
    (ifFalse locals held stack _ agrees)

/-- The rounds of a loop: the jump back pays for the fuel of a round. -/
theorem follows_while (test : ctx.Computes base start offset cond)
    (found : base.frame.routine.code[offset]? = some (.jumpIfFalse done, span))
    (toDone : base.frame.routine.target? done = some stop)
    (bodyCode : ctx.Executes base (offset + 1) jumpBack hidden body)
    (back : base.frame.routine.code[jumpBack]? = some (.jump again, span))
    (toStart : base.frame.routine.target? again = some start) (enough : fuel ≤ ctx.fuel)
    (locals held : Bindings) (stack : Stack) (scene : Scene) (agrees : Agrees locals held) :
    Follows ctx.maxDepth base.callers.length fuel (base.resume start held stack scene)
      (whileLoop (fun locals => do Evaluation.truth (← cond locals)) body fuel locals)
      (Arrives base stop hidden stack held) := by
  induction fuel generalizing locals held scene with
  | zero => exact .exhausted
  | succ fuel ih =>
    simp only [whileLoop, bind_assoc]
    refine ((test locals held stack scene agrees).weaken enough (Nat.le_refl _)
      fun _ _ there => there).bind fun value last atTest => ?_
    rw [atTest]
    refine follows_truth found toDone ?_ (.pure ⟨held, rfl, agrees, .refl _ _⟩)
    refine ((bodyCode locals held stack _ agrees).weaken enough (Nat.le_refl _)
      fun _ _ there => there).bind ?_
    rintro after final ⟨holds, atBack, agreesThere, keeps⟩
    rw [atBack]
    refine .stepPaid (Nat.le_refl _) ((step_resume back).trans (jump_resume toStart)) rfl ?_
    exact (ih (by omega) after holds final.scene agreesThere).weaken (Nat.le_refl _)
      (Nat.le_refl _) fun _ _ arrives => arrives.mono keeps (Nat.le_refl _)

theorem Fits.executes_while (fits : ctx.Fits base)
    (startLabel : base.frame.routine.code[start]? = some (.label again, span))
    (test : ctx.Computes base (start + 1) offset cond)
    (found : base.frame.routine.code[offset]? = some (.jumpIfFalse done, span))
    (bodyCode : ctx.Executes base (offset + 1) jumpBack hidden body)
    (back : base.frame.routine.code[jumpBack]? = some (.jump again, span))
    (doneLabel : base.frame.routine.code[jumpBack + 1]? = some (.label done, span)) :
    ctx.Executes base start (jumpBack + 2) hidden fun locals =>
      whileLoop (fun locals => do Evaluation.truth (← cond locals)) body ctx.fuel
        locals := by
  have toStart := fits.placed _ _ _ startLabel
  have toDone := fits.placed _ _ _ doneLabel
  intro locals held stack scene agrees
  exact follows_label startLabel (follows_while test found toDone bodyCode back toStart
    (Nat.le_refl _) locals held stack scene agrees)

theorem Fits.follows_loopTest (fits : ctx.Fits base) {α : Type} {op : Operation}
    {limit : String} {current : Value} {next : Bool → Evaluation α} {ends : α → Machine → Prop}
    (arity : op.parameters.length = 2)
    (code : base.frame.routine.HasCode offset (loopTest index limit op.name done span))
    (toDone : base.frame.routine.target? done = some target)
    (atIndex : Table.get? held index = some current) (atLimit : Table.get? held limit = some bound)
    (ifTrue : ∀ scene, Follows ctx.maxDepth base.callers.length fuel
      (base.resume (offset + 4) held stack scene) (next true) ends)
    (ifFalse : ∀ scene, Follows ctx.maxDepth base.callers.length fuel
      (base.resume target held stack scene) (next false) ends) :
    Follows ctx.maxDepth base.callers.length fuel (base.resume offset held stack scene) (do
        let answer ← ctx.operate op none [current, bound]
        let truth ← Evaluation.truth answer
        next truth) ends := by
  simp only [loopTest, Routine.hasCode_cons] at code
  obtain ⟨pushIndex, pushLimit, comparison, test, -⟩ := code
  refine follows_push pushIndex atIndex (follows_push pushLimit atLimit ?_)
  refine (fits.follows_operate [current, bound] comparison arity).bind
    fun answer last atTest => ?_
  rw [atTest]
  exact follows_truth test toDone (ifTrue _) (ifFalse _)

theorem Fits.follows_repeat (fits : ctx.Fits base) (named : IsIdentifier index)
    (bodyCode : ctx.Executes base start offset more body) (below : counters.hidden < more)
    (testCode : base.frame.routine.HasCode offset
      (loopTest index counters.hiddenName Operation.notEqual.name done span))
    (advance : base.frame.routine.HasCode (offset + 4) (loopAdvance index indexType span))
    (back : base.frame.routine.code[offset + 7]? = some (.jump again, span))
    (toStart : base.frame.routine.target? again = some start)
    (toDone : base.frame.routine.target? done = some stop) (enough : fuel ≤ ctx.fuel)
    (locals held : Bindings) (stack : Stack) (scene : Scene) (agrees : Agrees locals held)
    (atLimit : Table.get? held counters.hiddenName = some bound) :
    Follows ctx.maxDepth base.callers.length fuel (base.resume start held stack scene)
      (ctx.repeatLoop index indexType bound body fuel locals)
      (Arrives base stop counters.hidden stack held) := by
  have test := testCode
  simp only [loopTest, Routine.hasCode_cons] at test
  simp only [loopAdvance, Routine.hasCode_cons, Routine.hasCode_nil, and_true] at advance
  induction fuel generalizing locals held scene with
  | zero => exact .exhausted
  | succ fuel ih =>
    simp only [repeatLoop]
    refine ((bodyCode locals held stack scene agrees).weaken enough (Nat.le_refl _)
      fun _ _ there => there).bind ?_
    rintro after last ⟨holds, atTest, agreesThere, keeps⟩
    -- the body leaves the limit alone: it only uses hidden variables of later loops
    have stillAtLimit := (keeps counters below).trans atLimit
    have keepsLess := keeps.mono (Nat.le_of_lt below)
    rw [atTest]
    cases known : Table.get? after index with
    | none =>
      have unset : Table.get? holds index = none := (agreesThere index named).trans known
      have read : Evaluation.variableValue after index =
          throw (.uninitializedVariable index) := by
        simp only [Evaluation.variableValue, known]
      rw [read]
      exact (follows_unset test.1 unset).bind fun _ _ (impossible : False) => impossible.elim
    | some current =>
      have atIndex : Table.get? holds index = some current := (agreesThere index named).trans known
      have read : Evaluation.variableValue after index = pure current := by
        simp only [Evaluation.variableValue, known]
      rw [read, pure_bind]
      refine fits.follows_loopTest rfl testCode toDone atIndex stillAtLimit
        (fun scene => ?_) (fun scene => .pure ⟨holds, rfl, agreesThere, keepsLess⟩)
      refine follows_push advance.1 atIndex ?_
      refine (fits.follows_operate [current] advance.2.1 rfl).bind fun next final atAssign => ?_
      rw [atAssign]
      refine follows_assign advance.2.2 ?_
      refine .stepPaid (Nat.le_refl _) ((step_resume back).trans (jump_resume toStart)) rfl ?_
      refine (ih (by omega) _ _ final.scene (agreesThere.insert index next) ?_).weaken
        (Nat.le_refl _) (Nat.le_refl _) fun _ _ arrives =>
          arrives.mono (keepsLess.trans (.insert named next)) (Nat.le_refl _)
      rw [Table.get?_insert, if_neg (counters.hiddenName_ne named), stillAtLimit]

theorem follows_delete {holds : Bindings} (named : IsIdentifier index)
    (found : base.frame.routine.code[offset]? = some (.deleteVariable index, span))
    (agrees : Agrees after holds) (keeps : Keeps hidden held holds) :
    Follows ctx.maxDepth base.callers.length fuel (base.resume offset holds stack scene)
      (pure (Table.erase after index)) (Arrives base (offset + 1) hidden stack held) :=
  .instruction (Nat.le_refl _) found rfl
    (.pure ⟨Table.erase holds index, rfl, agrees.erase index, keeps.trans (.erase named)⟩)

theorem Fits.executes_repeat (fits : ctx.Fits base) {first second : Nat}
    {lower upper : Bindings → Evaluation Value} (named : IsIdentifier index)
    (lowerCode : ctx.Computes base start first lower)
    (setIndex : base.frame.routine.code[first]? = some (.assign index, span))
    (upperCode : ctx.Computes base (first + 1) second upper)
    (setLimit : base.frame.routine.code[second]? = some (.assign counters.hiddenName, span))
    (rangeTest : base.frame.routine.HasCode (second + 1)
      (loopTest index counters.hiddenName Operation.lessEqual.name done span))
    (startLabel : base.frame.routine.code[second + 5]? = some (.label again, span))
    (bodyCode : ctx.Executes base (second + 6) offset more body)
    (below : counters.hidden < more) (endTest : base.frame.routine.HasCode offset
      (loopTest index counters.hiddenName Operation.notEqual.name done span))
    (advance : base.frame.routine.HasCode (offset + 4) (loopAdvance index indexType span))
    (back : base.frame.routine.code[offset + 7]? = some (.jump again, span))
    (doneLabel : base.frame.routine.code[offset + 8]? = some (.label done, span))
    (delete : base.frame.routine.code[offset + 9]? = some (.deleteVariable index, span)) :
    ctx.Executes base start (offset + 10) counters.hidden (fun locals => do
        let first ← lower locals
        let locals := Table.insert locals index first
        let limit ← upper locals
        let inRange ← ctx.operate .lessEqual none [first, limit]
        let locals ←
          if ← Evaluation.truth inRange then
            ctx.repeatLoop index indexType limit body ctx.fuel locals
          else pure locals
        return Table.erase locals index) := by
  have toStart := fits.placed _ _ _ startLabel
  have toDone := fits.placed _ _ _ doneLabel
  intro locals held stack scene agrees
  refine (lowerCode locals held stack scene agrees).bind fun low last atIndex => ?_
  rw [atIndex]
  refine follows_assign setIndex ?_
  have agreesIndex := agrees.insert index low
  refine (upperCode _ _ stack _ agreesIndex).bind fun bound last atLimit => ?_
  rw [atLimit]
  refine follows_assign setLimit ?_
  have agreesLimit := agreesIndex.insert_hidden counters bound
  have keeps : Keeps counters.hidden held
      (Table.insert (Table.insert held index low) counters.hiddenName bound) :=
    (Keeps.insert named low).trans (.insert_hidden counters bound)
  have holdsLimit : Table.get? (Table.insert (Table.insert held index low)
      counters.hiddenName bound) counters.hiddenName = some bound := by
    rw [Table.get?_insert, if_pos rfl]
  have holdsIndex : Table.get? (Table.insert (Table.insert held index low)
      counters.hiddenName bound) index = some low := by
    rw [Table.get?_insert, if_neg (counters.hiddenName_ne named).symm, Table.get?_insert,
      if_pos rfl]
  refine fits.follows_loopTest rfl rangeTest toDone holdsIndex holdsLimit (fun scene => ?_)
    (fun scene => ?_)
  · refine follows_label startLabel ?_
    refine (fits.follows_repeat named bodyCode below endTest advance back toStart toDone
      (Nat.le_refl _) _ _ stack scene agreesLimit holdsLimit).bind ?_
    rintro after final ⟨holds, atDelete, agreesThere, keepsThere⟩
    rw [atDelete]
    exact follows_delete named delete agreesThere (keeps.trans keepsThere)
  · simp only [Bool.false_eq_true, if_false, pure_bind]
    exact follows_delete named delete agreesLimit keeps

/-- The code between two places does what an execution does, as long as a hidden variable
has some value. -/
def ExecutesOn (context : Context) (base : Machine) (start stop : Nat) (counters : Counters)
    (subject : Value) (execution : Bindings → Evaluation Bindings) : Prop :=
  ∀ locals held stack scene, Agrees locals held →
    Table.get? held counters.hiddenName = some subject →
    Follows context.maxDepth base.callers.length context.fuel
      (base.resume start held stack scene) (execution locals)
      (Arrives base stop counters.hidden stack held)

theorem Fits.executesOn_branch (fits : ctx.Fits base) {subject : Value} {literals : List Value}
    {next : Nat} {others : Bindings → Evaluation Bindings} (test : base.frame.routine.HasCode start
      [(.pushVariable counters.hiddenName, span), (.jumpIfNotIn literals next, span)])
    (bodyCode : ctx.Executes base (start + 2) offset more body) (le : counters.hidden ≤ more)
    (ending : base.frame.routine.HasCode offset [(.jump done, span), (.label next, span)])
    (toDone : base.frame.routine.target? done = some stop)
    (othersCode : ctx.ExecutesOn base (offset + 2) stop counters subject others) :
    ctx.ExecutesOn base start stop counters subject fun locals =>
      if literals.contains subject then body locals else others locals := by
  simp only [Routine.hasCode_cons, Routine.hasCode_nil, and_true] at test ending
  obtain ⟨push, test⟩ := test
  obtain ⟨jump, nextLabel⟩ := ending
  have toNext := fits.placed _ _ _ nextLabel
  intro locals held stack scene agrees atSubject
  refine follows_push push atSubject ?_
  have stepped : (base.resume (start + 1) held (stack.push subject) scene).step
      ctx.maxDepth = if literals.contains subject then
        .next (base.resume (start + 1 + 1) held stack scene)
      else (base.resume (start + 1 + 1) held stack scene).jump next := step_resume test
  split
  next listed =>
    rw [if_pos listed] at stepped
    refine .step (Nat.le_refl _) stepped rfl ?_
    refine (bodyCode locals held stack scene agrees).andThen ?_
    rintro after last ⟨holds, atJump, agreesThere, keeps⟩
    rw [atJump]
    exact follows_jump jump toDone (.pure ⟨holds, rfl, agreesThere, keeps.mono le⟩)
  next differs =>
    rw [if_neg differs, jump_resume toNext] at stepped
    exact .step (Nat.le_refl _) stepped rfl (othersCode locals held stack scene agrees atSubject)

theorem executes_case {scrutinee : Bindings → Evaluation Value}
    {branches : Value → Bindings → Evaluation Bindings}
    (scrutineeCode : ctx.Computes base start offset scrutinee)
    (setSubject : base.frame.routine.code[offset]? = some (.assign counters.hiddenName, span))
    (branchesCode : ∀ subject,
      ctx.ExecutesOn base (offset + 1) stop counters subject (branches subject)) :
    ctx.Executes base start stop counters.hidden (fun locals => do
        let subject ← scrutinee locals
        branches subject locals) := by
  intro locals held stack scene agrees
  refine (scrutineeCode locals held stack scene agrees).bind fun subject last atAssign => ?_
  rw [atAssign]
  refine follows_assign setSubject ?_
  have holdsSubject : Table.get? (Table.insert held counters.hiddenName subject)
      counters.hiddenName = some subject := by
    rw [Table.get?_insert, if_pos rfl]
  exact (branchesCode subject locals _ stack _ (agrees.insert_hidden counters subject)
    holdsSubject).weaken (Nat.le_refl _) (Nat.le_refl _) fun _ _ arrives =>
      arrives.mono (.insert_hidden counters subject) (Nat.le_refl _)

/-! ## All commands -/

theorem Executes.mono (executes : ctx.Executes base start stop hidden execution)
    (le : less ≤ hidden) : ctx.Executes base start stop less execution :=
  fun locals held stack scene agrees =>
    (executes locals held stack scene agrees).weaken (Nat.le_refl _) (Nat.le_refl _)
      fun _ _ arrives => arrives.mono (.refl _ _) le

theorem Executes.startsAt (executes : ctx.Executes base start stop hidden execution)
    (same : other = start) : ctx.Executes base other stop hidden execution :=
  same ▸ executes

theorem Executes.endsAt (executes : ctx.Executes base start stop hidden execution)
    (same : other = stop) : ctx.Executes base start other hidden execution :=
  same ▸ executes

theorem Fits.executes_call (fits : ctx.Fits base) {args : Bindings → Evaluation (List Value)}
    (argumentsCode : ctx.ComputesAll base start offset count args)
    (known : ctx.site.shape? name = some (.procedure count))
    (found : base.frame.routine.code[offset]? = some (.call name count, span)) :
    ctx.Executes base start (offset + 1) hidden (fun locals => do
        let values ← args locals
        let _ ← ctx.invoke name none values
        return locals) := by
  have called := fits.computesAll_call none argumentsCode known rfl found
  intro locals held stack scene agrees
  dsimp only
  rw [← bind_assoc]
  refine (called locals held stack scene agrees).bind ?_
  rintro values last ⟨none, there⟩
  rw [List.length_eq_zero_iff.mp none] at there
  exact .pure ⟨held, there, agrees, .refl _ _⟩

theorem Fits.computesAll_tuple (fits : ctx.Fits base) (label offset : Nat) :
    (value : Expr) → value.RegularTuple ctx.site.shape? count → value.Named →
    base.frame.routine.HasCode offset (compileExpr label value).1 →
    ctx.ComputesAll base offset (offset + (compileExpr label value).1.length) count
      fun locals => ctx.evalTuple locals value
  | .call name args span types, regular, named, code => by
      simp only [compileExpr, Routine.hasCode_append, Routine.hasCode_cons] at code
      have computed := fits.computesAll_exprs label offset args regular.2 named code.1
      have called := fits.computesAll_call types computed regular.1 rfl code.2.1
      simp only [evalTuple, compileExpr, length_append]
      exact called

mutual

theorem Fits.executes_stmt (fits : ctx.Fits base) (offset : Nat) {counters after : Counters}
    {code : List Line} : (stmt : Stmt) → stmt.Regular ctx.site.shape? → stmt.Named →
    compileStmt counters stmt = .ok (code, after) → base.frame.routine.HasCode offset code →
    ctx.Executes base offset (offset + code.length) counters.hidden
      fun locals => ctx.execStmt stmt locals
  | .skip span, _, _, compiled, _ => by
      cases compiled
      intro locals held stack scene agrees
      simp only [execStmt]
      exact .pure ⟨held, rfl, agrees, .refl _ _⟩
  | .boom msg span, _, _, compiled, placed => by
      cases compiled
      intro locals held stack scene agrees
      simp only [execStmt]
      exact .throw (Nat.le_refl _) (step_resume (Routine.hasCode_cons.mp placed).1) rfl
  | .procedureCall name args span, regular, named, compiled, placed => by
      simp only [compileStmt, compileValues, Except.ok.injEq, Prod.mk.injEq] at compiled
      obtain ⟨rfl, rfl⟩ := compiled
      simp only [Routine.hasCode_append, Routine.hasCode_cons] at placed
      have computed := fits.computesAll_exprs _ offset args regular.2 named placed.1
      simp only [execStmt]
      refine (fits.executes_call computed regular.1 placed.2.1).endsAt ?_
      simp [Nat.add_assoc]
  | .assign name value span, regular, named, compiled, placed => by
      simp only [compileStmt, compileValue, Except.ok.injEq, Prod.mk.injEq] at compiled
      obtain ⟨rfl, rfl⟩ := compiled
      simp only [Routine.hasCode_append, Routine.hasCode_cons] at placed
      have computed := fits.computes_expr _ offset value regular named.2 placed.1
      simp only [execStmt]
      refine (executes_assign named.1 computed placed.2.1).endsAt ?_
      simp [Nat.add_assoc]
  | .tupleAssign names value span, regular, named, compiled, placed => by
      simp only [compileStmt, compileValue, Except.ok.injEq, Prod.mk.injEq] at compiled
      obtain ⟨rfl, rfl⟩ := compiled
      simp only [Routine.hasCode_append] at placed
      have computed := fits.computesAll_tuple _ offset value regular.2 named.2 placed.1
      simp only [execStmt]
      refine (executes_tuple named.1 regular.1 computed placed.2).endsAt ?_
      simp [Nat.add_assoc]
  | .ifElse cond thenBranch none span, regular, named, compiled, placed => by
      simp only [compileStmt, compileValue, bind_eq_ok, pure_eq_ok, Prod.mk.injEq] at compiled
      obtain ⟨⟨thenCode, final⟩, compiledThen, rfl, rfl⟩ := compiled
      simp only [Routine.hasCode_append, Routine.hasCode_cons, length_append,
        ← Nat.add_assoc] at placed
      obtain ⟨⟨⟨testCode, jump, -⟩, thenPlaced⟩, label, -⟩ := placed
      have test := fits.computes_expr _ offset cond regular.1 named.1 testCode
      have thenExecutes := fits.executes_block _ thenBranch regular.2.1 named.2.1 compiledThen
        thenPlaced
      have toLabel := fits.placed _ _ _ label
      simp only [execStmt]
      refine (executes_choice test jump toLabel (thenExecutes.extend fun held stack scene =>
        step_resume label) fun locals held stack scene agrees => ?_).endsAt ?_
      · simp only [execOptional]
        exact .pure ⟨held, rfl, agrees, .refl _ _⟩
      · simp only [length_append, length_cons, length_nil]
        omega
  | .ifElse cond thenBranch (some elseBranch) span, regular, named, compiled, placed => by
      simp only [compileStmt, compileValue, bind_eq_ok, pure_eq_ok, Prod.mk.injEq] at compiled
      obtain ⟨⟨thenCode, between⟩, compiledThen, ⟨elseCode, final⟩, compiledElse, rfl, rfl⟩ :=
        compiled
      simp only [Routine.hasCode_append, Routine.hasCode_cons, length_append,
        ← Nat.add_assoc] at placed
      obtain ⟨⟨⟨⟨⟨testCode, jump, -⟩, thenPlaced⟩, jumpDone, label, -⟩, elsePlaced⟩, done, -⟩ :=
        placed
      have test := fits.computes_expr _ offset cond regular.1 named.1 testCode
      have thenExecutes := fits.executes_block _ thenBranch regular.2.1 named.2.1 compiledThen
        thenPlaced
      have elseExecutes := fits.executes_block _ elseBranch regular.2.2 named.2.2 compiledElse
        elsePlaced
      have toLabel := fits.placed _ _ _ label
      have toDone := fits.placed _ _ _ done
      have hidden := (emits_block thenBranch compiledThen).hidden
      simp only [execStmt, execOptional]
      refine (executes_choice test jump toLabel
        (thenExecutes.extend fun held stack scene =>
          (step_resume jumpDone).trans (jump_resume toDone))
        ((elseExecutes.mono hidden).extend fun held stack scene => step_resume done)).endsAt ?_
      simp only [length_append, length_cons, length_nil]
      omega
  | .whileLoop cond body span, regular, named, compiled, placed => by
      simp only [compileStmt, compileValue, bind_eq_ok, pure_eq_ok, Prod.mk.injEq] at compiled
      obtain ⟨⟨bodyCode, final⟩, compiledBody, rfl, rfl⟩ := compiled
      simp only [Routine.hasCode_append, Routine.hasCode_cons, length_append,
        ← Nat.add_assoc] at placed
      obtain ⟨⟨⟨⟨⟨label, -⟩, testCode⟩, jump, -⟩, bodyPlaced⟩, back, done, -⟩ := placed
      have test := fits.computes_expr _ _ cond regular.1 named.1 testCode
      have bodyExecutes := fits.executes_block _ body regular.2 named.2 compiledBody bodyPlaced
      simp only [execStmt]
      refine (fits.executes_while label test jump bodyExecutes back done).endsAt ?_
      simp only [length_append, length_cons, length_nil]
      omega
  | .repeatWith index lower upper body span type, regular, named, compiled, placed => by
      simp only [compileStmt, compileValue, bind_eq_ok, pure_eq_ok, Prod.mk.injEq] at compiled
      obtain ⟨⟨bodyCode, final⟩, compiledBody, rfl, rfl⟩ := compiled
      simp only [Routine.hasCode_append, Routine.hasCode_cons, length_append,
        ← Nat.add_assoc] at placed
      obtain ⟨⟨⟨⟨⟨⟨⟨⟨⟨lowerPlaced, setIndex, -⟩, upperPlaced⟩, setLimit, -⟩, rangeTest⟩, label, -⟩,
        bodyPlaced⟩, endTest⟩, advance⟩, back, done, delete, -⟩ := placed
      have lowerComputes := fits.computes_expr _ offset lower regular.1 named.2.1 lowerPlaced
      have upperComputes := fits.computes_expr _ _ upper regular.2.1 named.2.2.1 upperPlaced
      have bodyExecutes := fits.executes_block _ body regular.2.2 named.2.2.2 compiledBody
        bodyPlaced
      simp only [execStmt]
      refine (fits.executes_repeat named.1 lowerComputes setIndex upperComputes setLimit rangeTest
        label bodyExecutes (Nat.lt_succ_self _) endTest advance back done delete).endsAt ?_
      simp only [length_append, length_cons, length_nil, loopTest, loopAdvance]
      omega
  | .caseOf scrutinee branches fallback span, regular, named, compiled, placed => by
      simp only [compileStmt, compileValue, bind_eq_ok, pure_eq_ok, Prod.mk.injEq] at compiled
      obtain ⟨⟨branchCode, between⟩, compiledBranches, ⟨fallbackCode, final⟩, compiledFallback,
        rfl, rfl⟩ := compiled
      simp only [Routine.hasCode_append, Routine.hasCode_cons, length_append,
        ← Nat.add_assoc] at placed
      obtain ⟨⟨⟨⟨scrutineePlaced, setSubject, -⟩, branchesPlaced⟩, fallbackPlaced⟩, done, -⟩ :=
        placed
      have computed := fits.computes_expr _ offset scrutinee regular.1 named.1 scrutineePlaced
      have fallbackExecutes := (fits.executes_optional _ fallback regular.2.2 named.2.2
        compiledFallback fallbackPlaced).extend fun held stack scene => step_resume done
      have toDone := fits.placed _ _ _ done
      have hidden := (emits_branches branches compiledBranches).hidden
      simp only [execStmt]
      refine (executes_case computed setSubject fun subject =>
        fits.executesOn_branches _ counters subject _ branches regular.2.1 named.2.1
          compiledBranches (Nat.le_succ _) branchesPlaced toDone
          (fallbackExecutes.mono (Nat.le_of_succ_le hidden))).endsAt ?_
      simp only [length_append, length_cons, length_nil]
      omega
  | .block body span, regular, named, compiled, placed => by
      simp only [compileStmt] at compiled
      simp only [execStmt]
      exact fits.executes_block offset body regular named compiled placed
  | .returns _ _ _, regular, _, _, _ => regular.elim

theorem Fits.executes_block (fits : ctx.Fits base) (offset : Nat) {counters after : Counters}
    {code : List Line} : (body : List Stmt) → Stmt.RegularAll ctx.site.shape? body →
    Stmt.NamedAll body → compileBlock counters body = .ok (code, after) →
    base.frame.routine.HasCode offset code →
    ctx.Executes base offset (offset + code.length) counters.hidden
      fun locals => ctx.execBlock body locals
  | [], _, _, compiled, _ => by
      cases compiled
      intro locals held stack scene agrees
      simp only [execBlock]
      exact .pure ⟨held, rfl, agrees, .refl _ _⟩
  | first :: rest, regular, named, compiled, placed => by
      simp only [compileBlock, bind_eq_ok, pure_eq_ok, Prod.mk.injEq] at compiled
      obtain ⟨⟨firstCode, between⟩, compiledFirst, ⟨restCode, final⟩, compiledRest, rfl, rfl⟩ :=
        compiled
      rw [Routine.hasCode_append] at placed
      have firstExecutes := fits.executes_stmt offset first regular.1 named.1 compiledFirst placed.1
      have restExecutes := fits.executes_block _ rest regular.2 named.2 compiledRest placed.2
      have hidden := (emits_stmt first compiledFirst).hidden
      simp only [execBlock]
      refine (firstExecutes.seq restExecutes hidden).endsAt ?_
      simp only [length_append]
      omega

theorem Fits.executes_optional (fits : ctx.Fits base) (offset : Nat)
    {counters after : Counters} {code : List Line} : (body : Option (List Stmt)) →
    Stmt.RegularOptional ctx.site.shape? body → Stmt.NamedOptional body →
    compileOptional counters body = .ok (code, after) → base.frame.routine.HasCode offset code →
    ctx.Executes base offset (offset + code.length) counters.hidden
      fun locals => ctx.execOptional body locals
  | none, _, _, compiled, _ => by
      cases compiled
      intro locals held stack scene agrees
      simp only [execOptional]
      exact .pure ⟨held, rfl, agrees, .refl _ _⟩
  | some body, regular, named, compiled, placed => by
      simp only [compileOptional] at compiled
      simp only [execOptional]
      exact fits.executes_block offset body regular named compiled placed

theorem Fits.executesOn_branches (fits : ctx.Fits base) (offset : Nat)
    (counters : Counters) (subject : Value) (otherwise : Bindings → Evaluation Bindings)
    {current after : Counters} {code : List Line} {done stop : Nat} : (branches : List Branch) →
    Stmt.RegularBranches ctx.site.shape? branches → Stmt.NamedBranches branches →
    compileBranches counters.hiddenName done current branches = .ok (code, after) →
    counters.hidden ≤ current.hidden → base.frame.routine.HasCode offset code →
    base.frame.routine.target? done = some stop →
    ctx.Executes base (offset + code.length) stop counters.hidden otherwise →
    ctx.ExecutesOn base offset stop counters subject
      fun locals => ctx.execBranches subject branches otherwise locals
  | [], _, _, compiled, _, _, _, otherwiseExecutes => by
      cases compiled
      intro locals held stack scene agrees _
      simp only [execBranches]
      exact otherwiseExecutes locals held stack scene agrees
  | .on literals body span :: rest, regular, named, compiled, below, placed, toDone,
      otherwiseExecutes => by
      simp only [compileBranches, bind_eq_ok, pure_eq_ok, Prod.mk.injEq] at compiled
      obtain ⟨⟨bodyCode, between⟩, compiledBody, ⟨restCode, final⟩, compiledRest, rfl, rfl⟩ :=
        compiled
      simp only [Routine.hasCode_append, length_append, ← Nat.add_assoc] at placed
      obtain ⟨⟨⟨test, bodyPlaced⟩, ending⟩, restPlaced⟩ := placed
      have bodyExecutes := fits.executes_block _ body regular.1 named.1 compiledBody bodyPlaced
      have hidden := (emits_block body compiledBody).hidden
      have restExecutes := fits.executesOn_branches _ counters subject otherwise rest regular.2
        named.2 compiledRest (Nat.le_trans below hidden) restPlaced toDone
        (otherwiseExecutes.startsAt (by simp only [length_append]; omega))
      simp only [execBranches]
      exact fits.executesOn_branch test bodyExecutes below ending toDone restExecutes

end

end Context

end StoneBoard
