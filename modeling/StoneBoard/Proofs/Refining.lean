import StoneBoard.Proofs.AsRead
import StoneBoard.Proofs.Tables
import StoneBoard.Proofs.ValueTypes

/-!
# More types

Types are ordered by what they tell, and so are tables of types and the slots of programs.  Whoever
knows more of the results of functions finds out more about a routine, and whatever is found with
less does not contradict it.  Apart from its slots a routine stays as it is, and if its types do
not agree, one of its places is to blame.
-/

namespace StoneBoard

/-! ## Types -/

namespace Ty

variable {first second third less more : Ty}

theorem Below.trans (below : first.Below second) (above : second.Below third) :
    first.Below third := by
  induction first generalizing second third with
  | unknown => exact unknown_below third
  | basic => exact eq_of_basic_below below ▸ above
  | list elem ih =>
    cases second <;> cases third <;> first | exact below.elim | exact above.elim | skip
    exact ih below above

theorem below_unify_left (first second : Ty) : first.Below (first.unify second) := by
  induction first generalizing second with
  | unknown => exact unknown_below _
  | basic tag => cases second <;> exact .refl (basic tag)
  | list elem ih =>
    cases second with
    | list other => exact ih other
    | _ => exact .refl (list elem)

theorem below_unify_right (agree : first.compatible second = true) :
    second.Below (first.unify second) := by
  induction first generalizing second with
  | unknown => exact .refl second
  | basic tag =>
    cases second with
    | unknown => exact unknown_below _
    | basic other => exact (eq_of_beq agree).symm
    | list => cases agree
  | list elem ih =>
    cases second with
    | unknown => exact unknown_below _
    | basic => cases agree
    | list other => exact ih agree

/-- Types that tell less do not disagree more often. -/
theorem Below.compatible (below : less.Below more) (others : first.Below second)
    (agree : more.compatible second = true) : less.compatible first = true := by
  induction less generalizing more first second with
  | unknown => rfl
  | basic tag =>
    cases eq_of_basic_below below
    cases first with
    | unknown => rfl
    | basic => exact eq_of_basic_below others ▸ agree
    | list => cases second <;> first | exact others.elim | cases agree
  | list elem ih =>
    cases more <;> first | exact below.elim | skip
    cases first with
    | unknown => rfl
    | basic => cases eq_of_basic_below others; cases agree
    | list => cases second <;> first | exact others.elim | exact ih below others agree

theorem Below.unify_both (below : less.Below more) (others : first.Below second)
    (agree : more.compatible second = true) : (less.unify first).Below (more.unify second) :=
  .unify (below.trans (below_unify_left more second)) (others.trans (below_unify_right agree))

theorem forall₂_refl (types : List Ty) : List.Forall₂ Below types types :=
  List.forall₂_same.mpr fun ty _ => .refl ty

theorem headD_below {types others : List Ty} (each : List.Forall₂ Below types others) :
    (types.headD unknown).Below (others.headD unknown) := by
  cases each with
  | nil => trivial
  | cons below => exact below

end Ty

/-! ## Slots -/

def SlotBelow (slot more : Option (List Ty)) : Prop :=
  ∀ found, slot = some found → ∃ told, more = some told ∧ List.Forall₂ Ty.Below found told

abbrev SlotsBelow : List (Option (List Ty)) → List (Option (List Ty)) → Prop :=
  List.Forall₂ SlotBelow

namespace SlotBelow

theorem refl (slot : Option (List Ty)) : SlotBelow slot slot :=
  fun found isFound => ⟨found, isFound, Ty.forall₂_refl found⟩

theorem some {found told : List Ty} (each : List.Forall₂ Ty.Below found told) :
    SlotBelow (some found) (some told) := by
  rintro _ ⟨⟩
  exact ⟨told, rfl, each⟩

/-- Slots for basic types stay empty until the types are known. -/
theorem basic {types others : List Ty} (each : List.Forall₂ Ty.Below types others) :
    SlotBelow ((types.mapM Ty.basic?).map (List.map .basic))
      ((others.mapM Ty.basic?).map (List.map .basic)) := by
  intro found isFound
  obtain ⟨tags, allBasic, rfl⟩ := Option.map_eq_some_iff.mp isFound
  have told := Ty.eq_of_mapM_basic? each allBasic
  have sameTags : others.mapM Ty.basic? = Option.some tags := by
    rw [told]
    clear allBasic isFound told
    induction tags with
    | nil => rfl
    | cons tag tags ih => simp [ih, Ty.basic?]
  exact ⟨_, congrArg _ sameTags, Ty.forall₂_refl _⟩

theorem basic? {less more : Ty} (below : less.Below more) :
    SlotBelow (less.basic?.map fun tag => [.basic tag])
      (more.basic?.map fun tag => [.basic tag]) := by
  intro found isFound
  obtain ⟨tag, isBasic, rfl⟩ := Option.map_eq_some_iff.mp isFound
  rw [Ty.eq_of_basic? below isBasic]
  exact ⟨_, rfl, Ty.forall₂_refl _⟩

end SlotBelow

theorem SlotsBelow.append {first second others more : List (Option (List Ty))}
    (before : SlotsBelow first others) (after : SlotsBelow second more) :
    SlotsBelow (first ++ second) (others ++ more) :=
  List.rel_append before after

namespace Expr

mutual

def slots : Expr → List (Option (List Ty))
  | .literal _ _ => []
  | .variableRef _ _ => []
  | .call _ arguments _ types => slotsAll arguments ++ [types.map (List.map .basic)]
  | .binary _ left right _ => left.slots ++ right.slots
  | .not operand _ => operand.slots
  | .negate operand _ type => operand.slots ++ [type.map fun tag => [.basic tag]]
  | .logical _ left right _ => left.slots ++ right.slots

def slotsAll : List Expr → List (Option (List Ty))
  | [] => []
  | first :: rest => first.slots ++ slotsAll rest

end

end Expr

namespace Stmt

mutual

def slots : Stmt → List (Option (List Ty))
  | .skip _ => []
  | .boom _ _ => []
  | .procedureCall _ arguments _ => Expr.slotsAll arguments
  | .assign _ value _ => value.slots
  | .tupleAssign _ value _ => value.slots
  | .ifElse condition thenBranch elseBranch _ =>
      condition.slots ++ (slotsAll thenBranch ++ slotsOptional elseBranch)
  | .whileLoop condition body _ => condition.slots ++ slotsAll body
  | .repeatWith _ lower upper body _ type =>
      lower.slots ++ (upper.slots ++ (slotsAll body ++ [type.map fun tag => [.basic tag]]))
  | .caseOf scrutinee branches fallback _ =>
      scrutinee.slots ++ (slotsBranches branches ++ slotsOptional fallback)
  | .block body _ => slotsAll body
  | .returns values _ types => Expr.slotsAll values ++ [types]

def slotsAll : List Stmt → List (Option (List Ty))
  | [] => []
  | first :: rest => first.slots ++ slotsAll rest

def slotsOptional : Option (List Stmt) → List (Option (List Ty))
  | none => []
  | some body => slotsAll body

def slotsBranches : List Branch → List (Option (List Ty))
  | [] => []
  | .on _ body _ :: rest => slotsAll body ++ slotsBranches rest

end

end Stmt

def Definition.slots (definition : Definition) : List (Option (List Ty)) :=
  Stmt.slotsAll definition.body

namespace Inference

variable {first second binding other : Ty} {span place : Span}

theorem agree_tracks {α β : Type} {Related : α → β → Prop} {found : α} {told : β}
    (below : first.Below second) (others : binding.Below other)
    (related : (first.unify binding).Below (second.unify other) → Related found told) :
    Tracks (fun places => places place) Related
      (if first.compatible binding then .ok found else .error (mismatch first binding span))
      (if second.compatible other then .ok told else .error (mismatch second other place)) := by
  by_cases agree : second.compatible other = true
  · rw [if_pos agree, if_pos (below.compatible others agree)]
    exact .pure (related (below.unify_both others agree))
  · rw [if_neg agree]
    exact ⟨nofun, fun _ within => .error (.located rfl within)⟩

theorem expect_tracks (below : first.Below second) (others : binding.Below other) :
    Tracks (fun places => places place)
      (fun _ _ => (first.unify binding).Below (second.unify other))
      (expect first binding span) (expect second other place) :=
  agree_tracks below others id

theorem matchParameter_tracks (below : first.Below second) (others : binding.Below other)
    (param : SignatureTy) :
    Tracks (fun places => places place) Ty.Below (matchParameter span binding param first)
      (matchParameter place other param second) := by
  cases param with
  | exact expected =>
    apply (expect_tracks (.refl expected) below).bind fun _ => id
    intro _ _ _
    exact .pure others
  | variableTy => exact agree_tracks others below id
  | listOfVariable =>
    cases second with
    | basic => exact ⟨nofun, fun _ within => .error (.located rfl within)⟩
    | unknown =>
      cases Ty.below_unknown.mp below
      exact agree_tracks others (.refl _) id
    | list elem =>
      cases first with
      | basic => exact below.elim
      | unknown => exact agree_tracks others (Ty.unknown_below elem) id
      | list => exact agree_tracks others below id

section Calls

variable {types otherTypes : List Ty}

theorem matchParameters_tracks (each : List.Forall₂ Ty.Below types otherTypes)
    (others : binding.Below other) (params : List SignatureTy) :
    Tracks (fun places => places place) Ty.Below (matchParameters span binding params types)
      (matchParameters place other params otherTypes) := by
  induction params generalizing types otherTypes binding other with
  | nil => exact .pure others
  | cons param params ih =>
    cases each with
    | nil => exact .pure others
    | cons below rest =>
      apply (matchParameter_tracks below others param).bind fun _ => id
      intro _ _ bound
      exact ih rest bound

theorem builtinType_tracks (each : List.Forall₂ Ty.Below types otherTypes) (name : String) :
    Tracks (fun places => places place) Ty.Below (builtinType name types span)
      (builtinType name otherTypes place) := by
  unfold builtinType
  split
  · exact .pure trivial
  next builtin _ =>
    apply (matchParameters_tracks each (Ty.unknown_below _) _).bind fun _ => id
    intro binding _ bound
    cases builtin.signature.result with
    | none => exact .pure trivial
    | some result =>
      cases result with
      | exact ty => exact .pure (.refl ty)
      | _ => exact .pure bound

end Calls

/-! ## Expressions -/

/-- The same functions with as many results, of which the second table tells more. -/
def TablesBelow (returns more : Returns) : Prop :=
  ∀ name, Option.Rel (List.Forall₂ Ty.Below) (returns.get? name) (more.get? name)

def VariablesBelow (locals more : Variables) : Prop :=
  ∀ name, (variableType locals name).Below (variableType more name)

/-- What two inferences come to for a `tree`, and for `another` one that differs in its slots at
most: the second one tells more, beside the slots and, if they were the same, in them; and it has
changed nothing but the slots. -/
structure Refines {α β : Type} (bare : α → α) (slots : α → List (Option (List Ty)))
    (Tells : β → β → Prop) (tree another : α) (found told : α × β) : Prop where
  slots : tree = another → SlotsBelow (slots found.1) (slots told.1)
  kept : bare told.1 = bare another
  known : Tells found.2 told.2

abbrev ExprRefines : Expr → Expr → Expr × Ty → Expr × Ty → Prop :=
  Refines Expr.bare Expr.slots Ty.Below

section Expressions

variable {returns more : Returns} {locals others : Variables}

theorem Refines.within {expr other : Expr} {found told : Expr × Ty}
    (refines : ExprRefines expr other found told) (places : Span → Prop)
    (asRead : other.bare.AsRead places) : places told.1.span := by
  rw [← told.1.span_bare, refines.kept]
  exact asRead.within

set_option linter.unusedSectionVars false

variable (tables : TablesBelow returns more) (known : VariablesBelow locals others)
include tables known

mutual

theorem inferExpr_tracks (expr other : Expr) (same : expr.bare = other.bare) :
    Tracks (other.bare.AsRead ·) (ExprRefines expr other) (inferExpr returns locals expr)
      (inferExpr more others other) := by
  match expr with
  | .literal _ _ =>
    cases other <;> simp only [Expr.bare, reduceCtorEq, Expr.literal.injEq] at same
    obtain ⟨rfl, rfl⟩ := same
    exact .pure ⟨fun _ => .nil, rfl, .refl _⟩
  | .variableRef name _ =>
    cases other <;> simp only [Expr.bare, reduceCtorEq, Expr.variableRef.injEq] at same
    obtain ⟨rfl, rfl⟩ := same
    exact .pure ⟨fun _ => .nil, rfl, known name⟩
  | .call name args span slot =>
    cases other <;> simp only [Expr.bare, reduceCtorEq, Expr.call.injEq] at same
    obtain ⟨rfl, sameArguments, rfl, -⟩ := same
    rw [inferExpr, inferExpr]
    apply (inferExprs_tracks args _ sameArguments).bind fun _ read => read.1
    intro _ _ refines
    have kept := congrArg (Expr.call name · span none) refines.kept
    have related := tables name
    dsimp only
    generalize returns.get? name = results, more.get? name = otherResults at related ⊢
    cases related with
    | some results =>
      refine .pure ⟨?_, kept, Ty.headD_below results⟩
      rintro ⟨⟩
      exact .append (refines.slots rfl) (.cons (.refl _) .nil)
    | none =>
      apply (builtinType_tracks refines.known name).bind fun _ read => read.2.1
      intro _ _ typeBelow
      refine .pure ⟨?_, kept, typeBelow⟩
      rintro ⟨⟩
      refine .append (refines.slots rfl) (.cons ?_ .nil)
      split
      · exact .basic refines.known
      · exact .refl _
  | .binary op left right span =>
    cases other <;> simp only [Expr.bare, reduceCtorEq, Expr.binary.injEq] at same
    obtain ⟨rfl, sameLeft, sameRight, rfl⟩ := same
    rw [inferExpr, inferExpr]
    apply (inferExpr_tracks left _ sameLeft).bind fun _ read => read.1
    intro _ _ refines
    apply (inferExpr_tracks right _ sameRight).bind fun _ read => read.2.1
    intro _ _ refinesRight
    apply (builtinType_tracks (.cons refines.known (.cons refinesRight.known .nil)) _).bind
      fun _ read => read.2.2
    intro _ _ typeBelow
    refine .pure ⟨?_, ?_, typeBelow⟩
    · rintro ⟨⟩
      exact .append (refines.slots rfl) (refinesRight.slots rfl)
    · rw [Expr.bare, Expr.bare, refines.kept, refinesRight.kept]
  | .not operand span =>
    cases other <;> simp only [Expr.bare, reduceCtorEq, Expr.not.injEq] at same
    obtain ⟨sameOperand, rfl⟩ := same
    rw [inferExpr, inferExpr]
    apply (inferExpr_tracks operand _ sameOperand).bind fun _ read => read.1
    intro _ _ refines
    apply (expect_tracks (.refl _) refines.known).bind fun _ read => read.2
    intro _ _ _
    refine .pure ⟨?_, congrArg (Expr.not · span) refines.kept, .refl _⟩
    rintro ⟨⟩
    exact refines.slots rfl
  | .negate operand span slot =>
    cases other <;> simp only [Expr.bare, reduceCtorEq, Expr.negate.injEq] at same
    obtain ⟨sameOperand, rfl, -⟩ := same
    rw [inferExpr, inferExpr]
    apply (inferExpr_tracks operand _ sameOperand).bind fun _ read => read.1
    intro _ _ refines
    apply (builtinType_tracks (.cons refines.known .nil) _).bind fun _ read => read.2.1
    intro _ _ typeBelow
    refine .pure ⟨?_, congrArg (Expr.negate · span none) refines.kept, typeBelow⟩
    rintro ⟨⟩
    exact .append (refines.slots rfl) (.cons (.basic? refines.known) .nil)
  | .logical op left right span =>
    cases other <;> simp only [Expr.bare, reduceCtorEq, Expr.logical.injEq] at same
    obtain ⟨rfl, sameLeft, sameRight, rfl⟩ := same
    rw [inferExpr, inferExpr]
    apply (inferExpr_tracks left _ sameLeft).bind fun _ read => read.1
    intro _ _ refines
    apply (expect_tracks (.refl _) refines.known).bind
      fun places read => refines.within places read.1
    intro _ _ _
    apply (inferExpr_tracks right _ sameRight).bind fun _ read => read.2.1
    intro _ _ refinesRight
    apply (expect_tracks (.refl _) refinesRight.known).bind
      fun places read => refinesRight.within places read.2.1
    intro _ _ _
    refine .pure ⟨?_, ?_, .refl _⟩
    · rintro ⟨⟩
      exact .append (refines.slots rfl) (refinesRight.slots rfl)
    · rw [Expr.bare, Expr.bare, refines.kept, refinesRight.kept]

theorem inferExprs_tracks (exprs otherExprs : List Expr)
    (same : Expr.bareAll exprs = Expr.bareAll otherExprs) :
    Tracks (Expr.AsReadAll · (Expr.bareAll otherExprs))
      (Refines Expr.bareAll Expr.slotsAll (List.Forall₂ Ty.Below) exprs otherExprs)
      (inferExprs returns locals exprs) (inferExprs more others otherExprs) := by
  match exprs with
  | [] =>
    cases otherExprs <;> simp only [Expr.bareAll, reduceCtorEq] at same
    exact .pure ⟨fun _ => .nil, rfl, .nil⟩
  | first :: rest =>
    cases otherExprs <;> simp only [Expr.bareAll, reduceCtorEq, List.cons.injEq] at same
    rw [inferExprs, inferExprs]
    apply (inferExpr_tracks first _ same.1).bind fun _ read => read.1
    intro _ _ refines
    apply (inferExprs_tracks rest _ same.2).bind fun _ read => read.2
    intro _ _ refinesRest
    refine .pure ⟨?_, ?_, .cons refines.known refinesRest.known⟩
    · rintro ⟨⟩
      exact .append (refines.slots rfl) (refinesRest.slots rfl)
    · rw [Expr.bareAll, Expr.bareAll, refines.kept, refinesRest.kept]

end

theorem inferCondition_tracks {cond other : Expr} (same : cond.bare = other.bare) :
    Tracks (other.bare.AsRead ·) (fun found told =>
        (cond = other → SlotsBelow found.slots told.slots) ∧ told.bare = other.bare)
      (inferCondition returns locals cond) (inferCondition more others other) := by
  apply (inferExpr_tracks tables known cond other same).bind fun _ => id
  intro _ _ refines
  apply (expect_tracks (.refl _) refines.known).bind refines.within
  intro _ _ _
  exact .pure ⟨refines.slots, refines.kept⟩

theorem inferTuple_tracks {value other : Expr} (same : value.bare = other.bare) :
    Tracks (other.bare.AsRead ·) (Refines Expr.bare Expr.slots (List.Forall₂ Ty.Below) value other)
      (inferTuple returns locals value) (inferTuple more others other) := by
  have single := inferExpr_tracks tables known value other same
  cases value with
  | call name args span slot =>
    cases other <;> simp only [Expr.bare, reduceCtorEq, Expr.call.injEq] at same
    obtain ⟨rfl, sameArguments, rfl, -⟩ := same
    apply (inferExprs_tracks tables known args _ sameArguments).bind fun _ read => read.1
    intro _ _ refines
    refine .pure ⟨?_, congrArg (Expr.call name · span none) refines.kept, ?_⟩
    · rintro ⟨⟩
      exact .append (refines.slots rfl) (.cons (.refl _) .nil)
    · have related := tables name
      generalize returns.get? name = results, more.get? name = otherResults at related ⊢
      cases related with
      | some results => exact results
      | none => exact .nil
  | _ =>
    cases other <;> simp only [Expr.bare, reduceCtorEq] at same
    all_goals
      apply single.bind fun _ => id
      intro _ _ refines
      exact .pure ⟨refines.slots, refines.kept, .cons refines.known .nil⟩

end Expressions

/-! ## Commands -/

/-- What is known in the middle of a routine is known to the second one as well. -/
structure Facts.Under (facts more : Facts) : Prop where
  locals : VariablesBelow facts.locals more.locals
  result : SlotBelow facts.result more.result

/-- What two inferences know after some commands; only returns change what is known of the
result. -/
structure Learns (before : Facts) (silent : Prop) (found told : Facts) : Prop where
  under : found.Under told
  result : silent → told.result = before.result

theorem Learns.trans {before between middle found told : Facts} {silent early late : Prop}
    (first : Learns before early between middle) (second : Learns middle late found told)
    (isEarly : silent → early) (isLate : silent → late) : Learns before silent found told :=
  ⟨second.under, fun isSilent =>
    (second.result (isLate isSilent)).trans (first.result (isEarly isSilent))⟩

theorem variableType_insert (locals : Variables) (name other : String) (ty : Ty) :
    variableType (locals.insert name ty) other =
      if other = name then ty else variableType locals other := by
  rw [variableType, Table.get?_insert]
  split <;> rfl

section Commands

variable {returns more : Returns} {facts others : Facts} {ty otherTy : Ty}

theorem VariablesBelow.insert {locals others : Variables} (known : VariablesBelow locals others)
    (name : String) (below : ty.Below otherTy) :
    VariablesBelow (locals.insert name ty) (others.insert name otherTy) := by
  intro asked
  rw [variableType_insert, variableType_insert]
  split
  · exact below
  · exact known asked

theorem bind_tracks (under : facts.Under others) (below : ty.Below otherTy) (name : String)
    (silent : Prop) :
    Tracks (fun places => places place) (Learns others silent) (facts.bind span name ty)
      (others.bind place name otherTy) := by
  apply (expect_tracks (under.locals name) below).bind fun _ => id
  intro _ _ unified
  exact .pure ⟨⟨under.locals.insert name unified, under.result⟩, fun _ => rfl⟩

theorem bindAll_tracks (under : facts.Under others) {types otherTypes : List Ty}
    (each : List.Forall₂ Ty.Below types otherTypes) (names : List String) (silent : Prop) :
    Tracks (fun places => places place) (Learns others silent) (facts.bindAll span names types)
      (others.bindAll place names otherTypes) := by
  induction names generalizing facts others types otherTypes with
  | nil => exact .pure ⟨under, fun _ => rfl⟩
  | cons name names ih =>
    have rest : List.Forall₂ Ty.Below types.tail otherTypes.tail := by
      cases each with
      | nil => exact .nil
      | cons _ rest => exact rest
    apply (bind_tracks under (Ty.headD_below each) name silent).bind fun _ => id
    intro _ _ learns
    exact (ih learns.under rest).mono (fun _ => id) fun _ _ learnsRest =>
      learns.trans learnsRest id id

theorem literals_tracks (below : first.Below second) (literals : List Value) :
    Tracks (fun places => places place) (fun _ _ => True)
      (literals.forM fun literal => expect first literal.ty span)
      (literals.forM fun literal => expect second literal.ty place) := by
  induction literals with
  | nil => exact .pure trivial
  | cons literal rest ih =>
    apply (expect_tracks below (.refl _)).bind fun _ => id
    intro _ _ _
    exact ih

set_option linter.unusedSectionVars false

variable (shapes : String → Option Shape) (tables : TablesBelow returns more)
include tables

mutual

theorem inferStmt_tracks {facts others : Facts} (under : facts.Under others) (stmt other : Stmt)
    (same : stmt.bare = other.bare) : Tracks (other.bare.AsRead ·)
      (Refines Stmt.bare Stmt.slots (Learns others (stmt.Regular shapes)) stmt other)
      (inferStmt returns facts stmt) (inferStmt more others other) := by
  have known := under.locals
  match stmt with
  | .skip _ =>
    cases other <;> simp only [Stmt.bare, reduceCtorEq, Stmt.skip.injEq] at same
    exact .pure ⟨fun _ => .nil, rfl, under, fun _ => rfl⟩
  | .boom _ _ =>
    cases other <;> simp only [Stmt.bare, reduceCtorEq, Stmt.boom.injEq] at same
    exact .pure ⟨fun _ => .nil, rfl, under, fun _ => rfl⟩
  | .procedureCall name args span =>
    cases other <;> simp only [Stmt.bare, reduceCtorEq, Stmt.procedureCall.injEq] at same
    obtain ⟨rfl, sameArguments, rfl⟩ := same
    rw [inferStmt, inferStmt]
    apply (inferExprs_tracks tables known args _ sameArguments).bind fun _ read => read.1
    intro _ _ refines
    apply (builtinType_tracks refines.known name).bind fun _ read => read.2
    intro _ _ _
    refine .pure ⟨?_, congrArg (Stmt.procedureCall name · span) refines.kept, under, fun _ => rfl⟩
    rintro ⟨⟩
    exact refines.slots rfl
  | .assign name value span =>
    cases other <;> simp only [Stmt.bare, reduceCtorEq, Stmt.assign.injEq] at same
    obtain ⟨rfl, sameValue, rfl⟩ := same
    rw [inferStmt, inferStmt]
    apply (inferExpr_tracks tables known value _ sameValue).bind fun _ read => read.2.1
    intro _ _ refines
    apply (bind_tracks under refines.known name _).bind fun _ read => read.2.2
    intro _ _ learns
    refine .pure ⟨?_, congrArg (Stmt.assign name · span) refines.kept, learns⟩
    rintro ⟨⟩
    exact refines.slots rfl
  | .tupleAssign names value span =>
    cases other <;> simp only [Stmt.bare, reduceCtorEq, Stmt.tupleAssign.injEq] at same
    obtain ⟨rfl, sameValue, rfl⟩ := same
    rw [inferStmt, inferStmt]
    apply (inferTuple_tracks tables known sameValue).bind fun _ read => read.2.1
    intro _ _ refines
    apply (bindAll_tracks under refines.known names _).bind fun _ read => read.2.2
    intro _ _ learns
    refine .pure ⟨?_, congrArg (Stmt.tupleAssign names · span) refines.kept, learns⟩
    rintro ⟨⟩
    exact refines.slots rfl
  | .ifElse cond thenBranch elseBranch span =>
    cases other <;> simp only [Stmt.bare, reduceCtorEq, Stmt.ifElse.injEq] at same
    obtain ⟨sameCondition, sameThen, sameElse, rfl⟩ := same
    rw [inferStmt, inferStmt]
    apply (inferCondition_tracks tables known sameCondition).bind fun _ read => read.1
    rintro _ _ ⟨slots, kept⟩
    apply (inferBlock_tracks under thenBranch _ sameThen).bind fun _ read => read.2.1
    intro _ _ yes
    apply (inferOptional_tracks yes.known.under elseBranch _ sameElse).bind
      fun _ read => read.2.2.1
    intro _ _ no
    refine .pure ⟨?_, ?_, yes.known.trans no.known (·.2.1) (·.2.2)⟩
    · rintro ⟨⟩
      exact .append (slots rfl) (.append (yes.slots rfl) (no.slots rfl))
    · rw [Stmt.bare, Stmt.bare, kept, yes.kept, no.kept]
  | .whileLoop cond body span =>
    cases other <;> simp only [Stmt.bare, reduceCtorEq, Stmt.whileLoop.injEq] at same
    obtain ⟨sameCondition, sameBody, rfl⟩ := same
    rw [inferStmt, inferStmt]
    apply (inferCondition_tracks tables known sameCondition).bind fun _ read => read.1
    rintro _ _ ⟨slots, kept⟩
    apply (inferBlock_tracks under body _ sameBody).bind fun _ read => read.2.1
    intro _ _ refines
    refine .pure ⟨?_, ?_, refines.known.under, fun regular => refines.known.result regular.2⟩
    · rintro ⟨⟩
      exact .append (slots rfl) (refines.slots rfl)
    · rw [Stmt.bare, Stmt.bare, kept, refines.kept]
  | .repeatWith index lower upper body span _ =>
    cases other <;> simp only [Stmt.bare, reduceCtorEq, Stmt.repeatWith.injEq] at same
    obtain ⟨rfl, sameLower, sameUpper, sameBody, rfl, -⟩ := same
    rw [inferStmt, inferStmt]
    apply (inferExpr_tracks tables known lower _ sameLower).bind fun _ read => read.2.1
    intro _ _ first
    apply (inferExpr_tracks tables known upper _ sameUpper).bind fun _ read => read.2.2.1
    intro _ _ last
    apply (expect_tracks first.known last.known).bind
      fun places read => last.within places read.2.2.1
    intro _ _ indexBelow
    have indexUnder : Facts.Under ⟨_, facts.result⟩ ⟨_, others.result⟩ :=
      ⟨known.insert index indexBelow, under.result⟩
    apply (inferBlock_tracks indexUnder body _ sameBody).bind fun _ read => read.2.2.2.1
    intro _ _ refines
    refine .pure ⟨?_, ?_, refines.known.under, fun regular => refines.known.result regular.2.2⟩
    · rintro ⟨⟩
      exact .append (first.slots rfl) (.append (last.slots rfl) (.append (refines.slots rfl)
        (.cons (.basic? indexBelow) .nil)))
    · rw [Stmt.bare, Stmt.bare, first.kept, last.kept, refines.kept]
  | .caseOf scrutinee branches fallback span =>
    cases other <;> simp only [Stmt.bare, reduceCtorEq, Stmt.caseOf.injEq] at same
    obtain ⟨sameScrutinee, sameBranches, sameFallback, rfl⟩ := same
    rw [inferStmt, inferStmt]
    apply (inferExpr_tracks tables known scrutinee _ sameScrutinee).bind fun _ read => read.1
    intro _ _ value
    apply (inferBranches_tracks value.known under branches _ sameBranches).bind
      fun _ read => read.2.1
    intro _ _ refines
    apply (inferOptional_tracks refines.known.under fallback _ sameFallback).bind
      fun _ read => read.2.2.1
    intro _ _ otherwise
    refine .pure ⟨?_, ?_, refines.known.trans otherwise.known (·.2.1) (·.2.2)⟩
    · rintro ⟨⟩
      exact .append (value.slots rfl) (.append (refines.slots rfl) (otherwise.slots rfl))
    · rw [Stmt.bare, Stmt.bare, value.kept, refines.kept, otherwise.kept]
  | .block body span =>
    cases other <;> simp only [Stmt.bare, reduceCtorEq, Stmt.block.injEq] at same
    obtain ⟨sameBody, rfl⟩ := same
    rw [inferStmt, inferStmt]
    apply (inferBlock_tracks under body _ sameBody).bind fun _ read => read.1
    intro _ _ refines
    refine .pure ⟨?_, congrArg (Stmt.block · span) refines.kept, refines.known⟩
    rintro ⟨⟩
    exact refines.slots rfl
  | .returns values span _ =>
    cases other <;> simp only [Stmt.bare, reduceCtorEq, Stmt.returns.injEq] at same
    obtain ⟨sameValues, rfl, -⟩ := same
    rw [inferStmt, inferStmt]
    apply (inferExprs_tracks tables known values _ sameValues).bind fun _ read => read.1
    intro _ _ refines
    have told := SlotBelow.some refines.known
    refine .pure ⟨?_, congrArg (Stmt.returns · span none) refines.kept, ⟨known, told⟩, False.elim⟩
    rintro ⟨⟩
    exact .append (refines.slots rfl) (.cons told .nil)
termination_by structural stmt

theorem inferBlock_tracks {facts others : Facts} (under : facts.Under others)
    (body other : List Stmt) (same : Stmt.bareAll body = Stmt.bareAll other) :
    Tracks (Stmt.AsReadAll · (Stmt.bareAll other))
      (Refines Stmt.bareAll Stmt.slotsAll (Learns others (Stmt.RegularAll shapes body)) body other)
      (inferBlock returns facts body) (inferBlock more others other) := by
  match body with
  | [] =>
    cases other <;> simp only [Stmt.bareAll, reduceCtorEq] at same
    exact .pure ⟨fun _ => .nil, rfl, under, fun _ => rfl⟩
  | first :: rest =>
    cases other <;> simp only [Stmt.bareAll, reduceCtorEq, List.cons.injEq] at same
    rw [inferBlock, inferBlock]
    apply (inferStmt_tracks under first _ same.1).bind fun _ read => read.1
    intro _ _ refines
    apply (inferBlock_tracks refines.known.under rest _ same.2).bind fun _ read => read.2
    intro _ _ refinesRest
    refine .pure ⟨?_, ?_, refines.known.trans refinesRest.known (·.1) (·.2)⟩
    · rintro ⟨⟩
      exact .append (refines.slots rfl) (refinesRest.slots rfl)
    · rw [Stmt.bareAll, Stmt.bareAll, refines.kept, refinesRest.kept]
termination_by structural body

theorem inferOptional_tracks {facts others : Facts} (under : facts.Under others)
    (body other : Option (List Stmt)) (same : Stmt.bareOptional body = Stmt.bareOptional other) :
    Tracks (Stmt.AsReadOptional · (Stmt.bareOptional other))
      (Refines Stmt.bareOptional Stmt.slotsOptional
        (Learns others (Stmt.RegularOptional shapes body)) body other)
      (inferOptional returns facts body) (inferOptional more others other) := by
  match body with
  | none =>
    cases other <;> simp only [Stmt.bareOptional, reduceCtorEq] at same
    exact .pure ⟨fun _ => .nil, rfl, under, fun _ => rfl⟩
  | some body =>
    cases other <;> simp only [Stmt.bareOptional, reduceCtorEq, Option.some.injEq] at same
    rw [inferOptional, inferOptional]
    apply (inferBlock_tracks under body _ same).bind fun _ => id
    intro _ _ refines
    refine .pure ⟨?_, congrArg some refines.kept, refines.known⟩
    rintro ⟨⟩
    exact refines.slots rfl
termination_by structural body

theorem inferBranches_tracks {facts others : Facts} {ty otherTy : Ty} (below : ty.Below otherTy)
    (under : facts.Under others) (branches other : List Branch)
    (same : Stmt.bareBranches branches = Stmt.bareBranches other) :
    Tracks (Stmt.AsReadBranches · (Stmt.bareBranches other))
      (Refines Stmt.bareBranches Stmt.slotsBranches
        (Learns others (Stmt.RegularBranches shapes branches)) branches other)
      (inferBranches returns ty facts branches) (inferBranches more otherTy others other) := by
  match branches with
  | [] =>
    rcases other with _ | ⟨⟨_, _, _⟩, _⟩ <;> simp only [Stmt.bareBranches, reduceCtorEq] at same
    exact .pure ⟨fun _ => .nil, rfl, under, fun _ => rfl⟩
  | .on literals body span :: rest =>
    rcases other with _ | ⟨⟨_, _, _⟩, _⟩ <;>
      simp only [Stmt.bareBranches, reduceCtorEq, List.cons.injEq, Branch.on.injEq] at same
    obtain ⟨⟨rfl, sameBody, rfl⟩, sameRest⟩ := same
    rw [inferBranches, inferBranches]
    apply (literals_tracks below literals).bind fun _ read => read.2.1
    intro _ _ _
    apply (inferBlock_tracks under body _ sameBody).bind fun _ read => read.1
    intro _ _ refines
    apply (inferBranches_tracks below refines.known.under rest _ sameRest).bind
      fun _ read => read.2.2
    intro _ _ refinesRest
    refine .pure ⟨?_, ?_, refines.known.trans refinesRest.known (·.1) (·.2)⟩
    · rintro ⟨⟩
      exact .append (refines.slots rfl) (refinesRest.slots rfl)
    · rw [Stmt.bareBranches, Stmt.bareBranches, refines.kept, refinesRest.kept]
termination_by structural branches

end

end Commands

/-! ## Definitions -/

theorem TablesBelow.refl (returns : Returns) : TablesBelow returns returns := by
  intro name
  cases returns.get? name with
  | none => exact .none
  | some types => exact .some (Ty.forall₂_refl types)

theorem Facts.Under.refl (facts : Facts) : facts.Under facts :=
  ⟨fun _ => .refl _, .refl facts.result⟩

theorem inferDefinition_tracks {returns more : Returns} (tables : TablesBelow returns more)
    {defn other : Definition} (same : defn.bare = other.bare) : Tracks (other.bare.AsRead ·)
      (Refines Definition.bare Definition.slots SlotBelow defn other)
      (inferDefinition returns defn) (inferDefinition more other) := by
  obtain ⟨kind, name, params, body, span⟩ := defn
  obtain ⟨_, _, _, otherBody, _⟩ := other
  simp only [Definition.bare, Definition.mk.injEq] at same
  obtain ⟨rfl, rfl, rfl, sameBody, rfl⟩ := same
  apply (inferBlock_tracks (fun _ => none) tables (.refl _) body otherBody sameBody).bind
    fun _ read => read.body
  intro _ _ refines
  refine .pure ⟨?_, congrArg (Definition.mk kind name params · span) refines.kept,
    refines.known.under.result⟩
  rintro ⟨⟩
  exact refines.slots rfl

end Inference

end StoneBoard
