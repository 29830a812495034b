import StoneBoard.Proofs.Bare
import StoneBoard.Proofs.Places

/-!
# Programs as they are read

All that is read from a text stands on lines of the text.  The variables of a program that has been
read have names of the language, and its slots for types are empty.
-/

namespace StoneBoard

variable {span : Span}

/-! ## What is read -/

namespace Expr

variable (places : Span → Prop)

mutual

def AsRead : Expr → Prop
  | .literal _ span => places span
  | .variableRef name span => IsIdentifier name ∧ places span
  | .call _ arguments span types => AsReadAll arguments ∧ places span ∧ types = none
  | .binary _ left right span => left.AsRead ∧ right.AsRead ∧ places span
  | .not operand span => operand.AsRead ∧ places span
  | .negate operand span type => operand.AsRead ∧ places span ∧ type = none
  | .logical _ left right span => left.AsRead ∧ right.AsRead ∧ places span

def AsReadAll : List Expr → Prop
  | [] => True
  | first :: rest => first.AsRead ∧ AsReadAll rest

end

variable {places}

theorem AsRead.within {expr : Expr} (asRead : expr.AsRead places) : places expr.span := by
  cases expr with
  | literal => exact asRead
  | variableRef => exact asRead.2
  | call => exact asRead.2.1
  | binary => exact asRead.2.2
  | not => exact asRead.2
  | negate => exact asRead.2.1
  | logical => exact asRead.2.2

theorem asRead_listOf {items : List Expr} (asRead : AsReadAll places items)
    (within : places span) : (listOf items span).AsRead places := by
  induction items with
  | nil => exact ⟨trivial, within, rfl⟩
  | cons first rest ih => exact ⟨⟨asRead.1, ih asRead.2, trivial⟩, within, rfl⟩

mutual

theorem AsRead.named (expr : Expr) (asRead : expr.AsRead places) : expr.Named := by
  cases expr <;> simp only [AsRead] at asRead <;>
    simp [Named, asRead, AsRead.named, AsReadAll.named]

theorem AsReadAll.named (exprs : List Expr) (asRead : AsReadAll places exprs) : NamedAll exprs := by
  cases exprs <;> simp only [AsReadAll] at asRead <;>
    simp [NamedAll, asRead, AsRead.named, AsReadAll.named]

end

mutual

theorem AsRead.bare_eq (expr : Expr) (asRead : expr.AsRead places) : expr.bare = expr := by
  cases expr <;> simp only [AsRead] at asRead <;>
    simp [bare, asRead, AsRead.bare_eq, AsReadAll.bareAll_eq]

theorem AsReadAll.bareAll_eq (exprs : List Expr) (asRead : AsReadAll places exprs) :
    bareAll exprs = exprs := by
  cases exprs <;> simp only [AsReadAll] at asRead <;>
    simp [bareAll, asRead, AsRead.bare_eq, AsReadAll.bareAll_eq]

end

end Expr

namespace Stmt

variable (places : Span → Prop)

mutual

def AsRead : Stmt → Prop
  | .skip span => places span
  | .boom _ span => places span
  | .procedureCall _ arguments span => Expr.AsReadAll places arguments ∧ places span
  | .assign name value span => IsIdentifier name ∧ value.AsRead places ∧ places span
  | .tupleAssign names value span =>
      (∀ name ∈ names, IsIdentifier name) ∧ value.AsRead places ∧ places span
  | .ifElse condition thenBranch elseBranch span =>
      condition.AsRead places ∧ AsReadAll thenBranch ∧ AsReadOptional elseBranch ∧
        places span
  | .whileLoop condition body span =>
      condition.AsRead places ∧ AsReadAll body ∧ places span
  | .repeatWith index lower upper body span type =>
      IsIdentifier index ∧ lower.AsRead places ∧ upper.AsRead places ∧ AsReadAll body ∧
        places span ∧ type = none
  | .caseOf scrutinee branches fallback span =>
      scrutinee.AsRead places ∧ AsReadBranches branches ∧ AsReadOptional fallback ∧
        places span
  | .block body span => AsReadAll body ∧ places span
  | .returns values span types => Expr.AsReadAll places values ∧ places span ∧ types = none

def AsReadAll : List Stmt → Prop
  | [] => True
  | first :: rest => first.AsRead ∧ AsReadAll rest

def AsReadOptional : Option (List Stmt) → Prop
  | none => True
  | some body => AsReadAll body

def AsReadBranches : List Branch → Prop
  | [] => True
  | .on _ body span :: rest => AsReadAll body ∧ places span ∧ AsReadBranches rest

end

variable {places}

mutual

theorem AsRead.named (stmt : Stmt) (asRead : stmt.AsRead places) : stmt.Named := by
  cases stmt <;> simp only [AsRead] at asRead <;>
    simp +contextual [Named, asRead, @Expr.AsRead.named places, @Expr.AsReadAll.named places,
      AsReadAll.named, AsReadOptional.named, AsReadBranches.named]

theorem AsReadAll.named (body : List Stmt) (asRead : AsReadAll places body) : NamedAll body := by
  cases body <;> simp only [AsReadAll] at asRead <;>
    simp [NamedAll, asRead, AsRead.named, AsReadAll.named]

theorem AsReadOptional.named (body : Option (List Stmt)) (asRead : AsReadOptional places body) :
    NamedOptional body := by
  cases body <;> simp only [AsReadOptional] at asRead <;>
    simp [NamedOptional, asRead, AsReadAll.named]

theorem AsReadBranches.named (branches : List Branch) (asRead : AsReadBranches places branches) :
    NamedBranches branches := by
  rcases branches with _ | ⟨⟨_, _, _⟩, _⟩ <;> simp only [AsReadBranches] at asRead <;>
    simp [NamedBranches, asRead, AsReadAll.named, AsReadBranches.named]

end

mutual

theorem AsRead.bare_eq (stmt : Stmt) (asRead : stmt.AsRead places) : stmt.bare = stmt := by
  cases stmt <;> simp only [AsRead] at asRead <;>
    simp [bare, asRead, @Expr.AsRead.bare_eq places, @Expr.AsReadAll.bareAll_eq places,
      AsReadAll.bareAll_eq, AsReadOptional.bareOptional_eq, AsReadBranches.bareBranches_eq]

theorem AsReadAll.bareAll_eq (body : List Stmt) (asRead : AsReadAll places body) :
    bareAll body = body := by
  cases body <;> simp only [AsReadAll] at asRead <;>
    simp [bareAll, asRead, AsRead.bare_eq, AsReadAll.bareAll_eq]

theorem AsReadOptional.bareOptional_eq (body : Option (List Stmt))
    (asRead : AsReadOptional places body) : bareOptional body = body := by
  cases body <;> simp only [AsReadOptional] at asRead <;>
    simp [bareOptional, asRead, AsReadAll.bareAll_eq]

theorem AsReadBranches.bareBranches_eq (branches : List Branch)
    (asRead : AsReadBranches places branches) : bareBranches branches = branches := by
  rcases branches with _ | ⟨⟨_, _, _⟩, _⟩ <;> simp only [AsReadBranches] at asRead <;>
    simp [bareBranches, asRead, AsReadAll.bareAll_eq, AsReadBranches.bareBranches_eq]

end

end Stmt

structure Definition.AsRead (places : Span → Prop) (definition : Definition) : Prop where
  parameters : ∀ name ∈ definition.parameters, IsIdentifier name
  body : Stmt.AsReadAll places definition.body
  within : places definition.span

structure Import.AsRead (places : Span → Prop) (declaration : Import) : Prop where
  source : IsIdentifier declaration.source
  names : ∀ entry ∈ declaration.names, places entry.2
  within : places declaration.span

structure Program.AsRead (source : String) (program : Program) : Prop where
  imports : ∀ declaration ∈ program.imports, declaration.AsRead (Span.Within source)
  definitions : ∀ definition ∈ program.definitions, definition.AsRead (Span.On source)

namespace Definition.AsRead

variable {places : Span → Prop} {defn : Definition}

theorem named (asRead : defn.AsRead places) : defn.Named :=
  Stmt.AsReadAll.named defn.body asRead.body

theorem bare_eq (asRead : defn.AsRead places) : defn.bare = defn := by
  rw [bare, Stmt.AsReadAll.bareAll_eq defn.body asRead.body]

end Definition.AsRead

theorem Program.AsRead.bare_eq {src : String} {prog : Program} (asRead : prog.AsRead src) :
    prog.bare = prog := by
  have same : prog.definitions.map Definition.bare = prog.definitions :=
    (List.map_congr_left fun defn mem =>
      (asRead.definitions defn mem).bare_eq).trans (List.map_id _)
  rw [bare, same]

end StoneBoard
