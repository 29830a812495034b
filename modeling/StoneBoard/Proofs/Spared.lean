import StoneBoard.Proofs.Annotation
import StoneBoard.Proofs.Lines

/-!
# Names that are not assigned

A definition that passes the checks assigns neither its parameters nor, inside of a loop, the
index of the loop.  This does not depend on the types in its slots.
-/

namespace StoneBoard

variable {name : String} {span : Span}
variable {defn : Definition}

/-! ## Commands -/

namespace Stmt

theorem sparesAll_iff (fixed : List String) (body : List Stmt) :
    SparesAll fixed body ↔ ∀ stmt ∈ body, stmt.Spares fixed := by
  induction body with
  | nil => simp [SparesAll]
  | cons first rest ih => simp [SparesAll, ih]

mutual

theorem spares_bare (fixed : List String) (stmt : Stmt) :
    stmt.bare.Spares fixed ↔ stmt.Spares fixed := by
  cases stmt <;>
    simp only [bare, Spares, sparesAll_bareAll, sparesOptional_bareOptional,
      sparesBranches_bareBranches]

theorem sparesAll_bareAll (fixed : List String) (body : List Stmt) :
    SparesAll fixed (bareAll body) ↔ SparesAll fixed body := by
  cases body <;> simp only [bareAll, SparesAll, spares_bare, sparesAll_bareAll]

theorem sparesOptional_bareOptional (fixed : List String) (body : Option (List Stmt)) :
    SparesOptional fixed (bareOptional body) ↔ SparesOptional fixed body := by
  cases body <;> simp only [bareOptional, SparesOptional, sparesAll_bareAll]

theorem sparesBranches_bareBranches (fixed : List String) (branches : List Branch) :
    SparesBranches fixed (bareBranches branches) ↔ SparesBranches fixed branches := by
  rcases branches with _ | ⟨⟨_, _, _⟩, _⟩ <;>
    simp only [bareBranches, SparesBranches, sparesAll_bareAll, sparesBranches_bareBranches]

end

end Stmt

/-! ## Definitions -/

/-- A definition does not assign what it is given. -/
structure Definition.Careful (definition : Definition) : Prop where
  nodup : definition.parameters.Nodup
  identifiers : ∀ parameter ∈ definition.parameters, IsIdentifier parameter
  spares : Stmt.SparesAll definition.parameters definition.body

namespace Definition.Careful

theorem of_checkDefinition {env : Check.Environment}
    (checked : Check.checkDefinition env defn = .ok ())
    (identifiers : ∀ param ∈ defn.parameters, IsIdentifier param) : defn.Careful := by
  obtain ⟨-, -, -, nodup, spares⟩ :=
    (Check.checkDefinition_tracks (.refl env) defn).tracks () checked
  exact ⟨nodup, identifiers, spares⟩

theorem keeps {orig annotated : Definition} (careful : orig.Careful)
    (keeps : Inference.KeepsDefinition orig annotated) : annotated.Careful := by
  have sameParameters := keeps.parameters
  have sameBody : Stmt.bareAll annotated.body = Stmt.bareAll orig.body := by
    change annotated.bare.body = orig.bare.body
    rw [keeps]
  refine ⟨sameParameters ▸ careful.nodup, sameParameters ▸ careful.identifiers, ?_⟩
  rw [sameParameters, ← Stmt.sparesAll_bareAll, sameBody, Stmt.sparesAll_bareAll]
  exact careful.spares

end Definition.Careful

end StoneBoard
