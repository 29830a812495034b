import StoneBoard.Proofs.Checked

/-!
# Interfaces without types

The checks look at the shapes of routines only, and not at the types of their results.
-/

namespace StoneBoard

open List

def Interface.shapes (interface : Interface) : Table Shape :=
  interface.map fun entry => (entry.1, entry.2.shape)

namespace Interface

theorem get?_shapes (iface : Interface) (name : String) :
    iface.shapes.get? name = (iface.get? name).map RoutineInfo.shape := by
  induction iface with
  | nil => rfl
  | cons first rest ih =>
    rw [shapes, map_cons, Table.get?_cons, Table.get?_cons, ← shapes, ih]
    split <;> rfl

theorem shapes_cons (name : String) (info : RoutineInfo) (rest : Interface) :
    shapes ((name, info) :: rest) = (name, info.shape) :: shapes rest := rfl

theorem shapes_insert (iface : Interface) (name : String) (info : RoutineInfo) :
    shapes (iface.insert name info) = iface.shapes.insert name info.shape := by
  simp only [shapes, Table.insert, Table.erase, map_cons, filter_map]
  rfl

variable {first second : Interface}

theorem get?_of_shapes_eq (same : first.shapes = second.shapes) (name : String) :
    (first.get? name).map RoutineInfo.shape = (second.get? name).map RoutineInfo.shape := by
  rw [← get?_shapes, ← get?_shapes, same]

theorem contains_of_shapes_eq (same : first.shapes = second.shapes) (name : String) :
    first.contains name = second.contains name := by
  rw [Table.contains, Table.contains, ← Option.isSome_map (f := RoutineInfo.shape),
    get?_of_shapes_eq same, Option.isSome_map]

theorem sorted_names_eq (same : first.shapes = second.shapes) :
    first.sorted.map Prod.fst = second.sorted.map Prod.fst := by
  have sortedNames (iface : Interface) : iface.sorted.map Prod.fst =
      (iface.shapes.map Prod.fst).mergeSort fun first second => !(second < first) := by
    have pointwise : (iface.mergeSort fun first second => !(second.1 < first.1)).map Prod.fst =
        (iface.map Prod.fst).mergeSort fun first second => !(second < first) :=
      map_mergeSort fun _ _ _ _ => rfl
    rw [Table.sorted, pointwise, shapes, map_map]
    rfl
  rw [sortedNames, sortedNames, same]

end Interface

/-- Only the names of an interface matter for what is taken over from it. -/
theorem Library.missingNames_eq (iface : Interface) (prog : Program) :
    ((iface.sorted.filter fun (name, _) =>
      (prog.definition? name).isNone && !importsName prog name).map
        fun (name, _) => (name, Span.nowhere)) =
      ((iface.sorted.map Prod.fst).filter fun name =>
        (prog.definition? name).isNone && !importsName prog name).map
          fun name => (name, Span.nowhere) := by
  rw [filter_map, map_map]
  rfl

theorem Library.withPrelude_eq {prelude other : Interface} (same : prelude.shapes = other.shapes)
    (prog : Program) : withPrelude prelude prog = withPrelude other prog := by
  simp only [withPrelude]
  rw [missingNames_eq, missingNames_eq, Interface.sorted_names_eq same]

namespace Check

variable {other imported : Interface}

/-! ## Imports -/

theorem importNames_of_shapes {iface bareImported after : Interface} {decl : Import}
    (same : iface.shapes = other.shapes) (sameImported : imported.shapes = bareImported.shapes)
    (succeeds : importNames iface imported decl = .ok after) :
    ∃ bareAfter, importNames other bareImported decl = .ok bareAfter ∧
      after.shapes = bareAfter.shapes := by
  unfold importNames at succeeds ⊢
  generalize decl.names = names at succeeds ⊢
  induction names generalizing imported bareImported with
  | nil =>
    cases succeeds
    exact ⟨bareImported, rfl, sameImported⟩
  | cons entry rest ih =>
    obtain ⟨between, imports, succeedsRest⟩ := bind_eq_ok.mp succeeds
    obtain ⟨notMain, isNew, info, offered, rfl⟩ := importName_eq_ok.mp imports
    have known := Interface.get?_of_shapes_eq same entry.1
    rw [offered] at known
    obtain ⟨bareInfo, bareOffered, sameShape⟩ := Option.map_eq_some_iff.mp known.symm
    have stillNew : bareImported.get? entry.1 = none := by
      rw [← Option.map_eq_none_iff (f := RoutineInfo.shape),
        ← Interface.get?_of_shapes_eq sameImported, isNew, Option.map_none]
    have sameBetween : Interface.shapes ((entry.1, info) :: imported) =
        Interface.shapes ((entry.1, bareInfo) :: bareImported) := by
      rw [Interface.shapes_cons, Interface.shapes_cons, sameImported, sameShape]
    obtain ⟨bareAfter, bareSucceeds, sameAfter⟩ := ih sameBetween succeedsRest
    have bareImports : importName decl.source other bareImported entry =
        .ok ((entry.1, bareInfo) :: bareImported) :=
      importName_eq_ok.mpr ⟨notMain, stillNew, bareInfo, bareOffered, rfl⟩
    exact ⟨bareAfter, bind_eq_ok.mpr ⟨_, bareImports, bareSucceeds⟩, sameAfter⟩

/-! ## Calls -/

theorem Environment.within_of_shapes (same : imported.shapes = other.shapes)
    (locals : Interface) : Environment.Within ⟨locals, imported⟩ ⟨locals, other⟩ := by
  intro name shape isShape
  have known := Interface.get?_of_shapes_eq same name
  rw [← isShape]
  simp only [Environment.shape?, Environment.lookup?, Option.map_or, known]

/-- The types of what is imported do not matter to the checks. -/
theorem checkDefinitions_of_shapes {entry : Bool} {prog : Program}
    (same : imported.shapes = other.shapes)
    (checked : checkDefinitions entry imported prog = .ok ()) :
    checkDefinitions entry other prog = .ok () :=
  checkDefinitions_within (Environment.within_of_shapes same)
    (fun defn _ => (Interface.contains_of_shapes_eq same defn.name).symm) checked
    prog.imports

end Check

end StoneBoard
