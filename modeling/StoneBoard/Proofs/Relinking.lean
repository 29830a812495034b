import StoneBoard.Proofs.Blame
import StoneBoard.Proofs.Recasting
import StoneBoard.Proofs.Safety

/-!
# Programs with more links

A first program that gets more links does the same as before: its runs never call a name that
stands for nothing, so they never come to the additional links.
-/

namespace StoneBoard

variable {file : String}

/-! ## Other links for the first program -/

/-- A module, with other links if it is the first program. -/
def CompiledModule.relink (links : Table (CompiledModule × Routine)) (home : CompiledModule) :
    CompiledModule :=
  if home.qualifier.isEmpty then { home with links } else home

variable {links : Table (CompiledModule × Routine)}

namespace CompiledModule

variable {home : CompiledModule}

@[simp]
theorem qualifier_relink : (home.relink links).qualifier = home.qualifier := by
  unfold relink
  split <;> rfl

@[simp]
theorem file_relink : (home.relink links).file = home.file := by
  unfold relink
  split <;> rfl

@[simp]
theorem routines_relink : (home.relink links).routines = home.routines := by
  unfold relink
  split <;> rfl

theorem relink_of_unqualified (unqualified : home.qualifier = "") :
    home.relink links = { home with links } := by
  rw [relink, unqualified]
  rfl

theorem Foreign.relink (foreign : home.Foreign) : home.relink links = home := by
  rw [CompiledModule.relink, if_neg]
  exact fun isEmpty => foreign.qualified (String.isEmpty_iff.mp isEmpty)

end CompiledModule

def Recast.relink (links : Table (CompiledModule × Routine)) : Recast where
  home := CompiledModule.relink links
  board := id
  log := id
  qualifier _ := CompiledModule.qualifier_relink
  file _ := CompiledModule.file_relink
  head _ := rfl
  run builtin arguments before := by rw [id]; cases builtin.run arguments before <;> rfl
  save _ := rfl
  record _ _ _ _ := rfl
  openMark _ := rfl

namespace Machine

variable {name : String} {count : Nat} {span : Span}

/-! ## Runs -/

def FailsAsExpected (maxDepth : Nat) (machine : Machine) : Prop :=
  ∀ budget error after, machine.run maxDepth budget = some (.error error, after) →
    error.cause.isExpected = true

variable {machine : Machine} {limit : Nat}

theorem FailsAsExpected.step (expected : machine.FailsAsExpected limit) {next : Machine}
    (stepped : machine.step limit = .next next) : next.FailsAsExpected limit := by
  intro budget error after failed
  apply expected (budget + 1) error after
  rw [run, stepped]
  exact failed

theorem FailsAsExpected.isDefined (expected : machine.FailsAsExpected limit)
    (isCall : machine.frame.routine.code[machine.frame.offset]? = some (.call name count, span))
    (unknown : machine.frame.home.exported? name = none) : Builtin.isDefined name = true := by
  cases isBuiltin : Builtin.ofName? name with
  | some builtin => rw [Builtin.isDefined, isBuiltin, Option.isSome_some]
  | none =>
    have sameHome : machine.advance.frame.home = machine.frame.home := rfl
    have fails : machine.step limit = machine.advance.fail (.undefinedRoutine name) := by
      simp only [Machine.step, isCall, execute, call, sameHome, unknown, isBuiltin]
    have unexpected := expected 1 (machine.advance.error (.undefinedRoutine name)) _
      (by rw [run, fails]; rfl)
    cases unexpected

structure AddsLinks (links : Table (CompiledModule × Routine)) (entry : CompiledModule) :
    Prop where
  kept : ∀ name link, Table.get? entry.links name = some link → Table.get? links name = some link
  reserved : ∀ name, Builtin.isDefined name = true → Table.get? links name = none

variable {entry : CompiledModule} {src : String} {file : String}

theorem AddsLinks.reads (adds : AddsLinks links entry) (isEntry : entry.IsEntry src file)
    (rooted : machine.Rooted entry) (expected : machine.FailsAsExpected limit)
    (isCall : machine.frame.routine.code[machine.frame.offset]? = some (.call name count, span)) :
    Reads (.relink links) machine.frame.home name := by
  change (machine.frame.home.relink links).exported? name =
    (machine.frame.home.exported? name).map fun link => (link.1.relink links, link.2)
  rcases rooted.belongs _ List.mem_cons_self with ⟨isHome, -⟩ | foreign
  · have isHome : machine.frame.home = entry := isHome
    have builtin := expected.isDefined isCall
    rw [isHome] at builtin ⊢
    simp only [CompiledModule.exported?, CompiledModule.routines_relink] at builtin ⊢
    cases own : entry.routines.get? name with
    | some routine => rfl
    | none =>
      rw [own] at builtin
      rw [CompiledModule.relink_of_unqualified isEntry.unqualified]
      cases isLink : Table.get? entry.links name with
      | some link =>
        simp only [adds.kept name link isLink, Option.map_some,
          (isEntry.linked name link isLink).relink]
      | none => simp only [adds.reserved name (builtin isLink), Option.map_none]
  · have foreign : machine.frame.home.Foreign := foreign
    rw [foreign.relink]
    cases exported : machine.frame.home.exported? name with
    | some link => rw [Option.map_some, (foreign.exported? exported).relink]
    | none => rfl

theorem Rooted.run_relink (rooted : machine.Rooted entry) (isEntry : entry.IsEntry src file)
    (adds : AddsLinks links entry) (expected : machine.FailsAsExpected limit) (budget : Nat) :
    (machine.recast (.relink links)).run limit budget = machine.run limit budget := by
  induction budget generalizing machine with
  | zero => rfl
  | succ budget ih =>
    have same := machine.step_recast limit
      (fun name count span isCall => adds.reads isEntry rooted expected isCall)
      fun span isLeave => ⟨rfl, rfl⟩
    rw [Machine.run, Machine.run, same]
    cases stepped : machine.step limit with
    | next next => exact ih (rooted.step isEntry stepped) (expected.step stepped)
    | done result scene => rfl
    | fault error scene => rfl

end Machine

/-- An accepted program fails for expected causes, wherever its runs start. -/
theorem Site.failsAsExpected {opts : Library.Settings} {src : String} {site : Site}
    (accepted : ofEntry? opts file src = some site) :
    ∃ compiled main, Library.fresh (Library.loadEntry opts file src) = .ok compiled ∧
      compiled.routines.get? "Main" = some main ∧
      ∀ limit scene, (Machine.start compiled main scene).FailsAsExpected limit := by
  obtain ⟨-, sound, modsSound, -⟩ := sound_of_ofEntry? accepted
  obtain ⟨compiled, defn, main, loaded, -, found, isMain, isRoutine, realizes⟩ :=
    compiled_of_ofEntry? accepted
  refine ⟨compiled, main, loaded, isRoutine, fun limit scene budget error after failed => ?_⟩
  have ends : (compiled.run limit budget scene).map Machine.ending =
      some (.error error.cause, after) := by
    simp only [CompiledModule.run, isRoutine, failed]
    rfl
  obtain ⟨fuel, evaluated⟩ :=
    (run_iff_outcome? found isMain isRoutine realizes limit scene _).mp ⟨budget, ends⟩
  have behaves := behaves_evaluate sound modsSound found limit fuel scene
  rw [outcome?] at evaluated
  rw [evaluated] at behaves
  exact behaves

/-- A program that is linked to more does the same as before. -/
theorem CompiledModule.IsEntry.run_relink {src : String} {entry : CompiledModule}
    (isEntry : entry.IsEntry src file) {main : Routine}
    (isMain : entry.routines.get? "Main" = some main) (adds : Machine.AddsLinks links entry)
    {limit : Nat} {scene : Scene}
    (expected : (Machine.start entry main scene).FailsAsExpected limit) (budget : Nat) :
    (entry.relink links).run limit budget scene = entry.run limit budget scene := by
  rw [CompiledModule.run, CompiledModule.run, routines_relink, isMain]
  exact (Machine.rooted_start isMain scene).run_relink isEntry adds expected budget

end StoneBoard
