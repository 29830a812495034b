import StoneBoard.Proofs.Success

/-!
# Places of errors

An error that is found before a program runs is static, and lies within the text at hand.
What has been read stands on a line of the text.
-/

namespace StoneBoard

/-- A stretch of a text.  Lines and columns count from one. -/
structure Span.Within (source : String) (span : Span) : Prop where
  start : span.start ≤ source.utf8ByteSize
  stop : span.stop ≤ source.utf8ByteSize
  line : span.line ≤ source.utf8ByteSize + 1
  column : span.column ≤ source.utf8ByteSize + 1

/-- A stretch of a text that begins on one of its lines. -/
structure Span.On (source : String) (span : Span) : Prop extends span.Within source where
  shown : ∃ line < (Text.lines source).length, span.line = line + 1

namespace Span

variable {src : String}

theorem within_nowhere : nowhere.Within src := by
  constructor <;> exact Nat.zero_le _

theorem On.extend {first last : Span} (firstOn : first.On src) (lastOn : last.On src) :
    (first.extend last).On src where
  start := firstOn.start
  stop := Nat.max_le.mpr ⟨lastOn.stop, firstOn.stop⟩
  line := firstOn.line
  column := firstOn.column
  shown := firstOn.shown

end Span

theorem Error.withSource_eq (error : Error) (src : String) :
    ∃ line, error.withSource src = { error with sourceLine := line } := by
  unfold withSource
  split
  · exact ⟨error.sourceLine, rfl⟩
  · split
    · exact ⟨error.sourceLine, rfl⟩
    · split
      · exact ⟨_, rfl⟩
      · exact ⟨error.sourceLine, rfl⟩

/-- An error that is found at one of some places, before anything runs. -/
structure Error.FoundIn (places : Span → Prop) (error : Error) : Prop where
  static : error.errorClass = .static
  place : ∃ span, error.span = some span ∧ places span

namespace Error.FoundIn

variable {places others : Span → Prop} {error : Error} {span : Span}

theorem located {cause : Cause} (static : cause.errorClass = .static) (within : places span) :
    (Error.located cause span).FoundIn places :=
  ⟨static, span, rfl, within⟩

theorem mono (found : error.FoundIn places) (within : ∀ span, places span → others span) :
    error.FoundIn others := by
  obtain ⟨static, span, isSpan, isPlace⟩ := found
  exact ⟨static, span, isSpan, within span isPlace⟩

theorem inFile (found : error.FoundIn places) (file : String) :
    (error.inFile file).FoundIn places :=
  ⟨found.static, found.place⟩

theorem withSource (found : error.FoundIn places) (src : String) :
    (error.withSource src).FoundIn places := by
  obtain ⟨line, same⟩ := error.withSource_eq src
  rw [same]
  exact ⟨found.static, found.place⟩

theorem reraise (found : error.FoundIn others) (name : String)
    (within : places span) : (error.reraise name span).FoundIn places :=
  ⟨found.static, span, rfl, within⟩

end Error.FoundIn

def FaultsIn {α : Type} (places : Span → Prop) (outcome : Except Error α) : Prop :=
  ∀ error, outcome = .error error → error.FoundIn places

namespace FaultsIn

variable {α β : Type} {places : Span → Prop}

theorem ok (value : α) : FaultsIn places (.ok value) := by
  intro error same
  cases same

theorem error {fault : Error} (found : fault.FoundIn places) :
    FaultsIn places (.error fault : Except Error α) := by
  intro error same
  cases same
  exact found

theorem bind {first : Except Error α} {next : α → Except Error β} (faults : FaultsIn places first)
    (continues : ∀ value, first = .ok value → FaultsIn places (next value)) :
    FaultsIn places (first >>= next) := by
  cases first with
  | error fault => exact .error (faults fault rfl)
  | ok value => exact continues value rfl

end FaultsIn

/-! ## Two computations -/

/-- Whenever the second computation succeeds, so does the first one, and the results are related.
If the second one fails, this is found at one of the places that something is read from. -/
structure Tracks {α β : Type} (Reads : (Span → Prop) → Prop) (Related : α → β → Prop)
    (less : Except Error α) (more : Except Error β) : Prop where
  tracks : ∀ told, more = .ok told → ∃ found, less = .ok found ∧ Related found told
  faults : ∀ places, Reads places → FaultsIn places more

namespace Tracks

variable {α β γ δ : Type} {Reads Early : (Span → Prop) → Prop} {Related : α → β → Prop}
  {Next : γ → δ → Prop}
variable {less : Except Error α} {more : Except Error β}

theorem pure {found : α} {told : β} (related : Related found told) :
    Tracks Reads Related (.ok found) (.ok told) := by
  refine ⟨fun result isTold => ?_, fun _ _ => .ok told⟩
  cases isTold
  exact ⟨found, rfl, related⟩

theorem bind {next : α → Except Error γ}
    {other : β → Except Error δ} (first : Tracks Early Related less more)
    (early : ∀ places, Reads places → Early places)
    (step : ∀ found told, Related found told → Tracks Reads Next (next found) (other told)) :
    Tracks Reads Next (less >>= next) (more >>= other) := by
  constructor
  · intro result succeeds
    obtain ⟨told, isTold, rest⟩ := bind_eq_ok.mp succeeds
    obtain ⟨found, isFound, related⟩ := first.tracks told isTold
    obtain ⟨last, isLast, relatedLast⟩ := (step found told related).tracks result rest
    exact ⟨last, bind_eq_ok.mpr ⟨found, isFound, isLast⟩, relatedLast⟩
  · intro places reads
    apply (first.faults places (early places reads)).bind
    intro told isTold
    obtain ⟨found, -, related⟩ := first.tracks told isTold
    exact (step found told related).faults places reads

theorem mono {Other : α → β → Prop}
    (tracks : Tracks Early Related less more) (early : ∀ places, Reads places → Early places)
    (implies : ∀ found told, Related found told → Other found told) :
    Tracks Reads Other less more := by
  refine ⟨fun told isTold => ?_, fun places reads => tracks.faults places (early places reads)⟩
  obtain ⟨found, isFound, related⟩ := tracks.tracks told isTold
  exact ⟨found, isFound, implies found told related⟩

end Tracks

end StoneBoard
