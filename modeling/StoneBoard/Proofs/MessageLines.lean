import Mathlib.Data.List.DropRight
import Mathlib.Data.Nat.Digits.Defs
import StoneBoard.Proofs.WireForms

/-!
# Messages on lines

A message is written on one line and read from it again, whatever it carries, if it nests no
deeper than the reader allows.  Integers are the one part of a message that can be written in
several ways: with digits of zero at the end, with the sign zero in front of any digits, and
without digits after any sign.  All of these are read, and are written again in the one form
that writing has.
-/

namespace StoneBoard

open Json Wire List

variable {number : Int}

/-! ## Counts -/

def Cause.counts : Cause → List Nat
  | inModule _ _ inner => inner.counts
  | wrongArity _ expected found => [expected, found]
  | stackOverflow limit => [limit]
  | _ => []

def Span.counts (span : Span) : List Nat := [span.start, span.stop, span.line, span.column]

/-- The counts in a message; integers of programs are not among them. -/
def Message.counts : Message → List Nat
  | fail report => report.cause.counts ++ (report.span.map Span.counts).getD []
  | _ => []

theorem exact_nat {count : Nat} (small : count ≤ Text.maxCount) : (Json.nat count).Exact :=
  isWord_of_le small

theorem Cause.exact_of_counts {cause : Cause}
    (small : ∀ count ∈ cause.counts, count ≤ Text.maxCount) : cause.toJson.Exact := by
  induction cause with
  | inModule name location inner ih => exact ⟨⟨trivial, trivial, ih small, trivial⟩, trivial⟩
  | wrongArity routine expected found =>
    simp only [counts, forall_mem_cons] at small
    exact ⟨⟨trivial, exact_nat small.1, exact_nat small.2.1, trivial⟩, trivial⟩
  | stackOverflow limit =>
    simp only [counts, forall_mem_cons] at small
    exact ⟨exact_nat small.1, trivial⟩
  | expectedToken | typeMismatch | incomparableValues =>
    exact ⟨⟨trivial, trivial, trivial⟩, trivial⟩
  | unterminatedString | unterminatedComment | divisionByZero | negativeExponent | emptyList
  | conditionNotBoolean | noMain | interrupted => trivial
  | _ => exact ⟨trivial, trivial⟩

theorem Span.exact_of_counts {span : Span}
    (small : ∀ count ∈ span.counts, count ≤ Text.maxCount) : span.toJson.Exact := by
  simp only [counts, forall_mem_cons] at small
  obtain ⟨start, stop, line, column, -⟩ := small
  exact ⟨exact_nat start, exact_nat stop, exact_nat line, exact_nat column, trivial⟩

theorem Message.exact_of_counts {msg : Message}
    (small : ∀ count ∈ msg.counts, count ≤ Text.maxCount) : msg.toJson.Exact := by
  cases msg with
  | start => exact ⟨trivial, trivial, trivial, trivial, trivial⟩
  | exit => exact ⟨trivial, trivial⟩
  | log => exact ⟨trivial, trivial, trivial⟩
  | ok board result => exact ⟨trivial, trivial, exact_bindingsToJson result, trivial⟩
  | fail report =>
    obtain ⟨inCause, inSpan⟩ := List.forall_mem_append.mp small
    refine ⟨trivial, ErrorReport.exact_toJson (Cause.exact_of_counts inCause) ?_, trivial⟩
    intro span isSpan
    rw [isSpan] at inSpan
    exact Span.exact_of_counts inSpan

/-! ## Line breaks -/

namespace Json

def Printable (characters : List Char) : Prop :=
  ∀ character ∈ characters, 0x20 ≤ character.toNat

theorem printable_cons {first : Char} {rest : List Char} :
    Printable (first :: rest) ↔ 0x20 ≤ first.toNat ∧ Printable rest :=
  forall_mem_cons

theorem printable_append {first second : List Char} :
    Printable (first ++ second) ↔ Printable first ∧ Printable second :=
  forall_mem_append

theorem printable_flatMap {α : Type} {items : List α} {write : α → List Char} :
    Printable (items.flatMap write) ↔ ∀ item ∈ items, Printable (write item) := by
  simp only [Printable, mem_flatMap]
  constructor
  · intro all item mem char written
    exact all char ⟨item, mem, written⟩
  · rintro all char ⟨item, mem, written⟩
    exact all item mem char written

theorem printable_of_all {chars : List Char}
    (all : (chars.all fun char => decide (0x20 ≤ char.toNat)) = true) :
    Printable chars :=
  fun char mem => of_decide_eq_true (List.all_eq_true.mp all char mem)

theorem printable_controlEscape {char : Char} (isControl : char.toNat < 0x20) :
    Printable (controlEscape char).toList := by
  obtain ⟨high, highDigit, low, lowDigit, written, -⟩ := controlEscape_eq ⟨char.toNat, isControl⟩
  have start : Printable "\\u00".toList := printable_of_all (by decide)
  have highDigits : Printable "01".toList := printable_of_all (by decide)
  have lowDigits : Printable "0123456789abcdef".toList := printable_of_all (by decide)
  dsimp only at written
  rw [Char.ofNat_toNat] at written
  rw [written]
  exact printable_append.mpr ⟨start, List.forall_mem_cons.mpr
    ⟨highDigits high highDigit, List.forall_mem_singleton.mpr (lowDigits low lowDigit)⟩⟩

theorem printable_writtenCharacter (char : Char) : Printable (writtenCharacter char).toList := by
  unfold writtenCharacter
  split
  case h_8 =>
    split
    next isControl => exact printable_controlEscape isControl
    next isPlain =>
      rw [Char.toString, String.toList_singleton]
      exact List.forall_mem_singleton.mpr (Nat.le_of_not_lt isPlain)
  all_goals exact printable_of_all (by decide)

theorem printable_writtenString (text : String) : Printable (writtenString text).toList := by
  have chars : (writtenString text).toList =
      '"' :: (text.toList.flatMap (fun char => (writtenCharacter char).toList) ++
        ['"']) := by
    simp [writtenString, String.toList_join, flatMap_map]
  rw [chars, printable_cons, printable_append, printable_flatMap]
  exact ⟨by decide, fun char _ => printable_writtenCharacter char,
    printable_of_all (by decide)⟩

theorem printable_toString (number : Int) : Printable (toString number).toList := by
  rw [toList_toString, numberText, printable_append]
  constructor
  · split
    · exact printable_of_all (by decide)
    · exact forall_mem_nil _
  · intro char mem
    have isDigit := isDigit_toDigits _ char mem
    simp only [Char.isDigit, Bool.and_eq_true, decide_eq_true_eq, ge_iff_le, UInt32.le_iff_toNat_le]
      at isDigit
    exact le_trans (by decide) isDigit.1

mutual

theorem printable_render (json : Json) (isExact : json.Exact) : Printable json.render.toList := by
  match json with
  | .null | .bool true | .bool false | .array [] | .object [] => exact printable_of_all (by decide)
  | .int number => exact printable_toString number
  | .real text => exact isExact.elim
  | .string text => exact printable_writtenString text
  | .array (first :: rest) =>
    rw [toList_render_array, printable_cons, printable_append, printable_append, printable_flatMap]
    refine ⟨by decide, ⟨printable_render first isExact.1, ?_⟩, ?_⟩
    · intro item mem
      exact printable_cons.mpr ⟨by decide, printable_items rest isExact.2 item mem⟩
    · exact printable_of_all (by decide)
  | .object ((key, value) :: rest) =>
    rw [toList_render_object, printable_cons, printable_append, printable_append,
      printable_flatMap, fieldText, printable_append, printable_cons]
    refine ⟨by decide, ⟨⟨printable_writtenString key, by decide,
      printable_render value isExact.1⟩, ?_⟩, ?_⟩
    · intro field mem
      exact printable_cons.mpr ⟨by decide, printable_fields rest isExact.2 field mem⟩
    · exact printable_of_all (by decide)

theorem printable_items (items : List Json) (isExact : ExactItems items) :
    ∀ item ∈ items, Printable item.render.toList := by
  match items with
  | [] => exact forall_mem_nil _
  | first :: rest =>
    exact List.forall_mem_cons.mpr
      ⟨printable_render first isExact.1, printable_items rest isExact.2⟩

theorem printable_fields (fields : List (String × Json)) (isExact : ExactFields fields) :
    ∀ field ∈ fields, Printable (fieldText field) := by
  match fields with
  | [] => exact forall_mem_nil _
  | (key, value) :: rest =>
    refine List.forall_mem_cons.mpr ⟨?_, printable_fields rest isExact.2⟩
    rw [fieldText, printable_append, printable_cons]
    exact ⟨printable_writtenString key, by decide, printable_render value isExact.1⟩

end

end Json

/-! ## The forms of an integer -/

namespace Wire

variable {numbers : List Nat}
variable {sign : Int} {json : Json}

/-- A sign and digits, least significant first; only some of these are ever written. -/
def integerForm (sign : Int) (digits : List Nat) : Json :=
  .array [.int sign, .array (digits.map Json.nat)]

/-- The form in which the number of a form is written: without zeros at the end, and zero
without a sign. -/
def canonicalForm (sign : Int) (digits : List Nat) : Json :=
  let significant := digits.rdropWhile (· == 0)
  if sign = 0 ∨ significant = [] then integerForm 0 [] else integerForm sign significant

theorem digits_eq (number : Nat) : digits number = Nat.digits base number := by
  induction number using Nat.strong_induction_on with
  | _ number ih =>
    rw [digits]
    split
    next positive =>
      rw [Nat.digits_def' (by decide) positive,
        ih (number / base) (Nat.div_lt_self positive (by decide))]
    next isZero =>
      obtain rfl := Nat.eq_zero_of_not_pos isZero
      rw [Nat.digits_zero]

theorem ofDigits_eq (digits : List Nat) : ofDigits digits = Nat.ofDigits base digits := by
  induction digits with
  | nil => rfl
  | cons first rest ih => rw [Nat.ofDigits_cons, ← ih, ofDigits, foldr_cons, ofDigits]

theorem ofDigits_significant (digits : List Nat) :
    Nat.ofDigits base (digits.rdropWhile (· == 0)) = Nat.ofDigits base digits := by
  induction digits using List.reverseRecOn with
  | nil => rw [rdropWhile_nil]
  | append_singleton before last ih =>
    rw [rdropWhile_concat]
    split
    next isZero =>
      obtain rfl := beq_iff_eq.mp isZero
      rw [ih, Nat.ofDigits_append_zero]
    next => rfl

theorem digits_ofDigits (small : ∀ digit ∈ numbers, digit < base) :
    digits (Nat.ofDigits base numbers) = numbers.rdropWhile (· == 0) := by
  rw [← ofDigits_significant, digits_eq]
  apply Nat.digits_ofDigits base (by decide)
  · intro digit mem
    exact small digit ((List.rdropWhile_prefix _ _).subset mem)
  · intro nonempty isZero
    exact rdropWhile_last_not _ _ nonempty (beq_iff_eq.mpr isZero)

theorem integerToJson_zero : integerToJson 0 = integerForm 0 [] := by
  rw [integerToJson, Int.natAbs_zero, digits, dif_neg (Nat.lt_irrefl 0)]
  rfl

theorem integerToJson_form (isSign : sign ∈ [-1, 0, 1]) (small : ∀ digit ∈ numbers, digit < base) :
    integerToJson (sign * Nat.ofDigits base numbers) = canonicalForm sign numbers := by
  have written := digits_ofDigits small
  have sameNumber := ofDigits_significant numbers
  rw [canonicalForm]
  generalize numbers.rdropWhile (· == 0) = significant at written sameNumber ⊢
  generalize Nat.ofDigits base numbers = magnitude at written sameNumber ⊢
  split
  next isZero =>
    rcases isZero with rfl | rfl
    · rw [Int.zero_mul, integerToJson_zero]
    · obtain rfl := sameNumber
      rw [Nat.ofDigits_nil, Int.natCast_zero, Int.mul_zero, integerToJson_zero]
  next isNotZero =>
    obtain ⟨signed, some_digits⟩ := not_or.mp isNotZero
    have positive : 0 < magnitude := by
      rcases Nat.eq_zero_or_pos magnitude with rfl | positive
      · rw [digits, dif_neg (Nat.lt_irrefl 0)] at written
        exact absurd written.symm some_digits
      · exact positive
    have parts : (sign * magnitude).sign = sign ∧ (sign * magnitude).natAbs = magnitude := by
      simp only [mem_cons, not_mem_nil, or_false] at isSign
      rcases isSign with rfl | rfl | rfl
      · exact ⟨Int.sign_eq_neg_one_of_neg (by omega), by omega⟩
      · exact absurd rfl signed
      · exact ⟨Int.sign_eq_one_of_pos (by omega), by omega⟩
    rw [integerToJson, parts.1, parts.2, written, integerForm]

theorem digit?_eq_some {digit : Nat} :
    digit? json = some digit ↔ json = Json.nat digit ∧ digit < base := by
  rw [digit?, Option.filter_eq_some_iff]
  cases json with
  | int number =>
    cases number with
    | ofNat number => simp [Json.nat?, Json.nat]
    | negSucc number => simp [Json.nat?, Json.nat]
  | _ => simp [Json.nat?, Json.nat]

theorem mapM_digit?_eq_some {items : List Json} : items.mapM digit? = some numbers ↔
      items = numbers.map Json.nat ∧ ∀ digit ∈ numbers, digit < base := by
  constructor
  · intro read
    induction items generalizing numbers with
    | nil =>
      obtain rfl := Option.some.inj read
      exact ⟨rfl, forall_mem_nil _⟩
    | cons first rest ih =>
      rw [mapM_cons] at read
      simp only [Option.bind_eq_bind, Option.bind_eq_some_iff, Option.pure_def,
        Option.some.injEq] at read
      obtain ⟨digit, isDigit, later, areDigits, rfl⟩ := read
      obtain ⟨rfl, small⟩ := digit?_eq_some.mp isDigit
      obtain ⟨rfl, laterSmall⟩ := ih areDigits
      exact ⟨rfl, List.forall_mem_cons.mpr ⟨small, laterSmall⟩⟩
  · rintro ⟨rfl, small⟩
    exact mapM_digit? small

theorem integerOfJson?_eq_some :
    integerOfJson? json = some number ↔ ∃ sign numbers, json = integerForm sign numbers ∧
      sign ∈ [-1, 0, 1] ∧ (∀ digit ∈ numbers, digit < base) ∧
        number = sign * Nat.ofDigits base numbers := by
  constructor
  · intro read
    unfold integerOfJson? at read
    split at read
    next sign items =>
      simp only [Option.bind_eq_bind, Option.bind_eq_some_iff] at read
      obtain ⟨numbers, areDigits, signed⟩ := read
      obtain ⟨rfl, small⟩ := mapM_digit?_eq_some.mp areDigits
      refine ⟨sign, numbers, rfl, ?_⟩
      rw [ofDigits_eq] at signed
      split at signed
      next isZero =>
        obtain rfl := Option.some.inj signed
        exact ⟨by simp [isZero], small, by rw [isZero, Int.zero_mul]⟩
      next =>
        split at signed
        next isOne =>
          obtain rfl := Option.some.inj signed
          exact ⟨by simp [isOne], small, by rw [isOne, Int.one_mul]⟩
        next =>
          split at signed
          next isMinusOne =>
            obtain rfl := Option.some.inj signed
            exact ⟨by simp [isMinusOne], small, by rw [isMinusOne, Int.neg_one_mul]⟩
          next => cases signed
    next => cases read
  · rintro ⟨sign, numbers, rfl, isSign, small, rfl⟩
    rw [integerForm, integerOfJson?, mapM_digit? small]
    simp only [Option.bind_eq_bind, Option.bind_some, ofDigits_eq]
    generalize Nat.ofDigits base numbers = magnitude
    simp only [mem_cons, not_mem_nil, or_false] at isSign
    rcases isSign with rfl | rfl | rfl
    · simp
    · simp
    · simp

theorem exact_integerForm (isSign : sign ∈ [-1, 0, 1]) (small : ∀ digit ∈ numbers, digit < base) :
    (integerForm sign numbers).Exact := by
  have isShort : isWord sign = true := by
    simp only [mem_cons, not_mem_nil, or_false] at isSign
    rcases isSign with rfl | rfl | rfl <;> decide
  exact ⟨isShort, exactItems_digits small, trivial⟩

theorem depth_integerForm (sign : Int) (numbers : List Nat) :
    (integerForm sign numbers).depth ≤ 2 := by
  have flat : depthItems (numbers.map Json.nat) = 0 := by
    induction numbers with
    | nil => rfl
    | cons first rest ih =>
      have scalar : (Json.nat first).depth = 0 := by simp [Json.nat, depth]
      rw [map_cons, depthItems, scalar, ih, Nat.max_self]
  simp [integerForm, depth, depthItems, flat]

end Wire

namespace Message

def integerLine (board name : String) (form : Json) : String :=
  render (.object [("tag", .string "OK"), ("board", .string board),
    ("result", .array [.array [.string name, tagged "Int" form]])])

theorem encode_integer (board name : String) (number : Int) :
    encode (ok board [(name, .int number)]) = integerLine board name (integerToJson number) := by
  rw [integerLine, encode, toJson, map_singleton, bindingToJson, Value.toJson]

theorem decode_integerLine (board name : String) {form : Json} (isExact : form.Exact)
    (shallow : form.depth ≤ 2) (read : integerOfJson? form = some number) :
    decode (integerLine board name form) = .ok (ok board [(name, .int number)]) := by
  have exactLine : (Json.object [("tag", .string "OK"), ("board", .string board),
      ("result", .array [.array [.string name, tagged "Int" form]])]).Exact :=
    ⟨trivial, trivial, ⟨⟨trivial, ⟨isExact, trivial⟩, trivial⟩, trivial⟩, trivial⟩
  have value : Value.ofJson? true (tagged "Int" form) = some (.int number) := by
    rw [tagged, Value.ofJson?, read, Option.map_some]
  have binding : bindingOfJson? true (.array [.string name, tagged "Int" form]) =
      some (name, .int number) := by
    rw [bindingOfJson?, value, Option.map_some]
  have fields : ofJson? (.object [("tag", .string "OK"), ("board", .string board),
      ("result", .array [.array [.string name, tagged "Int" form]])]) =
      ([Json.array [.string name, tagged "Int" form]].mapM (bindingOfJson? true)).bind
        fun result => some (ok board result) := rfl
  rw [decode, decode?, integerLine, Json.read?_render exactLine, Option.bind_some, fields,
    mapM_cons, binding]
  · rfl
  · simp only [depth, depthFields, depthItems, tagged, nestingLimit]
    omega

end Message

end StoneBoard
