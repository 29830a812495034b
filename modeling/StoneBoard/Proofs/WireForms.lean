import StoneBoard.Message
import StoneBoard.Proofs.JsonText
import StoneBoard.Proofs.Words

/-!
# Messages on the wire

Values, errors and messages are read from JSON as they were written.  Together with what holds
of JSON texts, a message is decoded from the line that it was encoded to.
-/

namespace StoneBoard

open Json Wire List

variable {numbers : List Nat}

/-! ## Integers -/

namespace Wire

theorem ofDigits_digits (number : Nat) : ofDigits (digits number) = number := by
  rw [digits]
  split
  next positive =>
    have smaller : number / base < number := Nat.div_lt_self positive (by decide)
    have rest := ofDigits_digits (number / base)
    rw [ofDigits] at rest ⊢
    rw [foldr_cons, rest]
    exact Nat.mod_add_div number base
  next isZero => exact (Nat.eq_zero_of_not_pos isZero).symm

theorem digits_lt (number : Nat) : ∀ digit ∈ digits number, digit < base := by
  rw [digits]
  split
  next positive =>
    have smaller : number / base < number := Nat.div_lt_self positive (by decide)
    intro digit mem
    rcases List.mem_cons.mp mem with rfl | later
    · exact Nat.mod_lt _ (by decide)
    · exact digits_lt (number / base) digit later
  next =>
    intro digit mem
    cases mem

theorem mapM_digit? (small : ∀ digit ∈ numbers, digit < base) :
    (numbers.map Json.nat).mapM digit? = some numbers := by
  induction numbers with
  | nil => rfl
  | cons first rest ih =>
    obtain ⟨firstSmall, restSmall⟩ := List.forall_mem_cons.mp small
    have read : digit? (Json.nat first) = some first := by
      simp [digit?, Json.nat, Json.nat?, firstSmall]
    rw [map_cons, mapM_cons, read, ih restSmall]
    rfl

theorem integerOfJson?_integerToJson (number : Int) :
    integerOfJson? (integerToJson number) = some number := by
  rw [integerToJson, integerOfJson?, mapM_digit? (digits_lt _)]
  simp only [Option.bind_eq_bind, Option.bind_some, ofDigits_digits]
  rcases Int.lt_trichotomy number 0 with negative | rfl | positive
  · have magnitude : -(number.natAbs : Int) = number := by omega
    rw [Int.sign_eq_neg_one_of_neg negative, magnitude]
    rfl
  · rfl
  · have magnitude : (number.natAbs : Int) = number := by omega
    rw [Int.sign_eq_one_of_pos positive, magnitude]
    rfl

end Wire

/-! ## Values -/

namespace Value

mutual

theorem ofJson?_toJson (lenient : Bool) (value : Value) :
    ofJson? lenient value.toJson = some value := by
  match value with
  | .int number =>
    rw [toJson, tagged, ofJson?, integerOfJson?_integerToJson, Option.map_some]
  | .bool truth => rfl
  | .color shade =>
    rw [toJson, tagged, ofJson?, plainTag?]
    simp [Color.ofName?_name]
  | .direction heading =>
    rw [toJson, tagged, ofJson?, plainTag?]
    simp [Direction.ofName?_name]
  | .list items =>
    rw [toJson, tagged, ofJson?, ofJsonAll?_toJsonAll lenient items, Option.map_some]

theorem ofJsonAll?_toJsonAll (lenient : Bool) (values : List Value) :
    ofJsonAll? lenient (toJsonAll values) = some values := by
  match values with
  | [] => rfl
  | first :: rest =>
    rw [toJsonAll, ofJsonAll?, ofJson?_toJson lenient first, ofJsonAll?_toJsonAll lenient rest]
    rfl

end

end Value

theorem Wire.bindingOfJson?_bindingToJson (lenient : Bool) (binding : String × Value) :
    bindingOfJson? lenient (bindingToJson binding) = some binding := by
  rw [bindingToJson, bindingOfJson?, Value.ofJson?_toJson, Option.map_some]

theorem Wire.mapM_bindingOfJson? (lenient : Bool) (bindings : Bindings) :
    (bindings.map bindingToJson).mapM (bindingOfJson? lenient) = some bindings := by
  induction bindings with
  | nil => rfl
  | cons first rest ih =>
    rw [map_cons, mapM_cons, bindingOfJson?_bindingToJson, ih]
    rfl

/-! ## Errors -/

theorem Span.ofJson?_toJson (lenient : Bool) (span : Span) :
    ofJson? lenient span.toJson = some span := by
  rfl

theorem Cause.ofJson?_toJson (lenient : Bool) (cause : Cause) :
    ofJson? lenient cause.toJson = some cause := by
  induction cause with
  | inModule name location inner ih =>
    have inField : innerOfJson? lenient [("module", .string name), ("location", .string location),
        ("inner", inner.toJson)] = some inner := ih
    rw [toJson, tagged, tag, ofJson?]
    simp only [inField]
    rfl
  | unexpectedCharacter char =>
    have single : singleCharacter? (String.singleton char) = some char := by
      rw [singleCharacter?, String.toList_singleton]
    rw [toJson, tagged, tag, ofJson?, ofPayload?]
    · simp [Json.string?, single]
    · simp
    · simp
  | emptyColor color => cases color <;> rfl
  | stoneOverflow color => cases color <;> rfl
  | cannotMove dir => cases dir <;> rfl
  | _ => rfl

theorem ErrorReport.ofJson?_toJson (lenient : Bool) (report : ErrorReport) :
    ofJson? lenient report.toJson = some report := by
  obtain ⟨errorClass, cause, span, file, backtrace⟩ := report
  have readClass : ErrorClass.ofTag? errorClass.tag = some errorClass := by
    cases errorClass <;> rfl
  have readSpan : optional? (Span.ofJson? lenient) (some (Json.ofOption Span.toJson span)) =
      some span := by
    cases span <;> rfl
  have readText (text : Option String) :
      optional? Json.string? (some (Json.ofOption .string text)) = some text := by
    cases text <;> rfl
  have fields : (Json.object [("class", .string errorClass.tag), ("kind", cause.toJson),
      ("span", Json.ofOption Span.toJson span), ("file", Json.ofOption .string file),
      ("backtrace", Json.ofOption .string backtrace)]).record? lenient
        ["class", "kind", "span", "file", "backtrace"] =
      some [some (.string errorClass.tag), some cause.toJson,
        some (Json.ofOption Span.toJson span), some (Json.ofOption .string file),
        some (Json.ofOption .string backtrace)] := rfl
  simp only [toJson, ofJson?, fields, plainTag?, readClass, Cause.ofJson?_toJson, readSpan,
    readText, Option.bind_eq_bind, Option.bind_some, Option.pure_def]

/-! ## Messages -/

theorem isWord_of_le {number : Nat} (small : number ≤ 18446744073709551615) :
    isWord number = true := by
  simp only [isWord, Bool.and_eq_true, decide_eq_true_eq]
  omega

theorem Wire.exactItems_digits (small : ∀ digit ∈ numbers, digit < base) :
    ExactItems (numbers.map Json.nat) := by
  induction numbers with
  | nil => trivial
  | cons first rest ih =>
    obtain ⟨firstSmall, restSmall⟩ := List.forall_mem_cons.mp small
    refine ⟨isWord_of_le ?_, ih restSmall⟩
    unfold base at firstSmall
    omega

theorem Wire.exact_integerToJson (number : Int) : (integerToJson number).Exact := by
  have sign : isWord number.sign = true := by
    rcases Int.lt_trichotomy number 0 with negative | rfl | positive
    · rw [Int.sign_eq_neg_one_of_neg negative]
      decide
    · decide
    · rw [Int.sign_eq_one_of_pos positive]
      decide
  exact ⟨sign, exactItems_digits (digits_lt number.natAbs), trivial⟩

mutual

theorem Value.exact_toJson (value : Value) : value.toJson.Exact := by
  match value with
  | .int number => exact ⟨exact_integerToJson number, trivial⟩
  | .bool _ | .color _ | .direction _ => exact ⟨trivial, trivial⟩
  | .list items => exact ⟨Value.exact_toJsonAll items, trivial⟩

theorem Value.exact_toJsonAll (values : List Value) : ExactItems (toJsonAll values) := by
  match values with
  | [] => trivial
  | first :: rest => exact ⟨Value.exact_toJson first, Value.exact_toJsonAll rest⟩

end

theorem Wire.exact_bindingsToJson (bindings : Bindings) :
    ExactItems (bindings.map bindingToJson) := by
  induction bindings with
  | nil => trivial
  | cons first rest ih => exact ⟨⟨trivial, first.2.exact_toJson, trivial⟩, ih⟩

theorem Cause.exact_of_static {cause : Cause} (static : cause.errorClass = .static) :
    cause.toJson.Exact := by
  induction cause with
  | inModule name location inner ih => exact ⟨⟨trivial, trivial, ih static, trivial⟩, trivial⟩
  | expectedToken | typeMismatch => exact ⟨⟨trivial, trivial, trivial⟩, trivial⟩
  | unexpectedCharacter | unexpectedToken | semantic | unknownRoutine | moduleNotFound
  | recursiveModules | boardFormat | io => exact ⟨trivial, trivial⟩
  | unterminatedString | unterminatedComment => trivial
  | _ => cases static

theorem ErrorReport.exact_toJson {report : ErrorReport} (cause : report.cause.toJson.Exact)
    (spans : ∀ span, report.span = some span → span.toJson.Exact) : report.toJson.Exact := by
  have text (text : Option String) : (Json.ofOption .string text).Exact := by
    cases text <;> trivial
  have span : (Json.ofOption Span.toJson report.span).Exact := by
    cases isSpan : report.span with
    | none => trivial
    | some span => exact spans span isSpan
  exact ⟨trivial, cause, span, text report.file, text report.backtrace, trivial⟩

namespace Message

theorem ofJson?_toJson (msg : Message) : ofJson? msg.toJson = some msg := by
  cases msg with
  | start => rfl
  | exit => rfl
  | log => rfl
  | ok board result =>
    have fields : ofJson? (ok board result).toJson =
      ((result.map bindingToJson).mapM (bindingOfJson? true)).bind
        fun result => some (ok board result) := rfl
    rw [fields, mapM_bindingOfJson?, Option.bind_some]
  | fail report =>
    have fields : ofJson? (fail report).toJson =
      (ErrorReport.ofJson? true report.toJson).map fail := rfl
    rw [fields, ErrorReport.ofJson?_toJson, Option.map_some]

theorem decode_encode {msg : Message} (isExact : msg.toJson.Exact)
    (shallow : msg.toJson.depth ≤ nestingLimit) : decode msg.encode = .ok msg := by
  rw [decode, decode?, encode, Json.read?_render isExact shallow, Option.bind_some, ofJson?_toJson]

theorem eq_of_decode_encode {msg other : Message} (isExact : msg.toJson.Exact)
    (decoded : decode msg.encode = .ok other) : other = msg := by
  unfold decode decode? encode at decoded
  cases read : Json.read? nestingLimit msg.toJson.render with
  | none => simp [read] at decoded
  | some json =>
    rw [read, Option.bind_some, Json.eq_of_read?_render isExact read, ofJson?_toJson] at decoded
    cases decoded
    rfl

theorem one_le_nestingLimit : 1 ≤ nestingLimit := by decide

theorem decode_start (filename src board : String) :
    decode (start filename src board).encode = .ok (start filename src board) :=
  decode_encode ⟨trivial, trivial, trivial, trivial, trivial⟩ one_le_nestingLimit

theorem decode_exit : decode exit.encode = .ok exit :=
  decode_encode ⟨trivial, trivial⟩ one_le_nestingLimit

theorem decode_log (text : String) : decode (log text).encode = .ok (log text) :=
  decode_encode ⟨trivial, trivial, trivial⟩ one_le_nestingLimit

theorem isEmpty_trim_encode (msg : Message) : (Text.trim msg.encode).isEmpty = false := by
  have opening : '\x7b' ∈ msg.encode.toList := by
    cases msg <;> simp [encode, toJson, Json.render]
  exact Text.isEmpty_trim opening (by decide)

end Message

end StoneBoard
