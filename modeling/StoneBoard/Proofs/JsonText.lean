import Mathlib.Data.List.TakeWhile
import StoneBoard.Json.Reader
import StoneBoard.Json.Writer

/-!
# JSON as text

What is written of a JSON value is read back as the same value, if its numbers are whole
numbers of 64 bits and it does not nest deeper than the reader allows.  The text of a value is
cut into the tokens of the value, and these build the value again.
-/

namespace StoneBoard.Json

open List

variable {rest : List Char} {value : Json} {limit : Nat} {pending : List Open}
variable {number : Int} {char : Char} {read : List Char}

/-! ## What can be read back -/

mutual

def Exact : Json → Prop
  | .int number => isWord number = true
  | .real _ => False
  | .array items => ExactItems items
  | .object fields => ExactFields fields
  | _ => True

def ExactItems : List Json → Prop
  | [] => True
  | first :: rest => first.Exact ∧ ExactItems rest

def ExactFields : List (String × Json) → Prop
  | [] => True
  | (_, value) :: rest => value.Exact ∧ ExactFields rest

end

mutual

def depth : Json → Nat
  | .array items => depthItems items + 1
  | .object fields => depthFields fields + 1
  | _ => 0

def depthItems : List Json → Nat
  | [] => 0
  | first :: rest => max first.depth (depthItems rest)

def depthFields : List (String × Json) → Nat
  | [] => 0
  | (_, value) :: rest => max value.depth (depthFields rest)

end

/-! ## Tokens -/

mutual

def tokens : Json → List Token
  | .array [] => [.openArray, .closeArray]
  | .array (first :: rest) => .openArray :: (first.tokens ++ laterItems rest ++ [.closeArray])
  | .object [] => [.openObject, .closeObject]
  | .object ((key, value) :: rest) =>
      .openObject :: .scalar (.string key) :: .colon ::
        (value.tokens ++ laterFields rest ++ [.closeObject])
  | scalar => [.scalar scalar]

def laterItems : List Json → List Token
  | [] => []
  | first :: rest => .comma :: (first.tokens ++ laterItems rest)

def laterFields : List (String × Json) → List Token
  | [] => []
  | (key, value) :: rest =>
      .comma :: .scalar (.string key) :: .colon :: (value.tokens ++ laterFields rest)

end

/-! ## One character -/

section Characters

variable {tokens : List Token} {read rest : List Char} {char : Char}

theorem tokensFrom_between : tokensFrom tokens .between (char :: rest) =
      match begin? char with
      | some (begun, mode) => tokensFrom (begun ++ tokens) mode rest
      | none => none :=
  rfl

theorem tokensFrom_begin {begun : List Token} {mode : Mode}
    (begins : begin? char = some (begun, mode)) :
    tokensFrom tokens .between (char :: rest) = tokensFrom (begun ++ tokens) mode rest := by
  rw [tokensFrom_between, begins]

theorem tokensFrom_number : tokensFrom tokens (.number read) (char :: rest) =
      if inNumber char then tokensFrom tokens (.number (char :: read)) rest
      else
        match number? read.reverse, begin? char with
        | some value, some (begun, mode) =>
          tokensFrom (begun ++ .scalar value :: tokens) mode rest
        | _, _ => none :=
  rfl

theorem tokensFrom_word : tokensFrom tokens (.word read) (char :: rest) =
      if char.isAlpha then tokensFrom tokens (.word (char :: read)) rest
      else
        match word? read.reverse, begin? char with
        | some value, some (begun, mode) =>
          tokensFrom (begun ++ .scalar value :: tokens) mode rest
        | _, _ => none :=
  rfl

theorem tokensFrom_string {state : StringState} :
    tokensFrom tokens (.string state read) (char :: rest) =
      match stringStep state read char with
      | .more state read => tokensFrom tokens (.string state read) rest
      | .done read =>
        tokensFrom (.scalar (.string (String.ofList read.reverse)) :: tokens) .between rest
      | .bad => none :=
  rfl

end Characters

/-! ## Numbers -/

theorem head?_toDigits (number : Nat) (positive : 0 < number) :
    (Nat.toDigits 10 number).head? ≠ some '0' := by
  rw [Nat.toDigits_eq_if (by decide)]
  split
  next small =>
    intro leading
    have digits : ∀ digit : Fin 10, 0 < digit.val → digit.val.digitChar ≠ '0' := by decide
    exact digits ⟨number, small⟩ positive (Option.some.inj leading)
  next large =>
    rw [head?_append, Option.or_of_isSome (by simp)]
    exact head?_toDigits (number / 10) (by omega)

theorem isDigit_toDigits (number : Nat) : ∀ char ∈ Nat.toDigits 10 number, char.isDigit = true :=
  fun _ mem => Nat.isDigit_of_mem_toDigits (by decide) (by decide) mem

theorem digitsToNat_toDigits (number : Nat) : digitsToNat (Nat.toDigits 10 number) = number :=
  Nat.ofDigitChars_toDigits (by decide) (by decide)

def numberText (negative : Bool) (number : Nat) : List Char :=
  (if negative then ['-'] else []) ++ Nat.toDigits 10 number

theorem readNumeral?_numberText (negative : Bool) (number : Nat) :
    readNumeral? (numberText negative number) =
      some ⟨negative, Nat.toDigits 10 number, [], 0, true⟩ := by
  have digits := isDigit_toDigits number
  have taken : (Nat.toDigits 10 number).takeWhile Char.isDigit = Nat.toDigits 10 number :=
    List.takeWhile_eq_self_iff.mpr digits
  have dropped : (Nat.toDigits 10 number).dropWhile Char.isDigit = [] :=
    List.dropWhile_eq_nil_iff.mpr digits
  have noSign : ∀ rest, Nat.toDigits 10 number ≠ '-' :: rest := by
    intro rest starts
    have isDigit := digits '-' (by rw [starts]; exact mem_cons_self)
    cases isDigit
  have noZero : ((Nat.toDigits 10 number).head? == some '0' &&
      decide (1 < (Nat.toDigits 10 number).length)) = false := by
    rcases Nat.eq_zero_or_pos number with rfl | positive
    · rfl
    · rw [beq_eq_false_iff_ne.mpr (head?_toDigits number positive), Bool.false_and]
  have some_digits : (Nat.toDigits 10 number).isEmpty = false :=
    List.isEmpty_eq_false_iff.mpr Nat.toDigits_ne_nil
  cases negative with
  | true =>
    simp only [numberText, readNumeral?, if_pos, cons_append, nil_append, taken,
      dropped, noZero, some_digits]
    rfl
  | false =>
    have unsigned : readNumeral? (Nat.toDigits 10 number) =
        some ⟨false, Nat.toDigits 10 number, [], 0, true⟩ := by
      unfold readNumeral?
      split
      next negative rest isSplit =>
        split at isSplit
        next _ starts => exact absurd starts (noSign _)
        next => 
          cases isSplit
          simp only [taken, dropped, noZero, some_digits]
          rfl
    exact unsigned

theorem toList_toString (number : Int) :
    (toString number).toList = numberText (decide (number < 0)) number.natAbs := by
  cases number with
  | ofNat number =>
    have repr : (toString (Int.ofNat number)).toList = Nat.toDigits 10 number :=
      String.toList_ofList
    have positive : decide (Int.ofNat number < 0) = false :=
      decide_eq_false (Int.not_lt.mpr (Int.natCast_nonneg number))
    rw [repr, positive]
    rfl
  | negSucc number =>
    have repr : (toString (Int.negSucc number)).toList = '-' :: Nat.toDigits 10 (number + 1) :=
      String.toList_append.trans (congrArg ("-".toList ++ ·) String.toList_ofList)
    rw [repr, decide_eq_true (Int.negSucc_lt_zero number)]
    rfl

theorem number?_toString (isShort : isWord number = true) :
    number? (toString number).toList = some (.int number) := by
  rw [toList_toString]
  by_cases negative : number < 0
  · have magnitude : -(number.natAbs : Int) = number := by omega
    have notZero : number.natAbs ≠ 0 := by omega
    rw [decide_eq_true negative]
    generalize number.natAbs = size at magnitude notZero
    simp [number?, readNumeral?_numberText, digitsToNat_toDigits, magnitude, isShort, notZero]
  · have magnitude : (number.natAbs : Int) = number := by omega
    rw [decide_eq_false negative]
    generalize number.natAbs = size at magnitude
    simp [number?, readNumeral?_numberText, digitsToNat_toDigits, magnitude, isShort]

/-! ## Strings -/

theorem controlEscape_eq : ∀ code : Fin 32, ∃ high ∈ "01".toList, ∃ low ∈ "0123456789abcdef".toList,
    (controlEscape (Char.ofNat code)).toList = ['\\', 'u', '0', '0', high, low] ∧
      hexDigit? high = some (code.val / 16) ∧ hexDigit? low = some (code.val % 16) := by
  have found : ∀ code : Fin 32,
      ("01".toList.any fun high => "0123456789abcdef".toList.any fun low =>
        decide ((controlEscape (Char.ofNat code)).toList = ['\\', 'u', '0', '0', high, low] ∧
          hexDigit? high = some (code.val / 16) ∧
          hexDigit? low = some (code.val % 16))) = true := by
    decide
  intro code
  obtain ⟨high, highDigit, foundLow⟩ := List.any_eq_true.mp (found code)
  obtain ⟨low, lowDigit, same⟩ := List.any_eq_true.mp foundLow
  exact ⟨high, highDigit, low, lowDigit, of_decide_eq_true same⟩

theorem unitStep_control {code : Nat} (isControl : code < 0x20) (read : List Char) :
    unitStep code none read = .more .plain (Char.ofNat code :: read) := by
  have notHigh : (decide (0xD800 ≤ code) && decide (code < 0xDC00)) = false := by
    simp only [Bool.and_eq_false_iff, decide_eq_false_iff_not]
    omega
  have notLow : (decide (0xDC00 ≤ code) && decide (code < 0xE000)) = false := by
    simp only [Bool.and_eq_false_iff, decide_eq_false_iff_not]
    omega
  simp only [unitStep, notHigh, notLow, Bool.false_eq_true, if_false]

theorem cut_control (tokens : List Token) (read rest : List Char) (isControl : char.toNat < 0x20) :
    tokensFrom tokens (.string .plain read) ((controlEscape char).toList ++ rest) =
      tokensFrom tokens (.string .plain (char :: read)) rest := by
  obtain ⟨high, -, low, -, written, highDigit, lowDigit⟩ := controlEscape_eq ⟨char.toNat, isControl⟩
  have same : Char.ofNat char.toNat = char := Char.ofNat_toNat char
  have zero : hexDigit? '0' = some 0 := by decide
  have code : 16 * (char.toNat / 16) + char.toNat % 16 = char.toNat := Nat.div_add_mod _ _
  dsimp only at written highDigit lowDigit
  rw [same] at written
  have last : stringStep (.hex 1 (char.toNat / 16) none) read low =
      .more .plain (char :: read) := by
    simp only [stringStep, lowDigit, code, unitStep_control isControl, same, le_refl, if_true]
  have before : stringStep (.hex 2 0 none) read high =
      .more (.hex 1 (char.toNat / 16) none) read := by
    simp [stringStep, highDigit]
  rw [written]
  change tokensFrom tokens (.string (.hex 2 0 none) read) (high :: low :: rest) = _
  rw [tokensFrom_string, before]
  dsimp only
  rw [tokensFrom_string, last]

theorem cut_character (tokens : List Token) (read rest : List Char) (char : Char) :
    tokensFrom tokens (.string .plain read) ((writtenCharacter char).toList ++ rest) =
      tokensFrom tokens (.string .plain (char :: read)) rest := by
  unfold writtenCharacter
  split
  case h_8 notQuote notBackslash _ _ _ _ _ =>
    split
    next isControl => exact cut_control tokens read rest isControl
    next isPlain =>
      have step : stringStep .plain read char = .more .plain (char :: read) := by
        simp only [stringStep, if_neg notQuote, if_neg notBackslash, if_neg isPlain]
      rw [Char.toString, String.toList_singleton, singleton_append, tokensFrom_string, step]
  all_goals rfl

theorem cut_characters (tokens : List Token) (read rest chars : List Char) :
    tokensFrom tokens (.string .plain read)
        (chars.flatMap (fun char => (writtenCharacter char).toList) ++ '"' :: rest) =
      tokensFrom (.scalar (.string (String.ofList (read.reverse ++ chars))) :: tokens)
        .between rest := by
  induction chars generalizing read with
  | nil =>
    rw [List.append_nil]
    rfl
  | cons first others ih =>
    rw [List.flatMap_cons, List.append_assoc, cut_character, ih, List.reverse_cons,
      List.append_assoc, List.singleton_append]

theorem cut_writtenString (tokens : List Token) (text : String) (rest : List Char) :
    tokensFrom tokens .between ((writtenString text).toList ++ rest) =
      tokensFrom (.scalar (.string text) :: tokens) .between rest := by
  have chars : (writtenString text).toList ++ rest =
      '"' :: (text.toList.flatMap (fun char => (writtenCharacter char).toList) ++
        '"' :: rest) := by
    simp [writtenString, String.toList_join, flatMap_map]
  rw [chars]
  change tokensFrom tokens (.string .plain []) _ = _
  rw [cut_characters, reverse_nil, nil_append, String.ofList_toList]

/-! ## Where numbers and words end -/

/-- What may follow a number or a word. -/
def Delimited : List Char → Prop
  | [] => True
  | character :: _ => character = ',' ∨ character = ']' ∨ character = '\x7d'

theorem cut_digits (tokens : List Token) (read rest : List Char) {digits : List Char}
    (inNumbers : ∀ char ∈ digits, inNumber char = true) :
    tokensFrom tokens (.number read) (digits ++ rest) =
      tokensFrom tokens (.number (digits.reverse ++ read)) rest := by
  induction digits generalizing read with
  | nil => rfl
  | cons first others ih =>
    obtain ⟨firstIn, othersIn⟩ := List.forall_mem_cons.mp inNumbers
    rw [cons_append, tokensFrom_number, if_pos firstIn, ih (first :: read) othersIn,
      reverse_cons, append_assoc, singleton_append]

theorem cut_numberEnd (tokens : List Token) (isNumber : number? read.reverse = some value)
    (delimited : Delimited rest) :
    tokensFrom tokens (.number read) rest = tokensFrom (.scalar value :: tokens) .between rest := by
  cases rest with
  | nil =>
    conv => lhs; rw [tokensFrom, isNumber]
    rfl
  | cons char later =>
    have ends : inNumber char = false := by
      rcases delimited with rfl | rfl | rfl <;> decide
    conv => lhs; rw [tokensFrom_number, ends, isNumber]
    rw [tokensFrom_between]
    cases begin? char with
    | none => rfl
    | some begun => rfl

theorem begin?_digit (isDigit : char.isDigit = true) : begin? char = some ([], .number [char]) := by
  unfold begin?
  split
  case h_8 =>
    have notSpace : isSpace char = false := by
      rw [isSpace]
      simp only [Bool.or_eq_false_iff, beq_eq_false_iff_ne]
      refine ⟨⟨⟨?_, ?_⟩, ?_⟩, ?_⟩ <;> rintro rfl <;> cases isDigit
    simp [notSpace, isDigit]
  all_goals cases isDigit

theorem cut_number (tokens : List Token) (isShort : isWord number = true)
    (delimited : Delimited rest) : tokensFrom tokens .between ((toString number).toList ++ rest) =
      tokensFrom (.scalar (.int number) :: tokens) .between rest := by
  have read := number?_toString isShort
  have numeric : ∀ char ∈ (toString number).toList,
      char.isDigit = true ∨ char = '-' := by
    intro char mem
    rw [toList_toString, numberText, mem_append] at mem
    rcases mem with sign | digit
    · right
      split at sign
      · exact List.mem_singleton.mp sign
      · cases sign
    · exact .inl (isDigit_toDigits _ char digit)
  cases written : (toString number).toList with
  | nil =>
    rw [written] at read
    cases read
  | cons first others =>
    rw [written] at read numeric
    have begins : begin? first = some ([], .number [first]) := by
      rcases numeric first mem_cons_self with isDigit | rfl
      · exact begin?_digit isDigit
      · rfl
    have inNumbers : ∀ char ∈ others, inNumber char = true := by
      intro char mem
      rcases numeric char (mem_cons_of_mem first mem) with isDigit | rfl
      · simp [inNumber, isDigit]
      · decide
    rw [cons_append, tokensFrom_begin begins, nil_append, cut_digits tokens [first] rest inNumbers]
    apply cut_numberEnd tokens _ delimited
    rw [reverse_append, reverse_reverse]
    exact read

theorem cut_wordEnd (tokens : List Token) (isWord : word? read.reverse = some value)
    (delimited : Delimited rest) :
    tokensFrom tokens (.word read) rest = tokensFrom (.scalar value :: tokens) .between rest := by
  cases rest with
  | nil => simp only [tokensFrom, isWord]
  | cons char later =>
    have ends : char.isAlpha = false := by
      rcases delimited with rfl | rfl | rfl <;> decide
    conv => lhs; rw [tokensFrom_word, ends, isWord]
    rw [tokensFrom_between]
    cases begin? char with
    | none => rfl
    | some begun => rfl

/-! ## Values -/

theorem renderItems_eq_map (items : List Json) : renderItems items = items.map render := by
  induction items with
  | nil => rfl
  | cons first rest ih => rw [renderItems, ih, map_cons]

def fieldText (field : String × Json) : List Char :=
  (writtenString field.1).toList ++ ':' :: field.2.render.toList

theorem toList_renderFields (fields : List (String × Json)) :
    (renderFields fields).map String.toList = fields.map fieldText := by
  induction fields with
  | nil => rfl
  | cons first rest ih =>
    obtain ⟨key, value⟩ := first
    rw [renderFields, map_cons, map_cons, ih, fieldText]
    simp

theorem intercalate_cons {α : Type} (separator first : List α) (rest : List (List α)) :
    separator.intercalate (first :: rest) = first ++ rest.flatMap (separator ++ ·) := by
  induction rest generalizing first with
  | nil => simp
  | cons second others ih => rw [intercalate_cons_cons, ih, flatMap_cons]; simp

theorem toList_render_array (first : Json) (rest : List Json) :
    (render (.array (first :: rest))).toList = '[' :: (first.render.toList ++
        rest.flatMap (fun item => ',' :: item.render.toList) ++ [']']) := by
  rw [render, renderItems_eq_map]
  simp [intercalate_cons, flatMap_map]

theorem toList_render_object (key : String) (value : Json) (rest : List (String × Json)) :
    (render (.object ((key, value) :: rest))).toList = '\x7b' :: (fieldText (key, value) ++
        rest.flatMap (fun field => ',' :: fieldText field) ++ ['\x7d']) := by
  rw [render]
  simp [toList_renderFields, intercalate_cons, flatMap_map]

def Cuts (text : List Char) (tokens : List Token) : Prop :=
  ∀ before rest, Delimited rest →
    tokensFrom before .between (text ++ rest) = tokensFrom (tokens.reverse ++ before) .between rest

namespace Cuts

variable {α : Type} {items : List α} {write : α → List Char} {text : List Char}
variable {tokens later : List Token}

theorem mark {token : Token} (begins : begin? char = some ([token], .between))
    (cuts : Cuts text tokens) : Cuts (char :: text) (token :: tokens) := by
  intro before rest delimited
  rw [cons_append, tokensFrom_begin begins, singleton_append, cuts _ rest delimited]
  simp

theorem append {more : List Char} (cuts : Cuts text tokens) (others : Cuts more later)
    (delimits : ∀ rest, Delimited rest → Delimited (more ++ rest)) :
    Cuts (text ++ more) (tokens ++ later) := by
  intro before rest delimited
  rw [append_assoc, cuts _ _ (delimits rest delimited), others _ rest delimited]
  simp

theorem delimited_flatMap (items : List α) (write : α → List Char) (delimited : Delimited rest) :
    Delimited (items.flatMap (fun item => ',' :: write item) ++ rest) := by
  cases items with
  | nil => exact delimited
  | cons first others => exact .inl rfl

theorem item {first : α} (others : Cuts (items.flatMap fun item => ',' :: write item) later)
    (cuts : Cuts (write first) tokens) :
    Cuts ((first :: items).flatMap fun item => ',' :: write item) (.comma :: (tokens ++ later)) :=
  (cuts.append others fun _ => delimited_flatMap items write).mark rfl

theorem enclosed {opening closing : Char} {opens closes : Token} (cuts : Cuts text tokens)
    (others : Cuts (items.flatMap fun item => ',' :: write item) later)
    (begins : begin? opening = some ([opens], .between))
    (ends : begin? closing = some ([closes], .between))
    (delimits : ∀ rest, Delimited (closing :: rest)) :
    Cuts (opening :: (text ++ items.flatMap (fun item => ',' :: write item) ++ [closing]))
      (opens :: (tokens ++ later ++ [closes])) := by
  have last : Cuts [closing] [closes] := Cuts.mark ends fun _ _ _ => rfl
  have inside := cuts.append others fun _ => delimited_flatMap items write
  exact (inside.append last fun rest _ => delimits rest).mark begins

theorem field (cuts : Cuts value.render.toList tokens) (key : String) :
    Cuts (fieldText (key, value)) (.scalar (.string key) :: .colon :: tokens) := by
  intro before rest delimited
  have colon : Cuts (':' :: value.render.toList) (.colon :: tokens) := cuts.mark rfl
  rw [fieldText, append_assoc, cut_writtenString, colon _ rest delimited]
  simp

end Cuts

mutual

theorem cut_render (json : Json) (isExact : json.Exact) : Cuts json.render.toList json.tokens := by
  match json with
  | .null | .bool true | .bool false =>
    exact fun before _ delimited => cut_wordEnd before rfl delimited
  | .int number => exact fun before _ delimited => cut_number before isExact delimited
  | .real _ => cases isExact
  | .string text => exact fun before rest _ => cut_writtenString before text rest
  | .array [] | .object [] => exact fun _ _ _ => rfl
  | .array (first :: others) =>
    rw [toList_render_array]
    exact (cut_render first isExact.1).enclosed (cut_laterItems others isExact.2) rfl rfl
      fun _ => .inr (.inl rfl)
  | .object ((key, value) :: others) =>
    rw [toList_render_object]
    exact ((cut_render value isExact.1).field key).enclosed (cut_laterFields others isExact.2) rfl
      rfl fun _ => .inr (.inr rfl)

theorem cut_laterItems (items : List Json) (isExact : ExactItems items) :
    Cuts (items.flatMap fun item => ',' :: item.render.toList) (laterItems items) := by
  match items with
  | [] => exact fun _ _ _ => rfl
  | first :: others => exact (cut_laterItems others isExact.2).item (cut_render first isExact.1)

theorem cut_laterFields (fields : List (String × Json)) (isExact : ExactFields fields) :
    Cuts (fields.flatMap fun field => ',' :: fieldText field) (laterFields fields) := by
  match fields with
  | [] => exact fun _ _ _ => rfl
  | (key, value) :: others =>
    exact (cut_laterFields others isExact.2).item ((cut_render value isExact.1).field key)

end

/-! ## Building -/

theorem buildAll_step {state next : Building} {token : Token}
    (built : build limit state token = some next) (rest : List Token) :
    buildAll limit state (token :: rest) = buildAll limit next rest := by
  rw [buildAll, built]

theorem buildAll_scalar {placed : Building} (places : place value pending = some placed)
    (rest : List Token) :
    buildAll limit ⟨pending, .value⟩ (.scalar value :: rest) = buildAll limit placed rest := by
  apply buildAll_step
  exact places

theorem buildAll_openArray (fits : pending.length < limit) (rest : List Token) :
    buildAll limit ⟨pending, .value⟩ (.openArray :: rest) =
      buildAll limit ⟨.array [] :: pending, .start⟩ rest := by
  apply buildAll_step
  exact if_pos fits

theorem buildAll_openObject (fits : pending.length < limit) (rest : List Token) :
    buildAll limit ⟨pending, .value⟩ (.openObject :: rest) =
      buildAll limit ⟨.object [] :: pending, .start⟩ rest := by
  apply buildAll_step
  exact if_pos fits

theorem buildAll_start (json : Json) (limit : Nat) (items : List Json) (outer : List Open)
    (rest : List Token) : buildAll limit ⟨.array items :: outer, .start⟩ (json.tokens ++ rest) =
      buildAll limit ⟨.array items :: outer, .value⟩ (json.tokens ++ rest) := by
  match json with
  | .null | .bool _ | .int _ | .real _ | .string _ => rfl
  | .array [] | .object [] => rfl
  | .array (_ :: _) | .object ((_, _) :: _) => rfl

mutual

/-- The tokens of a value build the value, in a place where one is expected. -/
theorem buildAll_tokens (json : Json) {limit : Nat} {pending : List Open} {placed : Building}
    (fits : pending.length + json.depth ≤ limit) (places : place json pending = some placed)
    (rest : List Token) :
    buildAll limit ⟨pending, .value⟩ (json.tokens ++ rest) = buildAll limit placed rest := by
  match json with
  | .null | .bool _ | .int _ | .real _ | .string _ => exact buildAll_scalar places rest
  | .array [] =>
    have closes : build limit ⟨.array [] :: pending, .start⟩ .closeArray = some placed := places
    rw [tokens, cons_append, singleton_append, buildAll_openArray fits, buildAll_step closes]
  | .array (first :: others) =>
    simp only [depth, depthItems] at fits
    have opened : pending.length < limit := by omega
    have inner : (Open.array [] :: pending).length + first.depth ≤ limit := by
      rw [length_cons]
      omega
    rw [tokens, cons_append, append_assoc, append_assoc,
      buildAll_openArray opened, buildAll_start, buildAll_tokens first inner rfl]
    apply buildAll_laterItems others (by omega)
    exact places
  | .object [] =>
    have closes : build limit ⟨.object [] :: pending, .start⟩ .closeObject = some placed := places
    rw [tokens, cons_append, singleton_append, buildAll_openObject fits, buildAll_step closes]
  | .object ((key, value) :: others) =>
    simp only [depth, depthFields] at fits
    have opened : pending.length < limit := by omega
    have inner : (Open.field [] key :: pending).length + value.depth ≤ limit := by
      rw [length_cons]
      omega
    rw [tokens, cons_append, cons_append, cons_append, append_assoc,
      append_assoc, buildAll_openObject opened, buildAll_step rfl, buildAll_step rfl,
      buildAll_tokens value inner rfl]
    apply buildAll_laterFields others (by omega)
    exact places

theorem buildAll_laterItems (items : List Json) {limit : Nat} {before : List Json}
    {outer : List Open} {placed : Building} (fits : outer.length + 1 + depthItems items ≤ limit)
    (places : place (.array (before.reverse ++ items)) outer = some placed) (rest : List Token) :
    buildAll limit ⟨.array before :: outer, .separator⟩ (laterItems items ++ .closeArray :: rest) =
      buildAll limit placed rest := by
  match items with
  | [] =>
    have closes : build limit ⟨.array before :: outer, .separator⟩ .closeArray = some placed := by
      rwa [append_nil] at places
    exact buildAll_step closes rest
  | first :: others =>
    simp only [depthItems] at fits
    have inner : (Open.array before :: outer).length + first.depth ≤ limit := by
      rw [length_cons]
      omega
    rw [laterItems, cons_append, append_assoc, buildAll_step rfl, buildAll_tokens first inner rfl]
    apply buildAll_laterItems others (by omega)
    rw [reverse_cons, append_assoc]
    exact places

theorem buildAll_laterFields (fields : List (String × Json)) {limit : Nat}
    {before : List (String × Json)} {outer : List Open} {placed : Building}
    (fits : outer.length + 1 + depthFields fields ≤ limit)
    (places : place (.object (before.reverse ++ fields)) outer = some placed) (rest : List Token) :
    buildAll limit ⟨.object before :: outer, .separator⟩
        (laterFields fields ++ .closeObject :: rest) = buildAll limit placed rest := by
  match fields with
  | [] =>
    have closes : build limit ⟨.object before :: outer, .separator⟩ .closeObject =
        some placed := by
      rwa [append_nil] at places
    exact buildAll_step closes rest
  | (key, value) :: others =>
    simp only [depthFields] at fits
    have inner : (Open.field before key :: outer).length + value.depth ≤ limit := by
      rw [length_cons]
      omega
    rw [laterFields, cons_append, cons_append, cons_append, append_assoc,
      buildAll_step rfl, buildAll_step rfl, buildAll_step rfl, buildAll_tokens value inner rfl]
    apply buildAll_laterFields others (by omega)
    rw [reverse_cons, append_assoc]
    exact places

end

theorem read?_render {json : Json} (isExact : json.Exact) (shallow : json.depth ≤ limit) :
    read? limit json.render = some json := by
  have cut : tokensFrom [] .between json.render.toList = some json.tokens := by
    have whole := cut_render json isExact [] [] trivial
    rwa [append_nil, append_nil, tokensFrom, reverse_reverse] at whole
  have built : buildAll limit ⟨[], .value⟩ json.tokens = some json := by
    have fits : ([] : List Open).length + json.depth ≤ limit := by simpa using shallow
    have whole := buildAll_tokens json fits rfl []
    rwa [append_nil, buildAll] at whole
  rw [read?, cut]
  exact built

/-! ## Deeper values -/

theorem nest?_of_le {more : Nat} {inner : Open} {next : Building} (le : limit ≤ more)
    (nested : nest? limit inner pending = some next) : nest? more inner pending = some next := by
  unfold nest? at nested ⊢
  split at nested
  next fits => rw [if_pos (Nat.lt_of_lt_of_le fits le), nested]
  next => cases nested

theorem build_of_le {more : Nat} {state next : Building} {token : Token} (le : limit ≤ more)
    (built : build limit state token = some next) : build more state token = some next := by
  unfold build at built ⊢
  split at built <;> first | exact built | exact nest?_of_le le built

theorem buildAll_of_le {more : Nat} {state : Building} {tokens : List Token} (le : limit ≤ more)
    (built : buildAll limit state tokens = some value) :
    buildAll more state tokens = some value := by
  fun_induction buildAll limit state tokens with
  | case1 => exact built
  | case2 => cases built
  | case3 state token rest next step ih =>
    rw [buildAll_step (build_of_le le step)]
    exact ih built
  | case4 => cases built

/-- Whatever is read from the text of a value is this value, however deep it is. -/
theorem eq_of_read?_render {json other : Json} (isExact : json.Exact)
    (read : read? limit json.render = some other) : other = json := by
  have whole := read?_render isExact (Nat.le_max_right limit json.depth)
  unfold read? at read whole
  split at read
  next tokens cut =>
    rw [cut] at whole
    exact Option.some.inj ((buildAll_of_le (Nat.le_max_left _ _) read).symm.trans whole)
  next => cases read

end StoneBoard.Json
