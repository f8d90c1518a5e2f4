import ProgressRules.Binary64.Literal
import ProgressRules.Proofs.Binary64.Nearest
import ProgressRules.Proofs.Document.Grammar
import ProgressRules.Proofs.Text.Digits

/-! Numbers in documents. The shortest numeral of a finite number is laid out as a whole part with a
fraction, an exponent or both. It is a number of the grammar, and it is read back. -/

namespace ProgressRules

open Text (IsRun Stops)

/-! ### Shortest decimals as literals -/

namespace Magnitude

variable {m : Magnitude}

theorem shortest_pos (some : m.units ≠ 0) : 0 < m.shortest.1 := by
  apply Nat.pos_of_ne_zero
  intro zero
  apply some
  rw [← m.roundUnits_shortest, zero, Nat.zero_mul, Nat.zero_mul, roundUnits_zero]

/-- The shortest decimal is rounded to the magnitude at whatever scale it is given. -/
theorem roundUnits_scaled (m : Magnitude) {zeros up down : Nat}
    (same : zeros + up + 324 = m.shortest.2 + down) :
    roundUnits (m.shortest.1 * 10 ^ zeros * Nat.pow 10 up * unitsPerOne) (Nat.pow 10 down) =
      m.units := by
  refine (roundUnits_congr (Nat.pow_pos (by decide)) gridPerOne_pos ?_).trans m.roundUnits_shortest
  have scale : 10 ^ zeros * 10 ^ up * 10 ^ 324 = 10 ^ m.shortest.2 * 10 ^ down := by
    rw [← Nat.pow_add, ← Nat.pow_add, ← Nat.pow_add, same]
  simp only [gridPerOne, Nat.pow_eq]
  calc m.shortest.1 * 10 ^ zeros * 10 ^ up * unitsPerOne * 10 ^ 324
      = m.shortest.1 * unitsPerOne * (10 ^ zeros * 10 ^ up * 10 ^ 324) := by ring
    _ = m.shortest.1 * 10 ^ m.shortest.2 * unitsPerOne * 10 ^ down := by rw [scale]; ring

end Magnitude

namespace Binary64

/-- The literal of the shortest decimal stands for the number, also with more zeros at its end. -/
theorem ofDecimal_shortest (m : Magnitude) (negative : Bool) (zeros : Nat) :
    ofDecimal negative (m.shortest.1 * 10 ^ zeros) (m.shortest.2 - 324 - zeros) =
      .finite negative m := by
  rw [ofDecimal_eq_ofRatio]
  exact ofRatio_eq (m.roundUnits_scaled (by omega))

end Binary64

namespace Json

/-! ### Parts of numbers -/

/-- The parts of a number without its sign. An exponent is given by its sign and its digits. -/
structure Written where
  whole : Text
  fraction : Text
  exponent : Option (Char × Text)

def Closes (rest : Text) : Prop :=
  Stops (fun c => c.isDigit || c == '.' || c == 'e' || c == 'E') rest

theorem IsWhole.exists_digit {text : Text} (h : IsWhole text) :
    ∃ c digits, text = c :: digits ∧ c.isDigit = true := by
  cases h with
  | zero => exact ⟨'0', [], rfl, rfl⟩
  | digits first => exact ⟨_, _, rfl, first⟩

namespace Written

def fractionText (w : Written) : Text := if w.fraction = [] then [] else '.' :: w.fraction

def exponentText (w : Written) : Text :=
  match w.exponent with
  | none => []
  | some (sign, digits) => 'e' :: sign :: digits

def text (w : Written) : Text := w.whole ++ w.fractionText ++ w.exponentText

def exponentValue? (w : Written) : Option Int :=
  w.exponent.map fun (sign, digits) =>
    if sign = '-' then -(Text.natValue digits : Int) else Text.natValue digits

structure WellFormed (w : Written) : Prop where
  whole : IsWhole w.whole
  fraction : ∀ c ∈ w.fraction, c.isDigit = true
  exponent : ∀ e ∈ w.exponent, e.1 ∈ ['+', '-'] ∧ IsRun Char.isDigit e.2

variable {w : Written} {rest : Text}

theorem WellFormed.isNumber (h : w.WellFormed) (negative : Bool) :
    IsNumber (Binary64.signed negative w.text) := by
  have fraction : IsFraction w.fractionText := by
    unfold fractionText
    split
    · exact .none
    · exact .some ⟨‹_›, h.fraction⟩
  have exponent : IsExponent w.exponentText := by
    unfold exponentText
    split
    · exact .none
    · rename_i sign digits same
      obtain ⟨member, run⟩ := h.exponent _ same
      have sign : [sign] ∈ [[], ['+'], ['-']] := by simpa using member
      exact .some (by simp) sign run
  have sign : ∀ sign ∈ [[], ['-']],
      IsNumber (sign ++ w.whole ++ w.fractionText ++ w.exponentText) :=
    fun sign member => .parts member h.whole fraction exponent
  cases negative with
  | false => exact sign [] (by decide)
  | true => exact sign ['-'] (by decide)

/-! ### Reading -/

theorem readWhole_append {whole : Text} (h : IsWhole whole) (stops : Stops Char.isDigit rest) :
    readWhole (whole ++ rest) = some (whole, rest) := by
  cases h with
  | zero => rfl
  | digits first other others =>
    rename_i c digits
    have run : IsRun isDecimal (c :: digits) :=
      ⟨List.cons_ne_nil _ _, List.forall_mem_cons.2 ⟨first, others⟩⟩
    rw [List.cons_append, readWhole]
    · exact Text.run_append run stops
    · exact fun _ same => other (List.cons.inj same).1

theorem stops_exponentText (closes : Closes rest) :
    Stops (fun c => c.isDigit || c == '.') (w.exponentText ++ rest) := by
  unfold exponentText
  split
  · exact closes.mono fun c other => by simp_all
  · exact Text.stops_cons.2 (by decide)

theorem readFraction_append (h : w.WellFormed) (closes : Closes rest) :
    (readFraction (w.fractionText ++ (w.exponentText ++ rest))).getD
      ([], w.fractionText ++ (w.exponentText ++ rest)) = (w.fraction, w.exponentText ++ rest) := by
  have stops := stops_exponentText (w := w) closes
  generalize w.exponentText ++ rest = after at stops ⊢
  unfold fractionText
  split
  · rename_i none
    rw [none, List.nil_append, readFraction]
    · rfl
    · intro more same
      subst same
      exact absurd (Text.stops_cons.1 stops) (by decide)
  · rename_i some
    have digits : Stops isDecimal after := stops.mono fun c other => by simp_all [isDecimal]
    have run := Text.run_append (p := isDecimal) ⟨some, h.fraction⟩ digits
    rw [List.cons_append, readFraction, run]
    rfl

theorem readExponent_append (h : w.WellFormed) (closes : Closes rest) :
    readExponent (w.exponentText ++ rest) = some (w.exponentValue?, rest) := by
  unfold exponentText exponentValue?
  split
  · rename_i none
    rw [none, List.nil_append]
    cases rest with
    | nil => rfl
    | cons c rest =>
      have other := Text.stops_cons.1 closes
      simp only [Bool.or_eq_false_iff] at other
      simp [readExponent, other.1.2, other.2]
  · rename_i sign digits some
    obtain ⟨member, run⟩ := h.exponent _ some
    have stops : Stops isDecimal rest := closes.mono fun c other => by simp_all [isDecimal]
    have read := Text.run_append (p := isDecimal) run stops
    simp only [List.mem_cons, List.not_mem_nil, or_false] at member
    rcases member with rfl | rfl
    · simp [readExponent, read, some]
    · simp [readExponent, read, some]

theorem readNumber_append (h : w.WellFormed) (closes : Closes rest) (negative : Bool) :
    readNumber (Binary64.signed negative w.text ++ rest) =
      if w.fraction.isEmpty && w.exponentValue?.isNone then
        if Text.digitLimit < w.whole.length then .error (.integerTooLong w.whole.length)
        else .ok (.integer
          (if negative then -(Text.natValue w.whole : Int) else Text.natValue w.whole), rest)
      else .ok (.real (.ofDecimal negative (Text.natValue (w.whole ++ w.fraction))
        (w.exponentValue?.getD 0 - w.fraction.length)), rest) := by
  have text : w.text ++ rest = w.whole ++ (w.fractionText ++ (w.exponentText ++ rest)) := by
    simp only [Written.text, List.append_assoc]
  have stops : Stops Char.isDigit (w.fractionText ++ (w.exponentText ++ rest)) := by
    unfold fractionText
    split
    · exact (stops_exponentText (w := w) closes).mono fun c other => by simp_all
    · exact Text.stops_cons.2 (by decide)
  have whole := readWhole_append h.whole stops
  have fraction := readFraction_append h closes
  have exponent := readExponent_append h closes
  have unsigned : ∀ more, w.text ++ rest ≠ '-' :: more := by
    intro more same
    rw [text] at same
    obtain ⟨c, digits, first, digit⟩ := h.whole.exists_digit
    rw [first] at same
    rw [(List.cons.inj same).1] at digit
    cases digit
  unfold readNumber
  cases negative with
  | true =>
    simp only [Binary64.signed, if_true, List.cons_append, text, whole, fraction, exponent,
      orMalformed, bind, Except.bind, pure, Except.pure]
    split <;> [split; skip] <;> rfl
  | false =>
    rw [text] at unsigned
    simp only [Binary64.signed, Bool.false_eq_true, if_false, text, whole, fraction, exponent,
      orMalformed, bind, Except.bind, pure, Except.pure]
    split <;> [split; skip] <;> rfl

/-! ### Laying out -/

def exponentDigits (n : Nat) : Text :=
  if (Text.ofNat n).length < 2 then '0' :: Text.ofNat n else Text.ofNat n

/-- The parts in which digits are laid out whose point stands at the given place. -/
def lay (digits : Text) (place : Int) : Written :=
  if -4 < place && place ≤ 16 then
    if place ≤ 0 then ⟨['0'], List.replicate (-place).toNat '0' ++ digits, none⟩
    else if digits.length ≤ place.toNat then
      ⟨digits ++ List.replicate (place.toNat - digits.length) '0', ['0'], none⟩
    else ⟨digits.take place.toNat, digits.drop place.toNat, none⟩
  else ⟨digits.take 1, digits.drop 1,
    some (if place - 1 < 0 then '-' else '+', exponentDigits (place - 1).natAbs)⟩

variable {digits : Text} {place : Int}

theorem text_lay (some : digits ≠ []) :
    (lay digits place).text = Magnitude.layOut digits place := by
  unfold lay Magnitude.layOut
  split
  · split
    · simp [Written.text, fractionText, exponentText, some]
    · split
      · simp [Written.text, fractionText, exponentText]
      · rename_i long
        have behind : digits.drop place.toNat ≠ [] := by
          rw [ne_eq, List.drop_eq_nil_iff]
          exact long
        simp [Written.text, fractionText, exponentText, behind]
  · cases digits with
    | nil => exact absurd rfl some
    | cons d more =>
      cases more <;>
        simp [Written.text, fractionText, exponentText, Magnitude.exponentText, exponentDigits]

theorem exponentDigits_isRun (n : Nat) : IsRun Char.isDigit (exponentDigits n) := by
  unfold exponentDigits
  split
  · exact ⟨List.cons_ne_nil _ _, List.forall_mem_cons.2 ⟨rfl, fun c => Text.isDigit_of_mem_ofNat⟩⟩
  · exact ⟨Text.ofNat_ne_nil n, fun c => Text.isDigit_of_mem_ofNat⟩

theorem natValue_exponentDigits (n : Nat) : Text.natValue (exponentDigits n) = n := by
  unfold exponentDigits
  split
  · exact Text.natValue_ofNat n
  · exact Text.natValue_ofNat n

theorem signed_exponentDigits (exponent : Int) :
    (if (if exponent < 0 then '-' else '+') = '-' then
      -(Text.natValue (exponentDigits exponent.natAbs) : Int)
    else Text.natValue (exponentDigits exponent.natAbs)) = exponent := by
  rw [natValue_exponentDigits]
  by_cases negative : exponent < 0
  · rw [if_pos negative, if_pos rfl]
    omega
  · rw [if_neg negative, if_neg (by decide)]
    omega

theorem lay_wellFormed {n : Nat} (positive : 0 < n) (place : Int) :
    (lay (Text.ofNat n) place).WellFormed := by
  obtain ⟨d, more, same, digit, first, others⟩ := Text.exists_ofNat_eq_cons positive
  have all : ∀ c ∈ d :: more, c.isDigit = true := List.forall_mem_cons.2 ⟨digit, others⟩
  rw [same]
  have front : ∀ {k : Nat}, 0 < k → IsWhole ((d :: more).take k) := by
    intro k some
    obtain ⟨k, rfl⟩ := Nat.exists_eq_succ_of_ne_zero some.ne'
    exact .digits digit first fun c inside => others c (List.mem_of_mem_take inside)
  have back : ∀ k, ∀ c ∈ (d :: more).drop k, c.isDigit = true :=
    fun k c inside => all c (List.mem_of_mem_drop inside)
  unfold lay
  split
  · split
    · refine ⟨.zero, fun c inside => ?_, by simp⟩
      exact (List.mem_append.1 inside).elim Text.isDigit_of_mem_zeros (all c)
    · split
      · refine ⟨.digits digit first fun c inside => ?_, List.forall_mem_singleton.2 rfl, by simp⟩
        exact (List.mem_append.1 inside).elim (others c) Text.isDigit_of_mem_zeros
      · exact ⟨front (by omega), back _, by simp⟩
  · refine ⟨front Nat.one_pos, back 1, ?_⟩
    rintro e ⟨rfl⟩
    refine ⟨?_, exponentDigits_isRun _⟩
    split <;> simp

theorem lay_value (n : Nat) (place : Int) : ∃ zeros : Nat,
    Text.natValue ((lay (Text.ofNat n) place).whole ++ (lay (Text.ofNat n) place).fraction) =
      n * 10 ^ zeros ∧
    (lay (Text.ofNat n) place).exponentValue?.getD 0 - (lay (Text.ofNat n) place).fraction.length =
      place - (Text.ofNat n).length - zeros := by
  have value := Text.natValue_ofNat n
  have some : 0 < (Text.ofNat n).length := List.length_pos_iff.2 (Text.ofNat_ne_nil n)
  unfold lay
  split
  · split
    · refine ⟨0, ?_, ?_⟩
      · have zeros := Text.natValue_zeros ((-place).toNat + 1)
        rw [← List.append_assoc, Text.natValue_append _ fun c => Text.isDigit_of_mem_ofNat, value]
        rw [List.replicate_succ] at zeros
        simp [zeros]
      · simp [exponentValue?]
        omega
    · split
      · refine ⟨place.toNat - (Text.ofNat n).length + 1, ?_, ?_⟩
        · rw [List.append_assoc, ← List.replicate_succ',
            Text.natValue_append _ fun c => Text.isDigit_of_mem_zeros, Text.natValue_zeros, value, List.length_replicate, Nat.add_zero]
        · simp [exponentValue?]
          omega
      · refine ⟨0, ?_, ?_⟩
        · simp [List.take_append_drop, value]
        · simp [exponentValue?]
          omega
  · refine ⟨0, ?_, ?_⟩
    · simp only [List.take_append_drop, value, Nat.pow_zero, Nat.mul_one]
    · simp only [exponentValue?, Option.map_some, Option.getD_some, signed_exponentDigits,
        List.length_drop]
      omega

theorem lay_real (some : digits ≠ []) :
    ((lay digits place).fraction.isEmpty && (lay digits place).exponentValue?.isNone) = false := by
  unfold lay
  split
  · split
    · simp [some]
    · split
      · simp
      · rename_i long
        have behind : digits.drop place.toNat ≠ [] := by
          rw [ne_eq, List.drop_eq_nil_iff]
          exact long
        simp [behind]
  · simp [exponentValue?]

/-! ### Numerals -/

def ofNat (n : Nat) : Written := ⟨Text.ofNat n, [], none⟩

def ofMagnitude (m : Magnitude) : Written :=
  if m.units = 0 then ⟨['0'], ['0'], none⟩
  else
    lay (Text.ofNat m.shortest.1) (m.shortest.2 - 324 + (Text.ofNat m.shortest.1).length)

theorem text_ofNat (n : Nat) : (ofNat n).text = Text.ofNat n := by
  simp [ofNat, text, fractionText, exponentText]

theorem ofNat_wellFormed (n : Nat) : (ofNat n).WellFormed := by
  refine ⟨?_, by simp [ofNat], by simp [ofNat]⟩
  rcases Nat.eq_zero_or_pos n with rfl | positive
  · exact .zero
  · obtain ⟨d, more, same, digit, first, others⟩ := Text.exists_ofNat_eq_cons positive
    rw [ofNat, same]
    exact .digits digit first others

theorem text_ofMagnitude (m : Magnitude) : (ofMagnitude m).text = m.text := by
  have some := Text.ofNat_ne_nil m.shortest.1
  unfold ofMagnitude Magnitude.text Magnitude.digitsAndPlace
  split
  · rfl
  · exact text_lay some

theorem ofMagnitude_wellFormed (m : Magnitude) : (ofMagnitude m).WellFormed := by
  unfold ofMagnitude
  split
  · exact ⟨.zero, List.forall_mem_singleton.2 rfl, by simp⟩
  · rename_i some
    exact lay_wellFormed (Magnitude.shortest_pos some) _

theorem ofMagnitude_real (m : Magnitude) :
    ((ofMagnitude m).fraction.isEmpty && (ofMagnitude m).exponentValue?.isNone) = false := by
  have some := Text.ofNat_ne_nil m.shortest.1
  unfold ofMagnitude
  split
  · rfl
  · exact lay_real some

theorem ofDecimal_ofMagnitude (m : Magnitude) (negative : Bool) :
    Binary64.ofDecimal negative
      (Text.natValue ((ofMagnitude m).whole ++ (ofMagnitude m).fraction))
      ((ofMagnitude m).exponentValue?.getD 0 - (ofMagnitude m).fraction.length) =
        .finite negative m := by
  unfold ofMagnitude
  split
  · rename_i zero
    have nothing : Text.natValue (['0'] ++ ['0']) = 0 := Text.natValue_zeros 2
    rw [nothing, Binary64.ofDecimal]
    simp only [decide_true, Bool.true_or, if_true]
    apply Binary64.ofRatio_eq
    rw [Nat.zero_mul, roundUnits_zero, zero]
  · rename_i some
    obtain ⟨zeros, value, exponent⟩ :=
      lay_value m.shortest.1 (m.shortest.2 - 324 + (Text.ofNat m.shortest.1).length)
    rw [Int.add_sub_cancel] at exponent
    rw [value, exponent]
    exact Binary64.ofDecimal_shortest m negative zeros

end Written

theorem IsNumber.exists_digit {text : Text} (h : IsNumber text) :
    ∃ sign c more, sign ∈ [[], ['-']] ∧ c.isDigit = true ∧ text = sign ++ c :: more := by
  obtain @⟨sign, whole, fraction, exponent, member, h, -, -⟩ := h
  obtain ⟨c, digits, rfl, digit⟩ := h.exists_digit
  exact ⟨sign, c, digits ++ fraction ++ exponent, member, digit, by simp⟩

theorem readName_of_isNumber {text : Text} (h : IsNumber text) (rest : Text) :
    readName (text ++ rest) = none := by
  obtain ⟨sign, c, more, member, digit, rfl⟩ := h.exists_digit
  have other : ∀ d ∈ ['n', 't', 'f', 'N', 'I', '-'], d ≠ c := by
    have letters : ∀ d ∈ ['n', 't', 'f', 'N', 'I', '-'], d.isDigit = false := by decide
    rintro d member rfl
    rw [letters d member] at digit
    cases digit
  simp only [List.forall_mem_cons, List.mem_nil_iff, false_imp_iff, imp_true_iff, and_true] at other
  simp only [List.mem_cons, List.not_mem_nil, or_false] at member
  rcases member with rfl | rfl <;> simp [readName, names, Text.dropLiteral?, other]

end Json

/-! ### Numbers as values -/

namespace Binary64

theorem isNumber_text (negative : Bool) (m : Magnitude) :
    Json.IsNumber (Binary64.finite negative m).text := by
  have number := (Json.Written.ofMagnitude_wellFormed m).isNumber negative
  rwa [Json.Written.text_ofMagnitude] at number

theorem readNumber_text (negative : Bool) (m : Magnitude) {rest : Text}
    (closes : Json.Closes rest) :
    Json.readNumber ((Binary64.finite negative m).text ++ rest) =
      .ok (.real (.finite negative m), rest) := by
  have read :=
    Json.Written.readNumber_append (Json.Written.ofMagnitude_wellFormed m) closes negative
  rw [Json.Written.text_ofMagnitude, Json.Written.ofMagnitude_real,
    Json.Written.ofDecimal_ofMagnitude] at read
  exact read

end Binary64

namespace Data

theorem isNumber_integerText (n : Int) : Json.IsNumber (integerText n) := by
  have number := (Json.Written.ofNat_wellFormed n.natAbs).isNumber (n < 0)
  rwa [Json.Written.text_ofNat] at number

theorem readNumber_integerText {n : Int} (short : (Text.ofNat n.natAbs).length ≤ Text.digitLimit)
    {rest : Text} (closes : Json.Closes rest) :
    Json.readNumber (integerText n ++ rest) = .ok (.integer n, rest) := by
  have read :=
    Json.Written.readNumber_append (Json.Written.ofNat_wellFormed n.natAbs) closes (n < 0)
  have value : (if n < 0 then -(n.natAbs : Int) else n.natAbs) = n := by
    split <;> omega
  rw [Json.Written.text_ofNat] at read
  rw [integerText, read]
  refine (if_pos rfl).trans ((if_neg (Nat.not_lt.2 short)).trans ?_)
  simp only [Json.Written.ofNat, Text.natValue_ofNat, decide_eq_true_eq, value]

end Data

end ProgressRules
