import ProgressRules.Binary64.Literal
import ProgressRules.Proofs.Binary64.Nearest
import ProgressRules.Proofs.Text.Reading

/-! Decimal numerals and their exact values. A text is a numeral in one way at most, and the reader
of literals finds the number to which its value is rounded. -/

namespace ProgressRules

open Text (IsRun Stops)

structure Decimal where
  negative : Bool
  whole : Text
  fraction : Text
  exponent : Int

namespace Decimal

/-! ### Numerals -/

def digits (d : Decimal) : Nat := Text.natValue (d.whole ++ d.fraction)

def scale (d : Decimal) : Int := d.exponent - d.fraction.length

def value (d : Decimal) : Rat := withSign d.negative (d.digits * 10 ^ d.scale)

def nearest (d : Decimal) : Binary64 := .ofDecimal d.negative d.digits d.scale

theorem rounds_nearest (d : Decimal) : d.nearest.Rounds d.value :=
  Binary64.rounds_ofDecimal d.negative d.digits d.scale

inductive IsSign : Bool → Text → Prop
  | none : IsSign false []
  | plus : IsSign false ['+']
  | minus : IsSign true ['-']

/-- The digits of a fraction stand behind a point. -/
inductive IsFraction : Text → Text → Prop
  | none : IsFraction [] []
  | some {digits : Text} : IsRun Char.isDigit digits → IsFraction digits ('.' :: digits)

inductive IsExponent : Int → Text → Prop
  | none : IsExponent 0 []
  | some {mark : Char} {negative : Bool} {sign digits : Text} : mark ∈ ['e', 'E'] →
      IsSign negative sign → IsRun Char.isDigit digits →
      IsExponent (if negative then -(Text.natValue digits : Int) else Text.natValue digits)
        (mark :: (sign ++ digits))

/-- A sign, digits, and perhaps a fraction and an exponent. -/
inductive IsWritten (d : Decimal) : Text → Prop
  | parts {sign fraction exponent : Text} : IsSign d.negative sign →
      IsRun Char.isDigit d.whole → IsFraction d.fraction fraction →
      IsExponent d.exponent exponent →
      IsWritten d (sign ++ (d.whole ++ (fraction ++ exponent)))

/-! ### Reading -/

variable {d d' : Decimal} {negative : Bool} {n : Int} {sign digits text rest : Text}

def Starts (text : Text) : Prop := ∃ c more, text = c :: more ∧ c.isDigit = true

theorem starts_append (run : IsRun Char.isDigit digits) (rest : Text) :
    Starts (digits ++ rest) := by
  obtain ⟨c, more, rfl⟩ := List.exists_cons_of_ne_nil run.1
  exact ⟨c, more ++ rest, rfl, run.2 c List.mem_cons_self⟩

theorem readSign_append (h : IsSign negative sign) (starts : Starts rest) :
    Binary64.readSign (sign ++ rest) = (negative, rest) := by
  obtain ⟨c, more, rfl, digit⟩ := starts
  cases h with
  | plus => rfl
  | minus => rfl
  | none =>
    rw [List.nil_append, Binary64.readSign]
    · rintro _ ⟨rfl, rfl⟩
      cases digit
    · rintro _ ⟨rfl, rfl⟩
      cases digit

def continuesRun (c : Char) : Bool := Text.isDigit c || c == '_'

theorem digitRun_append (run : ∀ c ∈ digits, c.isDigit = true) (stops : Stops continuesRun rest)
    (afterDigit : Bool) : Text.digitRun afterDigit (digits ++ rest) = (digits, rest) := by
  induction digits generalizing afterDigit with
  | nil =>
    cases rest with
    | nil => rfl
    | cons c rest =>
      have other := Text.stops_cons.1 stops
      rw [continuesRun, Bool.or_eq_false_iff] at other
      simp [Text.digitRun, other.1, other.2]
  | cons c digits ih =>
    obtain ⟨first, others⟩ := List.forall_mem_cons.1 run
    simp [Text.digitRun, Text.isDigit_of_ascii first, ih others]

theorem stops_exponent (h : IsExponent n text) : Stops continuesRun text := by
  cases h with
  | none => exact Text.stops_nil _
  | some mark =>
    simp only [List.mem_cons, List.not_mem_nil, or_false] at mark
    rcases mark with rfl | rfl <;> exact Text.stops_cons.2 (by decide)

theorem readExponent_eq (h : IsExponent n text) : Binary64.readExponent? text = some n := by
  cases h with
  | none => rfl
  | @some mark negative sign digits member signed run =>
    have sign := readSign_append signed (starts_append run [])
    have digits := digitRun_append run.2 (Text.stops_nil _) false
    rw [List.append_nil] at sign digits
    obtain ⟨c, more, same⟩ := List.exists_cons_of_ne_nil run.1
    have mark : (mark == 'e' || mark == 'E') = true := by simpa using member
    rw [same] at sign digits ⊢
    simp [Binary64.readExponent?, mark, sign, digits]

def readFraction : Text → Text × Text
  | '.' :: rest => Text.digitRun false rest
  | rest => ([], rest)

theorem readFraction_append (h : IsFraction digits text) (exponent : IsExponent n rest) :
    readFraction (text ++ rest) = (digits, rest) := by
  cases h with
  | some run => exact digitRun_append run.2 (stops_exponent exponent) false
  | none =>
    cases exponent with
    | none => rfl
    | some mark =>
      simp only [List.mem_cons, List.not_mem_nil, or_false] at mark
      rcases mark with rfl | rfl <;> rfl

theorem stops_fraction (h : IsFraction digits text) (exponent : IsExponent n rest) :
    Stops continuesRun (text ++ rest) := by
  cases h with
  | none => exact stops_exponent exponent
  | some => exact Text.stops_cons.2 (by decide)

theorem IsExponent.unique {n' : Int} (h : IsExponent n text) (h' : IsExponent n' text) :
    n = n' := by
  have read := (readExponent_eq h).symm.trans (readExponent_eq h')
  exact Option.some.inj read

theorem IsWritten.unique (h : d.IsWritten text) (h' : d'.IsWritten text) : d = d' := by
  generalize same : text = other at h'
  obtain ⟨negative, whole, digits, n⟩ := d
  obtain ⟨negative', whole', digits', n'⟩ := d'
  obtain @⟨sign, fraction, exponent, signed, run, some, power⟩ := h
  obtain @⟨sign', fraction', exponent', signed', run', some', power'⟩ := h'
  dsimp only at *
  have signs := congrArg Binary64.readSign same
  rw [readSign_append signed (starts_append run _),
    readSign_append signed' (starts_append run' _), Prod.mk.injEq] at signs
  have wholes := congrArg (Text.digitRun false) signs.2
  rw [digitRun_append run.2 (stops_fraction some power),
    digitRun_append run'.2 (stops_fraction some' power'), Prod.mk.injEq] at wholes
  have fractions := congrArg readFraction wholes.2
  rw [readFraction_append some power, readFraction_append some' power', Prod.mk.injEq] at fractions
  obtain rfl := fractions.2
  rw [signs.1, wholes.1, fractions.1, power.unique power']

theorem readUnsigned?_eq (negative : Bool) (text : Text) :
    Binary64.readUnsigned? negative text =
      let whole := Text.digitRun false text
      let fraction := readFraction whole.2
      if whole.1.isEmpty && fraction.1.isEmpty then none
      else (Binary64.readExponent? fraction.2).map fun exponent =>
        .ofDecimal negative (Text.natValue (whole.1 ++ fraction.1))
          (exponent - fraction.1.length) := rfl

def IsNumeric (c : Char) : Prop := c.isDigit = true ∨ c ∈ ['+', '-', '.', 'e', 'E']

theorem IsSign.numeric (h : IsSign negative sign) : ∀ c ∈ sign, IsNumeric c := by
  unfold IsNumeric
  cases h <;> decide

theorem IsFraction.numeric (h : IsFraction digits text) : ∀ c ∈ text, IsNumeric c := by
  cases h with
  | none => exact fun _ => nofun
  | some run =>
    exact List.forall_mem_cons.2 ⟨.inr (by decide), fun c inside => .inl (run.2 c inside)⟩

theorem IsExponent.numeric (h : IsExponent n text) : ∀ c ∈ text, IsNumeric c := by
  cases h with
  | none => exact fun _ => nofun
  | some mark signed run =>
    refine List.forall_mem_cons.2 ⟨.inr ?_, List.forall_mem_append.2 ⟨signed.numeric, ?_⟩⟩
    · exact List.mem_append_right ['+', '-', '.'] mark
    · exact fun c inside => .inl (run.2 c inside)

theorem IsWritten.numeric (h : d.IsWritten text) : ∀ c ∈ text, IsNumeric c := by
  obtain ⟨signed, run, some, power⟩ := h
  simp only [List.forall_mem_append]
  exact ⟨signed.numeric, fun c inside => .inl (run.2 c inside), some.numeric, power.numeric⟩

theorem not_isSpace_of_isNumeric {c : Char} (h : IsNumeric c) : Text.isSpace c = false := by
  rcases h with digit | sign
  · have range := Text.toNat_of_isDigit digit
    simp only [Text.isSpace, Bool.or_eq_false_iff, Bool.and_eq_false_iff, decide_eq_false_iff_not,
      beq_eq_false_iff_ne]
    omega
  · have signs : ∀ c ∈ ['+', '-', '.', 'e', 'E'], Text.isSpace c = false := by decide
    exact signs c sign

theorem trimSpace_of_visible (visible : ∀ c ∈ text, Text.isSpace c = false) :
    Text.trimSpace text = text := by
  have kept (text : Text) (visible : ∀ c ∈ text, Text.isSpace c = false) :
      text.dropWhile Text.isSpace = text := by
    cases text with
    | nil => rfl
    | cons c text => exact List.dropWhile_cons_of_neg (by simp [visible c List.mem_cons_self])
  rw [Text.trimSpace, kept text visible, kept text.reverse (by simpa using visible),
    List.reverse_reverse]

theorem toLower_of_isDigit {c : Char} (digit : c.isDigit = true) : c.toLower = c := by
  have range := Text.toNat_of_isDigit digit
  apply dif_neg
  rintro ⟨letter, -⟩
  have code : 65 ≤ c.toNat := letter
  omega

theorem IsWritten.read? (h : d.IsWritten text) : Binary64.read? text = some d.nearest := by
  have trimmed := trimSpace_of_visible fun c inside => not_isSpace_of_isNumeric (h.numeric c inside)
  obtain @⟨sign, fraction, exponent, signed, run, some, power⟩ := h
  have unsigned : Binary64.readUnsigned? d.negative (d.whole ++ (fraction ++ exponent)) =
      .some d.nearest := by
    have digits : d.whole.isEmpty = false := List.isEmpty_eq_false_iff.2 run.1
    rw [readUnsigned?_eq, digitRun_append run.2 (stops_fraction some power) false]
    dsimp only
    rw [readFraction_append some power, readExponent_eq power, digits]
    rfl
  unfold Binary64.read?
  rw [trimmed, readSign_append signed (starts_append run _)]
  dsimp only
  rw [unsigned]
  obtain ⟨c, more, same, digit⟩ := starts_append run (fraction ++ exponent)
  have other : c ≠ 'i' ∧ c ≠ 'n' := by
    constructor <;> rintro rfl <;> cases digit
  rw [same, List.map_cons, toLower_of_isDigit digit]
  simp [other]

end Decimal

/-- The text is a numeral with this exact value. -/
def Denotes (text : Text) (q : Rat) : Prop := ∃ d : Decimal, d.IsWritten text ∧ d.value = q

theorem Decimal.IsWritten.denotes_iff {d : Decimal} {text : Text} {q : Rat} (h : d.IsWritten text) :
    Denotes text q ↔ q = d.value := by
  constructor
  · rintro ⟨other, written, rfl⟩
    rw [written.unique h]
  · rintro rfl
    exact ⟨d, h, rfl⟩

end ProgressRules
