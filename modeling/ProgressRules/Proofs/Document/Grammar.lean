import ProgressRules.Document.Json
import ProgressRules.Proofs.Text.Reading

/-! The grammar of standard documents, which know no names for infinite numbers. Outside of its
strings such a document consists of brackets, commas, colons, blanks, numerals and three names. -/

namespace ProgressRules

namespace Json

open Text (IsRun)

/-! ### Grammar -/

def Space (text : Text) : Prop := ∀ c ∈ text, isSpace c = true

theorem space_nil : Space [] := fun _ => nofun

inductive IsWhole : Text → Prop
  | zero : IsWhole ['0']
  | digits {c : Char} {text : Text} : c.isDigit = true → c ≠ '0' →
      (∀ d ∈ text, d.isDigit = true) → IsWhole (c :: text)

inductive IsFraction : Text → Prop
  | none : IsFraction []
  | some {digits : Text} : IsRun Char.isDigit digits → IsFraction ('.' :: digits)

inductive IsExponent : Text → Prop
  | none : IsExponent []
  | some {mark : Char} {sign digits : Text} : mark ∈ ['e', 'E'] → sign ∈ [[], ['+'], ['-']] →
      IsRun Char.isDigit digits → IsExponent (mark :: (sign ++ digits))

inductive IsNumber : Text → Prop
  | parts {sign whole fraction exponent : Text} : sign ∈ [[], ['-']] → IsWhole whole →
      IsFraction fraction → IsExponent exponent → IsNumber (sign ++ whole ++ fraction ++ exponent)

inductive IsChar : Text → Prop
  | plain {c : Char} : 32 ≤ c.toNat → c ≠ Text.doubleQuote → c ≠ Text.backslash → IsChar [c]
  | escaped {c : Char} :
      c ∈ [Text.doubleQuote, Text.backslash, '/', 'b', 'f', 'n', 'r', 't'] →
      IsChar [Text.backslash, c]
  | unit {digits : Text} : digits.length = 4 → (∀ d ∈ digits, (hexValue? d).isSome = true) →
      IsChar (Text.backslash :: 'u' :: digits)

inductive IsString : Text → Prop
  | quoted {chars : List Text} : (∀ text ∈ chars, IsChar text) →
      IsString (Text.doubleQuote :: chars.flatten ++ [Text.doubleQuote])

mutual

inductive IsValue : Text → Prop
  | null : IsValue "null".toList
  | true : IsValue "true".toList
  | false : IsValue "false".toList
  | number {text : Text} : IsNumber text → IsValue text
  | string {text : Text} : IsString text → IsValue text
  | emptyArray {gap : Text} : Space gap → IsValue ('[' :: gap ++ [']'])
  | array {text : Text} : IsItems text → IsValue ('[' :: text ++ [']'])
  | emptyObject {gap : Text} : Space gap → IsValue ('{' :: gap ++ ['}'])
  | object {text : Text} : IsMembers text → IsValue ('{' :: text ++ ['}'])

inductive IsItems : Text → Prop
  | last {lead value gap : Text} : Space lead → IsValue value → Space gap →
      IsItems (lead ++ value ++ gap)
  | more {lead value gap text : Text} : Space lead → IsValue value → Space gap → IsItems text →
      IsItems (lead ++ value ++ gap ++ ',' :: text)

inductive IsMembers : Text → Prop
  | last {lead name before behind value gap : Text} : Space lead → IsString name → Space before →
      Space behind → IsValue value → Space gap →
      IsMembers (lead ++ name ++ before ++ ':' :: (behind ++ value ++ gap))
  | more {lead name before behind value gap text : Text} : Space lead → IsString name →
      Space before → Space behind → IsValue value → Space gap → IsMembers text →
      IsMembers (lead ++ name ++ before ++ ':' :: (behind ++ value ++ gap ++ ',' :: text))

end

inductive IsDocument : Text → Prop
  | value {lead text gap : Text} : Space lead → IsValue text → Space gap →
      IsDocument (lead ++ text ++ gap)

/-! ### Outside of strings -/

inductive Place where
  | outside
  | inside
  | escaped

def outsideFrom : Place → Text → Text
  | _, [] => []
  | .outside, c :: rest =>
    if c = Text.doubleQuote then outsideFrom .inside rest else c :: outsideFrom .outside rest
  | .inside, c :: rest =>
    if c = Text.doubleQuote then outsideFrom .outside rest
    else if c = Text.backslash then outsideFrom .escaped rest
    else outsideFrom .inside rest
  | .escaped, _ :: rest => outsideFrom .inside rest

/-- The strings of the text are closed, and this stands outside of them. -/
def Leaves (text bare : Text) : Prop :=
  ∀ rest, outsideFrom .outside (text ++ rest) = bare ++ outsideFrom .outside rest

namespace Leaves

theorem append {text text' bare bare' : Text} (h : Leaves text bare) (h' : Leaves text' bare') :
    Leaves (text ++ text') (bare ++ bare') := by
  intro rest
  rw [List.append_assoc, h, h', List.append_assoc]

theorem of_unquoted {text : Text} (unquoted : Text.doubleQuote ∉ text) : Leaves text text := by
  intro rest
  induction text with
  | nil => rfl
  | cons c text ih =>
    have other : c ≠ Text.doubleQuote := fun same => unquoted (same ▸ List.mem_cons_self)
    rw [List.cons_append, outsideFrom, if_neg other,
      ih fun inside => unquoted (List.mem_cons_of_mem _ inside)]
    rfl

theorem outsideFrom_eq {text bare : Text} (h : Leaves text bare) :
    outsideFrom .outside text = bare := by
  simpa [outsideFrom] using h []

end Leaves

theorem plain_of_hexValue? {d : Char} (hex : (hexValue? d).isSome = true) :
    d ≠ Text.doubleQuote ∧ d ≠ Text.backslash := by
  have none : ∀ c ∈ [Text.doubleQuote, Text.backslash], hexValue? c = none := by decide
  constructor <;>
  · rintro rfl
    rw [none _ (by simp)] at hex
    cases hex

theorem outsideFrom_plain {plain : Text}
    (h : ∀ c ∈ plain, c ≠ Text.doubleQuote ∧ c ≠ Text.backslash) (rest : Text) :
    outsideFrom .inside (plain ++ rest) = outsideFrom .inside rest := by
  induction plain with
  | nil => rfl
  | cons c plain ih =>
    obtain ⟨first, others⟩ := List.forall_mem_cons.1 h
    rw [List.cons_append, outsideFrom, if_neg first.1, if_neg first.2, ih others]

theorem IsChar.outsideFrom_append {text : Text} (h : IsChar text) (rest : Text) :
    outsideFrom .inside (text ++ rest) = outsideFrom .inside rest := by
  have mark : Text.backslash ≠ Text.doubleQuote := by decide
  cases h with
  | plain _ quote backslash => simp [outsideFrom, quote, backslash]
  | escaped _ => simp [outsideFrom, mark]
  | unit _ hex =>
    have digits := outsideFrom_plain (fun d inside => plain_of_hexValue? (hex d inside)) rest
    simpa [outsideFrom, mark] using digits

theorem IsString.leaves {text : Text} (h : IsString text) : Leaves text [] := by
  intro rest
  obtain @⟨chars, all⟩ := h
  have body : ∀ more, outsideFrom .inside (chars.flatten ++ more) = outsideFrom .inside more := by
    intro more
    induction chars with
    | nil => rfl
    | cons first chars ih =>
      obtain ⟨here, others⟩ := List.forall_mem_cons.1 all
      rw [List.flatten_cons, List.append_assoc, here.outsideFrom_append, ih others]
  rw [List.cons_append, List.cons_append, outsideFrom, if_pos rfl, List.append_assoc, body,
    List.cons_append, outsideFrom, if_pos rfl]
  rfl

def Closed (text : Text) : Prop := ∃ bare, Leaves text bare

theorem Closed.append {text text' : Text} (h : Closed text) (h' : Closed text') :
    Closed (text ++ text') := by
  obtain ⟨bare, leaves⟩ := h
  obtain ⟨bare', leaves'⟩ := h'
  exact ⟨bare ++ bare', leaves.append leaves'⟩

/-! ### Standard documents -/

/-- No name of an infinite number stands outside of the strings, nor that of no number. -/
def Mute (text : Text) : Prop := ∃ bare, Leaves text bare ∧ 'I' ∉ bare ∧ 'N' ∉ bare

theorem Mute.append {text text' : Text} (h : Mute text) (h' : Mute text') :
    Mute (text ++ text') := by
  obtain ⟨bare, leaves, i, n⟩ := h
  obtain ⟨bare', leaves', i', n'⟩ := h'
  exact ⟨bare ++ bare', leaves.append leaves', by simp [i, i'], by simp [n, n']⟩

theorem Mute.closed {text : Text} (h : Mute text) : Closed text := by
  obtain ⟨bare, leaves, -, -⟩ := h
  exact ⟨bare, leaves⟩

theorem Mute.of_append {text text' : Text} (closed : Closed text) (closed' : Closed text')
    (h : Mute (text ++ text')) : Mute text ∧ Mute text' := by
  obtain ⟨bare, leaves⟩ := closed
  obtain ⟨bare', leaves'⟩ := closed'
  obtain ⟨all, leaves_all, i, n⟩ := h
  have same : all = bare ++ bare' :=
    leaves_all.outsideFrom_eq.symm.trans (leaves.append leaves').outsideFrom_eq
  rw [same, List.mem_append, not_or] at i n
  exact ⟨⟨bare, leaves, i.1, n.1⟩, ⟨bare', leaves', i.2, n.2⟩⟩

theorem not_mute {text : Text} (unquoted : Text.doubleQuote ∉ text)
    (loud : 'I' ∈ text ∨ 'N' ∈ text) : ¬Mute text := by
  rintro ⟨bare, leaves, i, n⟩
  have same : text = bare :=
    (Leaves.of_unquoted unquoted).outsideFrom_eq.symm.trans leaves.outsideFrom_eq
  rw [same] at loud
  exact loud.elim i n

theorem Mute.of_forall {text : Text}
    (other : ∀ c ∈ text, c ∉ [Text.doubleQuote, 'I', 'N']) : Mute text := by
  refine ⟨text, .of_unquoted ?_, ?_, ?_⟩ <;> exact fun inside => other _ inside (by simp)

theorem Space.mute {text : Text} (h : Space text) : Mute text := by
  have visible : ∀ c ∈ [Text.doubleQuote, 'I', 'N'], isSpace c = false := by decide
  apply Mute.of_forall
  intro c inside same
  have space := h c inside
  rw [visible c same] at space
  cases space

theorem IsString.mute {text : Text} (h : IsString text) : Mute text :=
  ⟨[], h.leaves, List.not_mem_nil, List.not_mem_nil⟩

theorem mute_digits {digits : Text} (h : ∀ d ∈ digits, d.isDigit = true) : Mute digits := by
  have other : ∀ c ∈ [Text.doubleQuote, 'I', 'N'], c.isDigit = false := by decide
  apply Mute.of_forall
  intro d inside same
  have digit := h d inside
  rw [other d same] at digit
  cases digit

theorem IsNumber.mute {text : Text} (h : IsNumber text) : Mute text := by
  have signs : ∀ sign ∈ [[], ['+'], ['-']], Mute sign := by
    intro sign member
    apply Mute.of_forall
    revert sign
    decide
  have marks : ∀ mark ∈ ['.', 'e', 'E'], Mute [mark] := fun mark member =>
    Mute.of_forall (List.forall_mem_singleton.2 (by revert mark; decide))
  obtain ⟨sign, whole, fraction, exponent⟩ := h
  refine (((signs _ ?_).append ?_).append ?_).append ?_
  · simp only [List.mem_cons, List.not_mem_nil, or_false] at sign ⊢
    rcases sign with none | minus
    · exact .inl none
    · exact .inr (.inr minus)
  · apply mute_digits
    cases whole with
    | zero => decide
    | digits first other rest => exact List.forall_mem_cons.2 ⟨first, rest⟩
  · cases fraction with
    | none => exact signs [] (by simp)
    | some run => exact (marks '.' (by simp)).append (mute_digits run.2)
  · cases exponent with
    | none => exact signs [] (by simp)
    | some mark sign run =>
      exact (marks _ (List.mem_cons_of_mem _ mark)).append
        ((signs _ sign).append (mute_digits run.2))

theorem mute_sign {c : Char} (sign : c ∈ ['[', ']', '{', '}', ',', ':']) : Mute [c] :=
  Mute.of_forall (List.forall_mem_singleton.2 (by revert c; decide))

mutual

theorem IsValue.mute : ∀ {text : Text}, IsValue text → Mute text
  | _, .null | _, .true | _, .false => Mute.of_forall (by decide)
  | _, .number h => h.mute
  | _, .string h => h.mute
  | _, .emptyArray gap | _, .emptyObject gap =>
    ((mute_sign (by simp)).append gap.mute).append (mute_sign (by simp))
  | _, .array items => ((mute_sign (by simp)).append items.mute).append (mute_sign (by simp))
  | _, .object members => ((mute_sign (by simp)).append members.mute).append (mute_sign (by simp))

theorem IsItems.mute : ∀ {text : Text}, IsItems text → Mute text
  | _, .last lead value gap => (lead.mute.append value.mute).append gap.mute
  | _, .more lead value gap items =>
    ((lead.mute.append value.mute).append gap.mute).append ((mute_sign (by simp)).append items.mute)

theorem IsMembers.mute : ∀ {text : Text}, IsMembers text → Mute text
  | _, .last lead name before behind value gap =>
    ((lead.mute.append name.mute).append before.mute).append
      ((mute_sign (by simp)).append ((behind.mute.append value.mute).append gap.mute))
  | _, .more lead name before behind value gap members =>
    ((lead.mute.append name.mute).append before.mute).append
      ((mute_sign (by simp)).append (((behind.mute.append value.mute).append gap.mute).append
        ((mute_sign (by simp)).append members.mute)))

end

theorem IsDocument.mute {text : Text} (h : IsDocument text) : Mute text := by
  obtain ⟨lead, value, gap⟩ := h
  exact (lead.mute.append value.mute).append gap.mute

end Json

end ProgressRules
