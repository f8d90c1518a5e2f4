import Mathlib.Tactic.SplitIfs
import ProgressRules.Proofs.Document.Grammar

/-! Strings in documents. What is written for a text is a string of the grammar, and it is read as
this text, character by character. -/

namespace ProgressRules

namespace Json

/-! ### Characters -/

theorem hexValue?_hexDigit : ∀ d < 16, hexValue? (Text.hexDigit d) = some d := by decide

theorem readUnit_hexDigits {n : Nat} (small : n < 65536) (rest : Text) :
    readUnit (Text.hexDigits 4 n ++ rest) = some (n, rest) := by
  have digit (k : Nat) := hexValue?_hexDigit (k % 16) (Nat.mod_lt k (by decide))
  have value : ((n / 4096 % 16 * 16 + n / 256 % 16) * 16 + n / 16 % 16) * 16 + n % 16 = n := by
    omega
  simp [Text.hexDigits, readUnit, digit, Nat.div_div_eq_div_mul, value]

/-- A character is written as it is, by a letter behind a backslash, or by its code. -/
theorem escape_cases (c : Char) :
    (escape c = [c] ∧ 32 ≤ c.toNat ∧ c ≠ Text.doubleQuote ∧ c ≠ Text.backslash) ∨
      (∃ e ∈ [Text.doubleQuote, Text.backslash, 'b', 'f', 'n', 'r', 't'],
        escape c = [Text.backslash, e] ∧ escapedChar? e = some c) ∨
      (escape c = Text.backslash :: 'u' :: Text.hexDigits 4 c.toNat ∧ c.toNat < 32) := by
  have control : ∀ {n}, c.toNat = n → c = Char.ofNat n :=
    fun same => by rw [← same, Char.ofNat_toNat]
  unfold escape
  split
  · rename_i special
    simp only [Bool.or_eq_true, decide_eq_true_eq] at special
    refine .inr (.inl ⟨c, ?_, rfl, ?_⟩)
    · rcases special with rfl | rfl <;> simp
    · rcases special with rfl | rfl <;> rfl
  · rename_i plain
    simp only [Bool.or_eq_true, decide_eq_true_eq, not_or] at plain
    split_ifs with h h h h h h
    · exact .inr (.inl ⟨'b', by simp, rfl, congrArg some (control h).symm⟩)
    · exact .inr (.inl ⟨'t', by simp, rfl, congrArg some (control h).symm⟩)
    · exact .inr (.inl ⟨'n', by simp, rfl, congrArg some (control h).symm⟩)
    · exact .inr (.inl ⟨'f', by simp, rfl, congrArg some (control h).symm⟩)
    · exact .inr (.inl ⟨'r', by simp, rfl, congrArg some (control h).symm⟩)
    · exact .inr (.inr ⟨rfl, h⟩)
    · exact .inl ⟨rfl, Nat.le_of_not_lt h, plain⟩

theorem isChar_escape (c : Char) : IsChar (escape c) := by
  rcases escape_cases c with ⟨same, code, quote, backslash⟩ | ⟨e, letter, same, -⟩ | ⟨same, code⟩
  · rw [same]
    exact .plain code quote backslash
  · rw [same]
    apply IsChar.escaped
    rw [List.mem_cons, List.mem_cons] at letter ⊢
    exact letter.imp_right (·.imp_right (List.mem_cons_of_mem _))
  · rw [same]
    refine .unit rfl ?_
    have digit (k : Nat) := hexValue?_hexDigit (k % 16) (Nat.mod_lt k (by decide))
    simp [Text.hexDigits, digit]

theorem readChar_escape (c : Char) (rest : Text) :
    readChar (escape c ++ rest) = some (c, rest) := by
  rcases escape_cases c with ⟨same, code, quote, backslash⟩ | ⟨e, letter, same, read⟩ | ⟨same, code⟩
  · rw [same]
    simp [readChar, quote, backslash, Nat.not_lt.2 code]
  · have mark : ¬(Text.backslash = Text.doubleQuote ∨ Text.backslash.toNat < 32) := by decide
    have unit : e ≠ 'u' := by
      rintro rfl
      revert letter
      decide
    rw [same]
    simp [readChar, mark, read]
  · have mark : ¬(Text.backslash = Text.doubleQuote ∨ Text.backslash.toNat < 32) := by decide
    have unit := readUnit_hexDigits (n := c.toNat) (by omega) rest
    have single : ¬(0xD800 ≤ c.toNat ∧ c.toNat < 0xDC00) ∧
        ¬(0xDC00 ≤ c.toNat ∧ c.toNat < 0xE000) := by
      omega
    rw [same]
    simp [readChar, mark, readCodePoint, unit, single, Char.ofNat_toNat]

/-! ### Strings -/

theorem splitAtQuote_plain {plain : Text}
    (h : ∀ c ∈ plain, c ≠ Text.doubleQuote ∧ c ≠ Text.backslash) (rest : Text) :
    splitAtQuote (plain ++ rest) =
      (splitAtQuote rest).map fun (body, left) => (plain ++ body, left) := by
  induction plain with
  | nil => simp
  | cons c plain ih =>
    obtain ⟨first, others⟩ := List.forall_mem_cons.1 h
    rw [List.cons_append, splitAtQuote.eq_def]
    simp [first.1, first.2, ih others, Function.comp_def]

theorem IsChar.splitAtQuote_append {text : Text} (h : IsChar text) (rest : Text) :
    splitAtQuote (text ++ rest) =
      (splitAtQuote rest).map fun (body, left) => (text ++ body, left) := by
  have mark : Text.backslash ≠ Text.doubleQuote := by decide
  cases h with
  | plain _ quote backslash =>
    exact splitAtQuote_plain (List.forall_mem_singleton.2 ⟨quote, backslash⟩) rest
  | escaped _ => simp [splitAtQuote, mark]
  | unit _ hex =>
    have digits := splitAtQuote_plain (fun d inside => plain_of_hexValue? (hex d inside)) rest
    simp [splitAtQuote, mark, digits, Function.comp_def]

theorem splitAtQuote_flatMap (text rest : Text) :
    splitAtQuote (text.flatMap escape ++ Text.doubleQuote :: rest) =
      some (text.flatMap escape, rest) := by
  induction text with
  | nil =>
    rw [List.flatMap_nil, List.nil_append, splitAtQuote.eq_def]
    exact if_pos rfl
  | cons c text ih =>
    rw [List.flatMap_cons, List.append_assoc, (isChar_escape c).splitAtQuote_append, ih]
    rfl

theorem manyUpTo_readChar (text : Text) {limit : Nat} (enough : text.length ≤ limit) :
    Text.manyUpTo readChar limit (text.flatMap escape) = (text, []) := by
  induction text generalizing limit with
  | nil => cases limit <;> rfl
  | cons c text ih =>
    cases limit with
    | zero => cases enough
    | succ limit =>
      have more := ih (Nat.le_of_succ_le_succ enough)
      rw [List.flatMap_cons, Text.manyUpTo, readChar_escape]
      simp only [more]

theorem length_le_flatMap_escape (text : Text) : text.length ≤ (text.flatMap escape).length := by
  induction text with
  | nil => exact Nat.le_refl _
  | cons c text ih =>
    have some : 0 < (escape c).length := by
      rcases escape_cases c with ⟨same, -⟩ | ⟨e, -, same, -⟩ | ⟨same, -⟩ <;> simp [same]
    rw [List.flatMap_cons, List.length_append, List.length_cons]
    omega

theorem readString_stringText (text rest : Text) :
    readString (text.flatMap escape ++ Text.doubleQuote :: rest) = some (text, rest) := by
  have chars : Text.many readChar (text.flatMap escape) = (text, []) :=
    manyUpTo_readChar text (length_le_flatMap_escape text)
  simp [readString, splitAtQuote_flatMap, chars]

theorem isString_stringText (text : Text) : IsString (stringText text) := by
  have chars : ∀ t ∈ text.map escape, IsChar t := by
    intro t inside
    obtain ⟨c, -, rfl⟩ := List.mem_map.1 inside
    exact isChar_escape c
  have quoted := IsString.quoted chars
  rwa [← List.flatMap_def] at quoted

end Json

end ProgressRules
