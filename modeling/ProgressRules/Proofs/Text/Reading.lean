import ProgressRules.Text.Scan

/-! What the basic readers find at the beginning of a text, stated for a text that is given
as an item followed by the rest. A reader that takes as much as it can needs a rest that does
not go on with the item. -/

namespace ProgressRules.Text

def IsRun (p : Char → Bool) (text : Text) : Prop := text ≠ [] ∧ ∀ c ∈ text, p c = true

def Stops (p : Char → Bool) (text : Text) : Prop := ∀ c ∈ text.head?, p c = false

def Blank (text : Text) : Prop := ∀ c ∈ text, isBlank c = true

instance decidableForallMem (text : Text) (p : Char → Prop) [DecidablePred p] :
    Decidable (∀ c ∈ text, p c) :=
  List.decidableBAll p text

/-! ### Classes of characters -/

def blankCodes : List Nat :=
  [9, 10, 11, 12, 13, 28, 29, 30, 31, 32, 0x85, 0xA0, 0x1680, 0x2000, 0x2001, 0x2002, 0x2003,
    0x2004, 0x2005, 0x2006, 0x2007, 0x2008, 0x2009, 0x200A, 0x2028, 0x2029, 0x202F, 0x205F, 0x3000]

theorem mem_blankCodes {c : Char} (h : isBlank c = true) : c.toNat ∈ blankCodes := by
  simp only [isBlank, isSpace, Bool.or_eq_true, Bool.and_eq_true, decide_eq_true_eq,
    beq_iff_eq] at h
  simp only [blankCodes, List.mem_cons, List.not_mem_nil, or_false]
  omega

theorem isWord_of_mem_blankCodes : ∀ n ∈ blankCodes, isWord (Char.ofNat n) = false := by
  decide +kernel

theorem not_isWord_of_isBlank {c : Char} (h : isBlank c = true) : isWord c = false := by
  have hc := isWord_of_mem_blankCodes c.toNat (mem_blankCodes h)
  rwa [Char.ofNat_toNat] at hc

theorem not_isBlank_of_isWord {c : Char} (h : isWord c = true) : isBlank c = false := by
  cases hb : isBlank c with
  | false => rfl
  | true => rw [not_isWord_of_isBlank hb] at h; cases h

theorem not_isBlank_of_isDigit {c : Char} (h : isDigit c = true) : isBlank c = false :=
  not_isBlank_of_isWord (isWord_of_isDigit h)

theorem not_isDigit_of_not_isWord {c : Char} (h : isWord c = false) : isDigit c = false := by
  cases hd : isDigit c with
  | false => rfl
  | true => rw [isWord_of_isDigit hd] at h; cases h

/-! ### Where a class stops -/

@[simp] theorem stops_nil (p : Char → Bool) : Stops p [] := by
  intro c hc
  cases hc

@[simp] theorem stops_cons {p : Char → Bool} {c : Char} {text : Text} :
    Stops p (c :: text) ↔ p c = false := by
  constructor
  · intro h
    exact h c rfl
  · intro h d hd
    cases hd
    exact h

theorem stops_append {p : Char → Bool} {a b : Text} (first : a ≠ []) :
    Stops p (a ++ b) ↔ Stops p a := by
  cases a with
  | nil => exact absurd rfl first
  | cons c a => simp

theorem Stops.mono {p q : Char → Bool} {text : Text} (h : Stops p text)
    (sub : ∀ c, p c = false → q c = false) : Stops q text :=
  fun c hc => sub c (h c hc)

theorem IsRun.stops {p q : Char → Bool} {word rest : Text} (h : IsRun p word)
    (disjoint : ∀ c, p c = true → q c = false) : Stops q (word ++ rest) := by
  cases word with
  | nil => exact absurd rfl h.1
  | cons c word => exact stops_cons.2 (disjoint c (h.2 c List.mem_cons_self))

theorem IsRun.not_stops {p : Char → Bool} {word rest : Text} (h : IsRun p word) :
    ¬Stops p (word ++ rest) := by
  intro stops
  obtain ⟨c, word', rfl⟩ := List.exists_cons_of_ne_nil h.1
  have first := stops_cons.1 stops
  rw [h.2 c List.mem_cons_self] at first
  cases first

theorem IsRun.getLast {p : Char → Bool} {word : Text} (h : IsRun p word) :
    ∃ c, word.getLast? = some c ∧ p c = true := by
  refine ⟨word.getLast h.1, List.getLast?_eq_some_getLast h.1, ?_⟩
  exact h.2 _ (List.getLast_mem h.1)

@[simp] theorem blank_nil : Blank [] := by
  intro c hc
  cases hc

@[simp] theorem blank_cons {c : Char} {text : Text} :
    Blank (c :: text) ↔ isBlank c = true ∧ Blank text := by
  simp [Blank]

theorem blank_space : Blank [' '] :=
  blank_cons.2 ⟨by decide, blank_nil⟩

@[simp] theorem blank_append {a b : Text} : Blank (a ++ b) ↔ Blank a ∧ Blank b := by
  simp [Blank, or_imp, forall_and]

theorem Blank.not_mem {gap : Text} {c : Char} (blank : Blank gap) (visible : isBlank c = false) :
    c ∉ gap := by
  intro inside
  rw [blank c inside] at visible
  cases visible

theorem Blank.count_eq_zero {gap : Text} {c : Char} (blank : Blank gap)
    (visible : isBlank c = false) : gap.count c = 0 :=
  List.count_eq_zero.2 (blank.not_mem visible)

/-- What stops at a class goes on doing so behind blanks that are not in the class. -/
theorem Blank.stops_append {p : Char → Bool} {gap rest : Text} (blank : Blank gap)
    (disjoint : ∀ c, isBlank c = true → p c = false) (h : Stops p rest) :
    Stops p (gap ++ rest) := by
  cases gap with
  | nil => exact h
  | cons c gap => exact stops_cons.2 (disjoint c (blank c List.mem_cons_self))

theorem Blank.stops_of_ne_nil {p : Char → Bool} {gap rest : Text} (blank : Blank gap)
    (nonempty : gap ≠ []) (disjoint : ∀ c, isBlank c = true → p c = false) :
    Stops p (gap ++ rest) := by
  refine (Text.stops_append nonempty).2 ?_
  intro c hc
  exact disjoint c (blank c (List.mem_of_mem_head? hc))

/-- What is said of the character before a text holds behind blanks if it holds of blanks. -/
theorem Blank.behind {p : Option Char → Prop} {gap : Text} (blank : Blank gap)
    (at_blank : ∀ c, isBlank c = true → p (some c)) {before : Option Char}
    (h : gap ≠ [] ∨ p before) : p (gap.getLast?.or before) := by
  by_cases nonempty : gap = []
  · subst nonempty
    exact h.resolve_left fun absurd => absurd rfl
  · rw [List.getLast?_eq_some_getLast nonempty, Option.some_or]
    exact at_blank _ (blank _ (List.getLast_mem nonempty))

/-! ### Runs -/

theorem takeWhile_append {p : Char → Bool} {word rest : Text} (all : ∀ c ∈ word, p c = true)
    (stops : Stops p rest) : (word ++ rest).takeWhile p = word := by
  rw [List.takeWhile_append_of_pos all]
  cases rest with
  | nil => simp
  | cons c rest => rw [List.takeWhile_cons_of_neg (by simp [stops_cons.1 stops]), List.append_nil]

theorem dropWhile_append {p : Char → Bool} {word rest : Text} (all : ∀ c ∈ word, p c = true)
    (stops : Stops p rest) : (word ++ rest).dropWhile p = rest := by
  rw [List.dropWhile_append_of_pos all]
  cases rest with
  | nil => rfl
  | cons c rest => rw [List.dropWhile_cons_of_neg (by simp [stops_cons.1 stops])]

theorem stops_dropWhile (p : Char → Bool) (text : Text) : Stops p (text.dropWhile p) := by
  have h := List.head?_dropWhile_not p text
  intro c hc
  rw [hc] at h
  exact h

theorem run_append {p : Char → Bool} {word rest : Text} (h : IsRun p word)
    (stops : Stops p rest) : run p (word ++ rest) = some (word, rest) := by
  simp [run, takeWhile_append h.2 stops, dropWhile_append h.2 stops, h.1]

theorem exists_run {p : Char → Bool} {word : Text} (h : IsRun p word) (rest : Text) :
    ∃ more after, run p (word ++ rest) = some (word ++ more, after) ∧ rest = more ++ after := by
  refine ⟨rest.takeWhile p, rest.dropWhile p, ?_, List.takeWhile_append_dropWhile.symm⟩
  have longer : IsRun p (word ++ rest.takeWhile p) := by
    constructor
    · simp [h.1]
    · intro c hc
      rcases List.mem_append.1 hc with inside | inside
      · exact h.2 c inside
      · exact List.all_eq_true.1 List.all_takeWhile c inside
  have found := run_append longer (stops_dropWhile p rest)
  rwa [List.append_assoc, List.takeWhile_append_dropWhile] at found

theorem run_eq_some {p : Char → Bool} {text word rest : Text}
    (h : run p text = some (word, rest)) :
    IsRun p word ∧ text = word ++ rest ∧ Stops p rest := by
  unfold run at h
  split at h
  · cases h
  · rename_i nonempty
    cases h
    refine ⟨⟨by simpa using nonempty, fun c hc => ?_⟩, ?_, stops_dropWhile p text⟩
    · exact List.all_eq_true.1 List.all_takeWhile c hc
    · exact List.takeWhile_append_dropWhile.symm

theorem run_eq_none {p : Char → Bool} {text : Text} (h : Stops p text) : run p text = none := by
  cases text with
  | nil => rfl
  | cons c text => simp [run, List.takeWhile_cons_of_neg, stops_cons.1 h]

/-! ### Trimming -/

theorem trimStart_of_stops {text : Text} (h : Stops isBlank text) : trimStart text = text := by
  have none : ∀ c ∈ ([] : Text), isBlank c = true := by simp
  exact dropWhile_append none h

@[simp] theorem trimStart_append {gap : Text} (blank : Blank gap) (text : Text) :
    trimStart (gap ++ text) = trimStart text :=
  List.dropWhile_append_of_pos blank

theorem exists_gap (text : Text) :
    ∃ gap, Blank gap ∧ text = gap ++ trimStart text ∧ Stops isBlank (trimStart text) := by
  refine ⟨text.takeWhile isBlank, fun c hc => ?_, ?_, stops_dropWhile _ _⟩
  · exact List.all_eq_true.1 List.all_takeWhile c hc
  · exact List.takeWhile_append_dropWhile.symm

/-- The blanks before something visible are told by the text. -/
theorem gap_unique {gap gap' text text' : Text} (blank : Blank gap) (blank' : Blank gap')
    (visible : Stops isBlank text) (visible' : Stops isBlank text')
    (same : gap ++ text = gap' ++ text') : gap = gap' ∧ text = text' := by
  have front := congrArg (List.takeWhile isBlank) same
  have back := congrArg (List.dropWhile isBlank) same
  rw [takeWhile_append blank visible, takeWhile_append blank' visible'] at front
  rw [dropWhile_append blank visible, dropWhile_append blank' visible'] at back
  exact ⟨front, back⟩

def Ends (text : Text) : Prop := ∀ c ∈ text.getLast?, isBlank c = false

theorem ends_of_getLast {text : Text} {c : Char} (last : text.getLast? = some c)
    (visible : isBlank c = false) : Ends text := by
  intro d hd
  rw [last] at hd
  cases hd
  exact visible

theorem trimEnd_append {gap : Text} (blank : Blank gap) (text : Text) :
    trimEnd (text ++ gap) = trimEnd text := by
  have blank' : ∀ c ∈ gap.reverse, isBlank c = true := by
    intro c hc
    exact blank c (List.mem_reverse.1 hc)
  simp [trimEnd, List.dropWhile_append_of_pos blank']

theorem trimEnd_of_ends {text : Text} (h : Ends text) : trimEnd text = text := by
  have stops : Stops isBlank text.reverse := by
    intro c hc
    exact h c (by simpa using hc)
  have same : text.reverse.dropWhile isBlank = text.reverse := trimStart_of_stops stops
  simp [trimEnd, same]

theorem exists_trailing_gap (text : Text) :
    ∃ gap, Blank gap ∧ text = trimEnd text ++ gap ∧ Ends (trimEnd text) := by
  obtain ⟨gap, blank, split, stops⟩ := exists_gap text.reverse
  refine ⟨gap.reverse, fun c hc => blank c (List.mem_reverse.1 hc), ?_, ?_⟩
  · have := congrArg List.reverse split
    simpa [trimEnd, trimStart] using this
  · intro c hc
    exact stops c (by simpa [trimEnd, trimStart] using hc)

theorem ends_append {a b : Text} (last : b ≠ []) : Ends (a ++ b) ↔ Ends b := by
  have h : (a ++ b).getLast? = b.getLast? := by
    rw [List.getLast?_append, List.getLast?_eq_some_getLast last]
    rfl
  rw [Ends, h, Ends]

/-- Trimming takes blanks from both ends, and nothing from what neither begins nor ends with
one. -/
theorem exists_trim_gaps (text : Text) :
    ∃ lead trailing, Blank lead ∧ Blank trailing ∧ text = lead ++ trim text ++ trailing ∧
      Stops isBlank (trim text) ∧ Ends (trim text) := by
  obtain ⟨lead, blank_lead, split, stops⟩ := exists_gap text
  obtain ⟨trailing, blank_trailing, split', ends⟩ := exists_trailing_gap (trimStart text)
  refine ⟨lead, trailing, blank_lead, blank_trailing, ?_, ?_, ends⟩
  · calc text = lead ++ trimStart text := split
      _ = lead ++ (trim text ++ trailing) := congrArg (lead ++ ·) split'
      _ = lead ++ trim text ++ trailing := (List.append_assoc ..).symm
  · intro c hc
    refine stops c ?_
    rw [split']
    unfold trim at hc
    rw [List.head?_append, hc]
    rfl

theorem trim_gaps {lead text trailing : Text} (blank_lead : Blank lead)
    (blank_trailing : Blank trailing) (stops : Stops isBlank text) (ends : Ends text) :
    trim (lead ++ text ++ trailing) = text := by
  unfold trim
  rw [List.append_assoc, trimStart_append blank_lead]
  cases text with
  | nil =>
    rw [List.nil_append]
    have : trimStart trailing = [] := by
      simpa [trimStart] using trimStart_append blank_trailing []
    rw [this]
    rfl
  | cons c text =>
    rw [trimStart_of_stops ((stops_append (by simp)).2 stops), trimEnd_append blank_trailing,
      trimEnd_of_ends ends]

theorem trim_trim (text : Text) : trim (trim text) = trim text := by
  obtain ⟨lead, trailing, -, -, -, stops, ends⟩ := exists_trim_gaps text
  simpa using trim_gaps blank_nil blank_nil stops ends

theorem isInfix_trim (text : Text) : trim text <:+: text := by
  obtain ⟨lead, trailing, -, -, split, -⟩ := exists_trim_gaps text
  exact ⟨lead, trailing, split.symm⟩

/-! ### Literals and parts -/

theorem take_front (front rest : Text) :
    (front ++ rest).take ((front ++ rest).length - rest.length) = front := by
  simp

@[simp] theorem dropLiteral_append (word rest : Text) :
    dropLiteral? word (word ++ rest) = some rest := by
  induction word with
  | nil => rfl
  | cons w word ih => simp [dropLiteral?, ih]

theorem dropLiteral_eq_some {word text rest : Text} (h : dropLiteral? word text = some rest) :
    text = word ++ rest := by
  induction word generalizing text with
  | nil =>
    cases h
    rfl
  | cons w word ih =>
    cases text with
    | nil => cases h
    | cons c text =>
      simp only [dropLiteral?] at h
      split at h
      · rename_i same
        rw [ih h, same]
        rfl
      · cases h

theorem dropLiteral_eq_none {word text : Text} (h : ∀ rest, text ≠ word ++ rest) :
    dropLiteral? word text = none := by
  cases found : dropLiteral? word text with
  | none => rfl
  | some rest => exact absurd (dropLiteral_eq_some found) (h rest)

theorem startsWith_iff {word text : Text} :
    startsWith word text = true ↔ ∃ rest, text = word ++ rest := by
  unfold startsWith
  constructor
  · intro h
    obtain ⟨rest, found⟩ := Option.isSome_iff_exists.1 h
    exact ⟨rest, dropLiteral_eq_some found⟩
  · rintro ⟨rest, rfl⟩
    simp

theorem hasPart_iff {word text : Text} :
    hasPart word text = true ↔ ∃ a b, text = a ++ word ++ b := by
  induction text with
  | nil =>
    simp only [hasPart, List.isEmpty_iff]
    constructor
    · rintro rfl
      exact ⟨[], [], rfl⟩
    · rintro ⟨a, b, h⟩
      simp_all
  | cons c text ih =>
    simp only [hasPart, Bool.or_eq_true, startsWith_iff, ih]
    constructor
    · rintro (⟨rest, h⟩ | ⟨a, b, rfl⟩)
      · exact ⟨[], rest, h⟩
      · exact ⟨c :: a, b, rfl⟩
    · rintro ⟨a, b, h⟩
      cases a with
      | nil => exact .inl ⟨b, h⟩
      | cons d a =>
        refine .inr ⟨a, b, ?_⟩
        exact (List.cons.inj h).2

theorem hasPart_eq_true {word text : Text} : hasPart word text = true ↔ word <:+: text := by
  refine hasPart_iff.trans ?_
  constructor
  · rintro ⟨a, b, h⟩
    exact ⟨a, b, h.symm⟩
  · rintro ⟨a, b, h⟩
    exact ⟨a, b, h.symm⟩

theorem hasPart_eq_false {word text : Text} : hasPart word text = false ↔ ¬word <:+: text := by
  rw [← hasPart_eq_true, Bool.not_eq_true]

theorem joinWith_cons (separator first second : Text) (others : List Text) :
    joinWith separator (first :: second :: others) =
      first ++ (separator ++ joinWith separator (second :: others)) := by
  simp [joinWith]

end ProgressRules.Text
