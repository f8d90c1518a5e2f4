import ProgressRules.Comparison
import ProgressRules.Proofs.Text.Reading

/-! The written form of a comparison, and the reader of comparisons against it. What is read
is well formed and stands at the beginning of the text; a well-formed comparison is read as
itself unless the rest goes on with its number. -/

namespace ProgressRules

open Text (IsRun Stops Blank)

/-! ### References -/

def Segment.WellFormed : Segment → Prop
  | .member name => IsRun Text.isWord name
  | .key name => IsRun (· != Text.apostrophe) name

structure Reference.WellFormed (r : Reference) : Prop where
  root : IsRun Text.isWord r.root
  segments : ∀ s ∈ r.segments, s.WellFormed

def continuesReference (c : Char) : Bool := Text.isWord c || c == '.' || c == '['

def continuesNumber (c : Char) : Bool := Text.isDigit c || c == '.'

theorem not_isWord_of_not_continuesReference {c : Char} (h : continuesReference c = false) :
    Text.isWord c = false := by
  simp only [continuesReference, Bool.or_eq_false_iff] at h
  exact h.1.1

theorem not_continuesNumber_of_not_continuesReference {c : Char}
    (h : continuesReference c = false) : continuesNumber c = false := by
  simp only [continuesReference, Bool.or_eq_false_iff] at h
  simp [continuesNumber, Text.not_isDigit_of_not_isWord h.1.1, h.1.2]

theorem not_continuesReference_of_isBlank {c : Char} (h : Text.isBlank c = true) :
    continuesReference c = false := by
  simp only [continuesReference, Text.not_isWord_of_isBlank h, Bool.false_or,
    Bool.or_eq_false_iff, beq_eq_false_iff_ne]
  constructor <;> rintro rfl <;> exact absurd h (by decide)

namespace Segment

theorem text_ne_nil (s : Segment) : s.text ≠ [] := by
  cases s <;> simp [text]

theorem readKey_eq_some {text rest : Text} {s : Segment} (h : readKey text = some (s, rest)) :
    s.WellFormed ∧ text = s.text ++ rest := by
  unfold readKey at h
  split at h
  · split at h
    · rename_i hc
      split at h
      · rename_i name d after found
        cases h
        obtain ⟨isRun, split, stops⟩ := Text.run_eq_some found
        have hd : d = Text.apostrophe := by simpa using stops
        refine ⟨isRun, ?_⟩
        rw [hc, split, hd]
        simp [Segment.text]
      · cases h
    · cases h
  · cases h

theorem readMember_eq_some {text rest : Text} {s : Segment}
    (h : readMember text = some (s, rest)) : s.WellFormed ∧ text = s.text ++ rest := by
  unfold readMember at h
  split at h
  · simp only [Option.map_eq_some_iff, Prod.mk.injEq] at h
    obtain ⟨⟨name, after⟩, found, rfl, rfl⟩ := h
    obtain ⟨isRun, split, -⟩ := Text.run_eq_some found
    refine ⟨isRun, ?_⟩
    rw [split]
    rfl
  · cases h

theorem read_eq_some {text rest : Text} {s : Segment} (h : read text = some (s, rest)) :
    s.WellFormed ∧ text = s.text ++ rest := by
  unfold read at h
  rcases Option.or_eq_some_iff.1 h with h | ⟨-, h⟩
  · exact readKey_eq_some h
  · exact readMember_eq_some h

theorem read_append {s : Segment} {rest : Text} (h : s.WellFormed)
    (stops : ∀ name, s = .member name → Stops Text.isWord rest) :
    read (s.text ++ rest) = some (s, rest) := by
  cases s with
  | member name =>
    have found := Text.run_append h (stops name rfl)
    have noKey : readKey ('.' :: (name ++ rest)) = none := by simp [readKey]
    simp [read, Segment.text, noKey, readMember, found]
  | key name =>
    have found : Text.run (· != Text.apostrophe) (name ++ Text.apostrophe :: ']' :: rest) =
        some (name, Text.apostrophe :: ']' :: rest) := Text.run_append h (by simp)
    simp [read, Segment.text, readKey, found]

theorem read_eq_none {text : Text} (stops : Stops continuesReference text) : read text = none := by
  cases text with
  | nil => rfl
  | cons c text =>
    have hc := Text.stops_cons.1 stops
    simp only [continuesReference, Bool.or_eq_false_iff, beq_eq_false_iff_ne] at hc
    have noKey : readKey (c :: text) = none := by
      unfold readKey
      split
      · rename_i first
        exact absurd (List.cons.inj first).1 hc.2
      · rfl
    have noMember : readMember (c :: text) = none := by
      unfold readMember
      split
      · rename_i first
        exact absurd (List.cons.inj first).1 hc.1.2
      · rfl
    rw [read, noKey, noMember]
    rfl

theorem stops_text (s : Segment) (rest : Text) : Stops Text.isWord (s.text ++ rest) := by
  cases s <;> exact Text.stops_cons.2 (by decide)

theorem stops_flatMap (segments : List Segment) {rest : Text} (stops : Stops Text.isWord rest) :
    Stops Text.isWord (segments.flatMap Segment.text ++ rest) := by
  cases segments with
  | nil => exact stops
  | cons s segments =>
    rw [List.flatMap_cons, List.append_assoc]
    exact stops_text s _

theorem manyUpTo_eq {limit : Nat} {text after : Text} {segments : List Segment}
    (h : Text.manyUpTo read limit text = (segments, after)) :
    (∀ s ∈ segments, s.WellFormed) ∧ text = segments.flatMap Segment.text ++ after := by
  induction limit generalizing text segments with
  | zero =>
    cases h
    simp
  | succ limit ih =>
    simp only [Text.manyUpTo] at h
    split at h
    · rename_i s rest found
      obtain ⟨wellFormed, split⟩ := read_eq_some found
      obtain ⟨rfl, rfl⟩ := Prod.mk.inj h
      obtain ⟨others, split'⟩ :
          (∀ t ∈ (Text.manyUpTo read limit rest).1, t.WellFormed) ∧ rest = _ := ih rfl
      refine ⟨List.forall_mem_cons.2 ⟨wellFormed, others⟩, ?_⟩
      rw [List.flatMap_cons, List.append_assoc, ← split']
      exact split
    · cases h
      simp

theorem manyUpTo_append {segments : List Segment} {rest : Text} {limit : Nat}
    (h : ∀ s ∈ segments, s.WellFormed) (stops : Stops continuesReference rest)
    (enough : segments.length ≤ limit) :
    Text.manyUpTo read limit (segments.flatMap Segment.text ++ rest) = (segments, rest) := by
  induction segments generalizing limit with
  | nil =>
    cases limit with
    | zero => rfl
    | succ limit => simp [Text.manyUpTo, read_eq_none stops]
  | cons s segments ih =>
    cases limit with
    | zero => simp at enough
    | succ limit =>
      have h' := List.forall_mem_cons.1 h
      have stopsWord : Stops Text.isWord (segments.flatMap Segment.text ++ rest) :=
        stops_flatMap segments (stops.mono fun _ => not_isWord_of_not_continuesReference)
      have found := read_append h'.1 (fun _ _ => stopsWord)
      have more := ih h'.2 (Nat.le_of_succ_le_succ enough)
      simp [Text.manyUpTo, List.append_assoc, found, more]

theorem length_le_flatMap (segments : List Segment) :
    segments.length ≤ (segments.flatMap Segment.text).length := by
  induction segments with
  | nil => simp
  | cons s segments ih =>
    have := List.length_pos_iff.2 (text_ne_nil s)
    simp only [List.flatMap_cons, List.length_append, List.length_cons]
    omega

end Segment

namespace Reference

theorem read_eq_some {text rest : Text} {r : Reference} (h : read text = some (r, rest)) :
    r.WellFormed ∧ text = r.text ++ rest := by
  simp only [read, Option.map_eq_some_iff, Prod.mk.injEq] at h
  obtain ⟨⟨root, after⟩, found, rfl, rfl⟩ := h
  obtain ⟨isRun, split, -⟩ := Text.run_eq_some found
  obtain ⟨segments, split'⟩ : (∀ s ∈ (Text.many Segment.read after).1, s.WellFormed) ∧ after = _ :=
    Segment.manyUpTo_eq rfl
  refine ⟨⟨isRun, segments⟩, ?_⟩
  rw [split, Reference.text, List.append_assoc]
  exact congrArg (root ++ ·) split'

theorem read_append {r : Reference} {rest : Text} (h : r.WellFormed)
    (stops : Stops continuesReference rest) : read (r.text ++ rest) = some (r, rest) := by
  have stopsWord : Stops Text.isWord (r.segments.flatMap Segment.text ++ rest) :=
    Segment.stops_flatMap r.segments (stops.mono fun _ => not_isWord_of_not_continuesReference)
  have found := Text.run_append h.root stopsWord
  have enough : r.segments.length ≤ (r.segments.flatMap Segment.text ++ rest).length := by
    have := Segment.length_le_flatMap r.segments
    rw [List.length_append]
    omega
  have more := Segment.manyUpTo_append h.segments stops enough
  simp only [read, Reference.text, List.append_assoc, found, Option.map_some, Text.many, more]

theorem text_injective {r s : Reference} (hr : r.WellFormed) (hs : s.WellFormed)
    (same : r.text = s.text) : r = s := by
  have read := read_append hr (Text.stops_nil _)
  rw [same, read_append hs (Text.stops_nil _)] at read
  exact (Prod.mk.inj (Option.some.inj read)).1.symm

theorem read_eq_none {text : Text} (stops : Stops Text.isWord text) : read text = none := by
  simp [read, Text.run_eq_none stops]

end Reference

/-! ### Operators and numbers -/

def Operator.Known (o : Operator) : Prop := ∀ symbol, o ≠ .other symbol

structure Numeral.WellFormed (n : Numeral) : Prop where
  whole : IsRun Text.isDigit n.whole
  fraction : ∀ c ∈ n.fraction, Text.isDigit c = true

namespace Operator

theorem read_eq_some {text rest : Text} {o : Operator} (h : read text = some (o, rest)) :
    o.Known ∧ text = o.symbol ++ rest := by
  unfold read at h
  split at h <;> cases h <;> exact ⟨fun _ => Operator.noConfusion, rfl⟩

theorem read_append {o : Operator} {rest : Text} (h : o.Known) (stops : Stops (· == '=') rest) :
    read (o.symbol ++ rest) = some (o, rest) := by
  cases o with
  | other symbol => exact absurd rfl (h symbol)
  | ge => rfl
  | le => rfl
  | eq => rfl
  | ne => rfl
  | gt =>
    cases rest with
    | nil => rfl
    | cons c rest =>
      have hc : c ≠ '=' := by simpa using stops
      simp [read, symbol, hc]
  | lt =>
    cases rest with
    | nil => rfl
    | cons c rest =>
      have hc : c ≠ '=' := by simpa using stops
      simp [read, symbol, hc]

theorem symbol_eq_cons {o : Operator} (h : o.Known) :
    ∃ c rest, o.symbol = c :: rest ∧ c ∈ ['>', '<', '=', '!'] := by
  cases o with
  | other symbol => exact absurd rfl (h symbol)
  | ge => exact ⟨'>', ['='], rfl, by decide⟩
  | le => exact ⟨'<', ['='], rfl, by decide⟩
  | gt => exact ⟨'>', [], rfl, by decide⟩
  | lt => exact ⟨'<', [], rfl, by decide⟩
  | eq => exact ⟨'=', ['='], rfl, by decide⟩
  | ne => exact ⟨'!', ['='], rfl, by decide⟩

theorem mem_of_mem_symbol {o : Operator} (h : o.Known) :
    ∀ c ∈ o.symbol, c ∈ ['>', '<', '=', '!'] := by
  cases o with
  | other symbol => exact absurd rfl (h symbol)
  | ge | le | gt | lt | eq | ne => decide

theorem read_eq_none {text : Text} (h : Stops (['>', '<', '=', '!'].contains ·) text) :
    read text = none := by
  cases found : read text with
  | none => rfl
  | some result =>
    obtain ⟨known, split⟩ := read_eq_some found
    obtain ⟨c, more, same, initial⟩ := symbol_eq_cons known
    rw [split, same, List.cons_append, Text.stops_cons] at h
    exact absurd initial (by simpa using h)

theorem stops_symbol {o : Operator} (h : o.Known) {p : Char → Bool}
    (disjoint : ∀ c ∈ ['>', '<', '=', '!'], p c = false) (rest : Text) :
    Stops p (o.symbol ++ rest) := by
  obtain ⟨c, more, same, hc⟩ := symbol_eq_cons h
  rw [same]
  exact Text.stops_cons.2 (disjoint c hc)

/-- A reference does not go on with an operator and the blanks before it. -/
theorem stops_reference {gap : Text} (blank : Blank gap) {o : Operator} (h : o.Known)
    (rest : Text) : Stops continuesReference (gap ++ (o.symbol ++ rest)) :=
  blank.stops_append (fun _ => not_continuesReference_of_isBlank)
    (stops_symbol h (by decide) rest)

end Operator

namespace Numeral

theorem readFraction_eq_some {text fraction rest : Text}
    (h : readFraction text = some (fraction, rest)) :
    IsRun Text.isDigit fraction ∧ text = '.' :: fraction ++ rest ∧ Stops Text.isDigit rest := by
  unfold readFraction at h
  split at h
  · obtain ⟨isRun, split, stops⟩ := Text.run_eq_some h
    exact ⟨isRun, congrArg ('.' :: ·) split, stops⟩
  · cases h

theorem readFraction_eq_none {text : Text} (h : Stops (· == '.') text) :
    readFraction text = none := by
  unfold readFraction
  split
  · simp at h
  · rfl

theorem read_eq_some {text rest : Text} {n : Numeral} (h : read text = some (n, rest)) :
    n.WellFormed ∧ text = n.text ++ rest ∧ Stops Text.isDigit rest := by
  simp only [read, Option.map_eq_some_iff] at h
  obtain ⟨⟨whole, after⟩, found, result⟩ := h
  obtain ⟨isRun, split, stops⟩ := Text.run_eq_some found
  simp only at result
  split at result
  · rename_i fraction rest' found'
    cases result
    obtain ⟨isRun', split', stops'⟩ := readFraction_eq_some found'
    refine ⟨⟨isRun, isRun'.2⟩, ?_, stops'⟩
    rw [split, split']
    simp [Numeral.text, isRun'.1]
  · cases result
    refine ⟨⟨isRun, by simp⟩, ?_, stops⟩
    simpa [Numeral.text] using split

theorem read_append {n : Numeral} {rest : Text} (h : n.WellFormed)
    (stops : Stops continuesNumber rest) : read (n.text ++ rest) = some (n, rest) := by
  have stopsDigit : Stops Text.isDigit rest := by
    refine stops.mono fun c hc => ?_
    simp only [continuesNumber, Bool.or_eq_false_iff] at hc
    exact hc.1
  have stopsPoint : Stops (· == '.') rest := by
    refine stops.mono fun c hc => ?_
    simp only [continuesNumber, Bool.or_eq_false_iff] at hc
    exact hc.2
  obtain ⟨whole, fraction⟩ := n
  cases fraction with
  | nil =>
    have found := Text.run_append h.whole stopsDigit
    simp [read, Numeral.text, found, readFraction_eq_none stopsPoint]
  | cons d fraction =>
    have isRun : IsRun Text.isDigit (d :: fraction) := ⟨by simp, h.fraction⟩
    have found : Text.run Text.isDigit (whole ++ '.' :: (d :: fraction ++ rest)) =
        some (whole, '.' :: (d :: fraction ++ rest)) :=
      Text.run_append h.whole (Text.stops_cons.2 (by decide))
    have found' := Text.run_append isRun stopsDigit
    simp only [List.cons_append] at found found'
    simp [read, Numeral.text, found, readFraction, found']

/-- With any rest a number is read, and it may be longer than the one that was written. -/
theorem exists_read {n : Numeral} (h : n.WellFormed) (rest : Text) :
    ∃ m after, read (n.text ++ rest) = some (m, after) ∧ after <:+ rest := by
  obtain ⟨whole, fraction⟩ := n
  cases fraction with
  | nil =>
    obtain ⟨more, after, found, rfl⟩ := Text.exists_run h.whole rest
    simp only [read, Numeral.text, List.isEmpty_nil, if_true, found, Option.map_some]
    cases point : readFraction after with
    | none => exact ⟨_, _, rfl, List.suffix_append more after⟩
    | some result =>
      obtain ⟨fraction, last⟩ := result
      obtain ⟨-, rfl, -⟩ := readFraction_eq_some point
      exact ⟨_, _, rfl, (List.suffix_append _ last).trans (List.suffix_append more _)⟩
  | cons d fraction =>
    have isRun : IsRun Text.isDigit (d :: fraction) := ⟨by simp, h.fraction⟩
    obtain ⟨more, after, found, rfl⟩ := Text.exists_run isRun rest
    have whole_found : Text.run Text.isDigit (whole ++ '.' :: (d :: fraction ++ (more ++ after))) =
        some (whole, '.' :: (d :: fraction ++ (more ++ after))) :=
      Text.run_append h.whole (Text.stops_cons.2 (by decide))
    have point : readFraction ('.' :: (d :: fraction ++ (more ++ after))) =
        some (d :: fraction ++ more, after) := found
    refine ⟨⟨whole, d :: fraction ++ more⟩, after, ?_, List.suffix_append more after⟩
    simp only [read, Numeral.text, List.isEmpty_cons, Bool.false_eq_true, if_false,
      List.append_assoc, List.cons_append] at whole_found point ⊢
    simp only [whole_found, point, Option.map_some]

theorem text_ne_nil {n : Numeral} (h : n.WellFormed) : n.text ≠ [] := by
  unfold text
  split
  · exact h.whole.1
  · simp

theorem stops_text {n : Numeral} (h : n.WellFormed) {p : Char → Bool}
    (disjoint : ∀ c, Text.isDigit c = true → p c = false) (rest : Text) :
    Stops p (n.text ++ rest) := by
  unfold text
  split
  · exact h.whole.stops disjoint
  · rw [List.append_assoc]
    exact h.whole.stops disjoint

theorem continuesNumber_of_mem {n : Numeral} (h : n.WellFormed) {c : Char} (inside : c ∈ n.text) :
    continuesNumber c = true := by
  unfold text at inside
  split at inside
  · simp [continuesNumber, h.whole.2 c inside]
  · rcases List.mem_append.1 inside with whole | fraction
    · simp [continuesNumber, h.whole.2 c whole]
    · rcases List.mem_cons.1 fraction with rfl | fraction
      · rfl
      · simp [continuesNumber, h.fraction c fraction]

theorem getLast_text {n : Numeral} (h : n.WellFormed) :
    ∃ c, n.text.getLast? = some c ∧ Text.isDigit c = true := by
  unfold text
  split
  · exact h.whole.getLast
  · rename_i nonempty
    have isRun : IsRun Text.isDigit n.fraction := ⟨by simpa using nonempty, h.fraction⟩
    obtain ⟨c, hc, digit⟩ := isRun.getLast
    refine ⟨c, ?_, digit⟩
    rw [List.getLast?_append, List.getLast?_cons, hc]
    rfl

end Numeral

/-! ### Comparisons -/

/-- A comparison with the blanks that stand on both sides of its operator. -/
structure WrittenComparison where
  reference : Reference
  left : Text
  operator : Operator
  right : Text
  number : Numeral

namespace WrittenComparison

structure WellFormed (w : WrittenComparison) : Prop where
  reference : w.reference.WellFormed
  left : Blank w.left
  operator : w.operator.Known
  right : Blank w.right
  number : w.number.WellFormed

def text (w : WrittenComparison) : Text :=
  w.reference.text ++ (w.left ++ (w.operator.symbol ++ (w.right ++ w.number.text)))

def markedText (w : WrittenComparison) : Text := '#' :: w.text

def comparison (w : WrittenComparison) : Comparison :=
  ⟨w.reference.text, w.operator, w.number.nearest, w.number.text⟩

theorem threshold_comparison (w : WrittenComparison) :
    w.comparison.threshold = w.number.nearest := by
  simp only [comparison]

theorem text_append (w : WrittenComparison) (rest : Text) :
    w.text ++ rest = w.reference.text ++
      (w.left ++ (w.operator.symbol ++ (w.right ++ (w.number.text ++ rest)))) := by
  simp [text]

theorem WellFormed.stops_equals {w : WrittenComparison} (h : w.WellFormed) (rest : Text) :
    Stops (· == '=') (w.right ++ (w.number.text ++ rest)) := by
  refine h.right.stops_append (fun c hc => ?_) (Numeral.stops_text h.number (fun c hc => ?_) rest)
  · simp only [beq_eq_false_iff_ne]
    rintro rfl
    exact absurd hc (by decide)
  · simp only [beq_eq_false_iff_ne]
    rintro rfl
    exact absurd hc (by decide)

/-- Characters that a comparison holds in its reference only. -/
def foreign : List Char := ['#', '&', '|', '(', ')']

theorem WellFormed.not_mem_text {w : WrittenComparison} (h : w.WellFormed) {s : Char}
    (hs : s ∈ foreign) (outside : s ∉ w.reference.text) : s ∉ w.text := by
  have kinds : ∀ s ∈ foreign, Text.isBlank s = false ∧ continuesNumber s = false ∧
      s ∉ ['>', '<', '=', '!'] := by decide
  obtain ⟨visible, number, symbols⟩ := kinds s hs
  intro inside
  simp only [text, List.mem_append] at inside
  rcases inside with reference | left | symbol | right | digits
  · exact outside reference
  · exact h.left.not_mem visible left
  · exact symbols (Operator.mem_of_mem_symbol h.operator s symbol)
  · exact h.right.not_mem visible right
  · rw [Numeral.continuesNumber_of_mem h.number digits] at number
    cases number

theorem getLast_text {w : WrittenComparison} (h : w.WellFormed) :
    ∃ c, w.text.getLast? = some c ∧ Text.isDigit c = true := by
  obtain ⟨c, hc, digit⟩ := Numeral.getLast_text h.number
  refine ⟨c, ?_, digit⟩
  simp [text, List.getLast?_append, hc]

theorem text_ne_nil {w : WrittenComparison} (h : w.WellFormed) : w.text ≠ [] := by
  obtain ⟨c, last, -⟩ := getLast_text h
  rintro none
  rw [none] at last
  cases last

theorem text_injective {w v : WrittenComparison} (hw : w.WellFormed) (hv : v.WellFormed)
    (same : w.text = v.text) : w = v := by
  have symbolFirst {u : WrittenComparison} (h : u.WellFormed) :
      Stops Text.isBlank (u.operator.symbol ++ (u.right ++ (u.number.text ++ []))) :=
    Operator.stops_symbol h.operator (by decide) _
  have numberFirst {u : WrittenComparison} (h : u.WellFormed) :
      Stops Text.isBlank (u.number.text ++ []) :=
    Numeral.stops_text h.number (fun c hc => Text.not_isBlank_of_isDigit hc) []
  have parts : w.text ++ [] = v.text ++ [] := congrArg (· ++ []) same
  rw [text_append, text_append] at parts
  -- the parts are read off from left to right, and each reader finds the same on both sides
  have reference := congrArg Reference.read parts
  rw [Reference.read_append hw.reference (Operator.stops_reference hw.left hw.operator _),
    Reference.read_append hv.reference (Operator.stops_reference hv.left hv.operator _)] at reference
  obtain ⟨same_reference, parts⟩ := Prod.mk.inj (Option.some.inj reference)
  obtain ⟨same_left, parts⟩ :=
    Text.gap_unique hw.left hv.left (symbolFirst hw) (symbolFirst hv) parts
  have operator := congrArg Operator.read parts
  rw [Operator.read_append hw.operator (hw.stops_equals []),
    Operator.read_append hv.operator (hv.stops_equals [])] at operator
  obtain ⟨same_operator, parts⟩ := Prod.mk.inj (Option.some.inj operator)
  obtain ⟨same_right, parts⟩ :=
    Text.gap_unique hw.right hv.right (numberFirst hw) (numberFirst hv) parts
  have number := congrArg Numeral.read parts
  rw [Numeral.read_append hw.number (Text.stops_nil _),
    Numeral.read_append hv.number (Text.stops_nil _)] at number
  obtain ⟨same_number, -⟩ := Prod.mk.inj (Option.some.inj number)
  cases w
  cases v
  simp_all only

theorem getLast_markedText {w : WrittenComparison} (h : w.WellFormed) :
    ∃ c, w.markedText.getLast? = some c ∧ Text.isDigit c = true := by
  obtain ⟨c, hc, digit⟩ := getLast_text h
  refine ⟨c, ?_, digit⟩
  simp [markedText, List.getLast?_cons, hc]

theorem WellFormed.ends_markedText {w : WrittenComparison} (h : w.WellFormed) :
    Text.Ends w.markedText := by
  obtain ⟨c, last, digit⟩ := getLast_markedText h
  exact Text.ends_of_getLast last (Text.not_isBlank_of_isDigit digit)

end WrittenComparison

namespace Comparison

/-- Up to its number a comparison is read as it is written, whatever follows. -/
theorem read_text_append {w : WrittenComparison} (h : w.WellFormed) (rest : Text) :
    read (w.text ++ rest) = (Numeral.read (w.number.text ++ rest)).map fun (n, after) =>
      (⟨w.reference.text, w.operator, n.nearest, n.text⟩, after) := by
  have symbolFirst : Stops Text.isBlank
      (w.operator.symbol ++ (w.right ++ (w.number.text ++ rest))) :=
    Operator.stops_symbol h.operator (by decide) _
  have numberFirst : Stops Text.isBlank (w.number.text ++ rest) :=
    Numeral.stops_text h.number (fun c hc => Text.not_isBlank_of_isDigit hc) rest
  rw [WrittenComparison.text_append]
  simp only [read, Reference.read_append h.reference (Operator.stops_reference h.left h.operator _),
    Text.trimStart_append h.left, Text.trimStart_of_stops symbolFirst,
    Operator.read_append h.operator (h.stops_equals rest), Text.trimStart_append h.right,
    Text.trimStart_of_stops numberFirst, Option.bind_eq_bind, Option.bind_some]
  cases Numeral.read (w.number.text ++ rest) <;> rfl

theorem read_append {w : WrittenComparison} {rest : Text} (h : w.WellFormed)
    (stops : Stops continuesNumber rest) : read (w.text ++ rest) = some (w.comparison, rest) := by
  rw [read_text_append h, Numeral.read_append h.number stops]
  rfl

theorem read_eq_some {text rest : Text} {c : Comparison} (h : read text = some (c, rest)) :
    ∃ w : WrittenComparison, w.WellFormed ∧ w.comparison = c ∧ text = w.text ++ rest ∧
      Stops Text.isDigit rest := by
  simp only [read, Option.bind_eq_bind, Option.bind_eq_some_iff] at h
  obtain ⟨⟨reference, afterReference⟩, foundReference, ⟨operator, afterOperator⟩, foundOperator,
    ⟨number, rest'⟩, foundNumber, result⟩ := h
  cases result
  obtain ⟨left, blank_left, split_left, -⟩ := Text.exists_gap afterReference
  obtain ⟨right, blank_right, split_right, -⟩ := Text.exists_gap afterOperator
  obtain ⟨wf_reference, split_reference⟩ := Reference.read_eq_some foundReference
  obtain ⟨known, split_operator⟩ := Operator.read_eq_some foundOperator
  obtain ⟨wf_number, split_number, stops⟩ := Numeral.read_eq_some foundNumber
  refine ⟨⟨reference, left, operator, right, number⟩,
    ⟨wf_reference, blank_left, known, blank_right, wf_number⟩, rfl, ?_, stops⟩
  rw [WrittenComparison.text_append, ← split_number, ← split_right, ← split_operator,
    ← split_left, ← split_reference]

def IsWritten (c : Comparison) : Prop := ∃ w : WrittenComparison, w.WellFormed ∧ w.comparison = c

theorem readMarked_append {w : WrittenComparison} {rest : Text} (h : w.WellFormed)
    (stops : Stops continuesNumber rest) :
    readMarked (w.markedText ++ rest) = some (w.comparison, rest) :=
  read_append h stops

theorem exists_readMarked {w : WrittenComparison} (h : w.WellFormed) (rest : Text) :
    ∃ c after, readMarked (w.markedText ++ rest) = some (c, after) ∧ after <:+ rest := by
  obtain ⟨n, after, found, within⟩ := Numeral.exists_read h.number rest
  refine ⟨⟨w.reference.text, w.operator, n.nearest, n.text⟩, after, ?_, within⟩
  have unmarked : readMarked (w.markedText ++ rest) = read (w.text ++ rest) := rfl
  rw [unmarked, read_text_append h, found]
  rfl

theorem readMarked_eq_some {text rest : Text} {c : Comparison}
    (h : readMarked text = some (c, rest)) :
    ∃ w : WrittenComparison, w.WellFormed ∧ w.comparison = c ∧ text = w.markedText ++ rest := by
  unfold readMarked at h
  split at h
  · obtain ⟨w, wellFormed, same, split, -⟩ := read_eq_some h
    exact ⟨w, wellFormed, same, congrArg ('#' :: ·) split⟩
  · cases h

theorem readMarked_eq_none {text : Text} (h : Stops (· == '#') text) : readMarked text = none := by
  unfold readMarked
  split
  · simp at h
  · rfl

/-- A whole text is a comparison if it is a written one with blanks around it. -/
theorem ofText_eq_some {text : Text} {c : Comparison} :
    ofText? text = some c ↔ ∃ (w : WrittenComparison) (lead trailing : Text), w.WellFormed ∧
      w.comparison = c ∧ Blank lead ∧ Blank trailing ∧
      text = lead ++ w.markedText ++ trailing := by
  constructor
  · intro h
    unfold ofText? at h
    split at h
    · rename_i found
      cases h
      obtain ⟨w, wellFormed, same, split⟩ := readMarked_eq_some found
      obtain ⟨lead, trailing, blank_lead, blank_trailing, split', -⟩ := Text.exists_trim_gaps text
      refine ⟨w, lead, trailing, wellFormed, same, blank_lead, blank_trailing, ?_⟩
      rw [split', split, List.append_nil]
    · cases h
  · rintro ⟨w, lead, trailing, wellFormed, rfl, blank_lead, blank_trailing, rfl⟩
    have trimmed : Text.trim (lead ++ w.markedText ++ trailing) = w.markedText :=
      Text.trim_gaps blank_lead blank_trailing (Text.stops_cons.2 (by decide))
        wellFormed.ends_markedText
    have found := readMarked_append wellFormed (Text.stops_nil _)
    rw [List.append_nil] at found
    simp only [ofText?, trimmed, found]

end Comparison

end ProgressRules
