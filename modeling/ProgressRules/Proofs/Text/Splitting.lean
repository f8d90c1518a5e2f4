import ProgressRules.Proofs.Text.Reading

/-! Splitting a text at a symbol with blanks around it. The parts and the separators between
them make up the text, and parts without the symbol are found again in a joined text. -/

namespace ProgressRules.Text

def IsSeparator (symbol separator : Text) : Prop :=
  ∃ left right, Blank left ∧ Blank right ∧ separator = left ++ symbol ++ right

/-- The text consists of the parts, with separators between neighbours. -/
inductive Joined (symbol : Text) : List Text → Text → Prop where
  | last (part : Text) : Joined symbol [part] part
  | more {parts : List Text} {part separator text : Text} :
      IsSeparator symbol separator → Joined symbol parts text →
        Joined symbol (part :: parts) (part ++ separator ++ text)

theorem Joined.ne_nil {symbol text : Text} {parts : List Text} (h : Joined symbol parts text) :
    parts ≠ [] := by
  cases h <;> simp

theorem Joined.single_or_several {symbol text : Text} {parts : List Text}
    (h : Joined symbol parts text) : parts = [text] ∨ 2 ≤ parts.length := by
  cases h with
  | last => exact .inl rfl
  | more separator joined =>
    have := List.length_pos_iff.2 joined.ne_nil
    exact .inr (Nat.succ_le_succ this)

theorem Joined.hasPart {symbol text : Text} {parts : List Text} (h : Joined symbol parts text)
    (several : 2 ≤ parts.length) : hasPart symbol text = true := by
  cases h with
  | last => simp at several
  | @more parts part separator text isSeparator joined =>
    obtain ⟨left, right, -, -, rfl⟩ := isSeparator
    exact hasPart_iff.2 ⟨part ++ left, right ++ text, by simp⟩

theorem Joined.exists_append {symbol text part : Text} {parts : List Text}
    (h : Joined symbol (part :: parts) text) : ∃ rest, text = part ++ rest := by
  cases h with
  | last => exact ⟨[], by simp⟩
  | more => exact ⟨_, List.append_assoc ..⟩

theorem Joined.isInfix_of_mem {symbol text part : Text} {parts : List Text}
    (h : Joined symbol parts text) (member : part ∈ parts) : part <:+: text := by
  induction h with
  | last => exact List.mem_singleton.1 member ▸ List.infix_refl _
  | @more parts first separator text isSeparator joined ih =>
    rcases List.mem_cons.1 member with rfl | member
    · exact ⟨[], separator ++ text, by simp⟩
    · exact (ih member).trans ⟨first ++ separator, [], by simp⟩

/-- A doubled character does not reach over a text without this character. -/
theorem hasPart_apart {s : Char} {a separator b : Text} (nonempty : separator ≠ [])
    (outside : s ∉ separator) (h : hasPart [s, s] (a ++ separator ++ b) = true) :
    hasPart [s, s] a = true ∨ hasPart [s, s] b = true := by
  obtain ⟨front, back, split⟩ := hasPart_iff.1 h
  simp only [List.append_assoc] at split
  rcases List.append_eq_append_iff.1 split with ⟨more, hfront, hrest⟩ | ⟨more, ha, hrest⟩
  · -- the doubled character stands behind the first text
    right
    rcases List.append_eq_append_iff.1 hrest with ⟨others, -, hb⟩ | ⟨others, hsep, hback⟩
    · exact hasPart_iff.2 ⟨others, back, by rw [hb, List.append_assoc]⟩
    · match others, hsep, hback with
      | [], hsep, hback => exact hasPart_iff.2 ⟨[], back, by simpa using hback.symm⟩
      | c :: others, hsep, hback =>
        obtain ⟨rfl, -⟩ := List.cons.inj hback
        exact absurd (by simp [hsep]) outside
  · left
    match more, ha, hrest with
    | [], ha, hrest =>
      obtain ⟨c, separator, rfl⟩ := List.exists_cons_of_ne_nil nonempty
      obtain ⟨rfl, -⟩ := List.cons.inj hrest
      exact absurd List.mem_cons_self outside
    | [c], ha, hrest =>
      obtain ⟨d, separator, rfl⟩ := List.exists_cons_of_ne_nil nonempty
      obtain ⟨-, hrest⟩ := List.cons.inj hrest
      obtain ⟨rfl, -⟩ := List.cons.inj hrest
      exact absurd List.mem_cons_self outside
    | c :: d :: more, ha, hrest =>
      simp only [List.cons_append, List.nil_append, List.cons.injEq] at hrest
      obtain ⟨rfl, rfl, -⟩ := hrest
      exact hasPart_iff.2 ⟨front, more, by simp [ha]⟩

/-- Nor does it reach into the blanks around a text. -/
theorem hasPart_of_gaps {s : Char} (visible : isBlank s = false) {lead body trailing : Text}
    (blank_lead : Blank lead) (blank_trailing : Blank trailing)
    (h : hasPart [s, s] (lead ++ body ++ trailing) = true) : hasPart [s, s] body = true := by
  have empty : hasPart [s, s] [] = false := rfl
  have front : hasPart [s, s] (lead ++ body) = true := by
    by_cases none : trailing = []
    · simpa [none] using h
    · rw [← List.append_nil (lead ++ body ++ trailing)] at h
      exact (hasPart_apart none (blank_trailing.not_mem visible) h).resolve_right (by simp [empty])
  by_cases none : lead = []
  · simpa [none] using front
  · have h' : hasPart [s, s] ([] ++ lead ++ body) = true := front
    exact (hasPart_apart none (blank_lead.not_mem visible) h').resolve_left (by simp [empty])

theorem Joined.not_hasPart {s : Char} {symbol text : Text} {parts : List Text}
    (h : Joined symbol parts text) (visible : isBlank s = false) (nonempty : symbol ≠ [])
    (outside : s ∉ symbol) (without : ∀ part ∈ parts, Text.hasPart [s, s] part = false) :
    Text.hasPart [s, s] text = false := by
  induction h with
  | last => exact without _ (by simp)
  | @more parts part separator text isSeparator joined ih =>
    obtain ⟨first, others⟩ := List.forall_mem_cons.1 without
    obtain ⟨left, right, blank_left, blank_right, rfl⟩ := isSeparator
    have outside' : s ∉ left ++ symbol ++ right := by
      simp only [List.mem_append, not_or]
      exact ⟨⟨blank_left.not_mem visible, outside⟩, blank_right.not_mem visible⟩
    refine Bool.eq_false_iff.2 fun found => ?_
    rcases hasPart_apart (by simp [nonempty]) outside' found with inside | inside
    · rw [first] at inside
      cases inside
    · rw [ih others] at inside
      cases inside

theorem Joined.stops {p : Char → Bool} {symbol text : Text} {parts : List Text}
    (h : Joined symbol parts text) (part : ∀ part ∈ parts, part ≠ [] ∧ Stops p part) :
    Stops p text := by
  cases h with
  | last => exact (part _ (by simp)).2
  | more isSeparator joined =>
    obtain ⟨nonempty, stops⟩ := part _ List.mem_cons_self
    rw [List.append_assoc]
    exact (stops_append nonempty).2 stops

theorem Joined.ends {symbol text : Text} {parts : List Text} (h : Joined symbol parts text)
    (part : ∀ part ∈ parts, part ≠ [] ∧ Ends part) : text ≠ [] ∧ Ends text := by
  induction h with
  | last => exact part _ (by simp)
  | more isSeparator joined ih =>
    obtain ⟨-, others⟩ := List.forall_mem_cons.1 part
    obtain ⟨nonempty, ends⟩ := ih others
    exact ⟨by simp [nonempty], (ends_append nonempty).2 ends⟩

theorem padded_eq_some {symbol text after : Text} (h : padded symbol text = some after) :
    ∃ separator, IsSeparator symbol separator ∧ text = separator ++ after := by
  unfold padded at h
  obtain ⟨rest, found, rfl⟩ := Option.map_eq_some_iff.1 h
  obtain ⟨left, blank_left, split_left, -⟩ := exists_gap text
  obtain ⟨right, blank_right, split_right, -⟩ := exists_gap rest
  refine ⟨left ++ symbol ++ right, ⟨left, right, blank_left, blank_right, rfl⟩, ?_⟩
  rw [split_left, dropLiteral_eq_some found]
  simp only [List.append_assoc]
  rw [← split_right]

theorem padded_eq_none_of_not_mem {symbol text : Text} {s : Char} (inside : s ∈ symbol)
    (outside : s ∉ text) : padded symbol text = none := by
  cases found : padded symbol text with
  | none => rfl
  | some after =>
    obtain ⟨separator, ⟨left, right, -, -, rfl⟩, split⟩ := padded_eq_some found
    exact absurd (by simp [split, inside]) outside

/-- Nor does a separator begin in a front without the symbol, if what follows is visible and
something else. -/
theorem padded_eq_none_of_outside {s : Char} {front rest : Text} (outside : s ∉ front)
    (visible : Stops isBlank rest) (other : Stops (· == s) rest) (word : Text) :
    padded (s :: word) (front ++ rest) = none := by
  obtain ⟨gap, blank, split, stops⟩ := exists_gap front
  have first : Stops isBlank (trimStart front ++ rest) ∧ Stops (· == s) (trimStart front ++ rest) := by
    cases same : trimStart front with
    | nil => exact ⟨visible, other⟩
    | cons c front' =>
      rw [same] at split stops
      refine ⟨stops_cons.2 (stops_cons.1 stops), stops_cons.2 ?_⟩
      simp only [beq_eq_false_iff_ne]
      rintro rfl
      exact outside (by simp [split])
  have none : dropLiteral? (s :: word) (trimStart front ++ rest) = none := by
    refine dropLiteral_eq_none fun after same => ?_
    rw [same] at first
    exact absurd (stops_cons.1 first.2) (by simp)
  rw [split, padded, List.append_assoc, trimStart_append blank, trimStart_of_stops first.1, none,
    Option.map_none]

theorem padded_append {symbol left right after : Text} (blank_left : Blank left)
    (blank_right : Blank right) (visible : Stops isBlank (symbol ++ (right ++ after)))
    (stops : Stops isBlank after) :
    padded symbol (left ++ (symbol ++ (right ++ after))) = some after := by
  unfold padded
  rw [trimStart_append blank_left, trimStart_of_stops visible, dropLiteral_append,
    Option.map_some, trimStart_append blank_right, trimStart_of_stops stops]

section
variable {separator : Text → Option Text}

theorem splitFrom_skip (front rest : Text) :
    splitFrom separator front.length (front ++ rest) = splitFrom separator 0 rest := by
  induction front with
  | nil => rfl
  | cons c front ih => exact ih

theorem splitFrom_append {front after : Text} (nonempty : front ≠ [])
    (h : separator (front ++ after) = some after) :
    splitFrom separator 0 (front ++ after) = [] :: splitFrom separator 0 after := by
  cases front with
  | nil => exact absurd rfl nonempty
  | cons c front =>
    rw [List.cons_append] at h ⊢
    have size : (front ++ after).length - after.length = front.length := by simp
    simp only [splitFrom, h, size, splitFrom_skip]

def extendFirst (front : Text) : List Text → List Text
  | [] => [front]
  | part :: parts => (front ++ part) :: parts

theorem splitFrom_inert {front rest : Text}
    (h : ∀ a b, front = a ++ b → b ≠ [] → separator (b ++ rest) = none) :
    splitFrom separator 0 (front ++ rest) = extendFirst front (splitFrom separator 0 rest) := by
  induction front with
  | nil =>
    cases same : splitFrom separator 0 rest with
    | nil => cases rest <;> grind [splitFrom]
    | cons part parts => simp [extendFirst, same]
  | cons c front ih =>
    have here : separator (c :: (front ++ rest)) = none := h [] (c :: front) rfl (by simp)
    have later := ih fun a b same nonempty => h (c :: a) b (by rw [same]; rfl) nonempty
    rw [List.cons_append]
    simp only [splitFrom, here, later]
    cases splitFrom separator 0 rest <;> simp [extendFirst]

end

theorem padded_symbol_ne_nil {symbol text after : Text} (nonempty : symbol ≠ [])
    (h : padded symbol text = some after) :
    ∃ separator, IsSeparator symbol separator ∧ separator ≠ [] ∧ text = separator ++ after := by
  obtain ⟨separator, isSeparator, split⟩ := padded_eq_some h
  refine ⟨separator, isSeparator, ?_, split⟩
  obtain ⟨left, right, -, -, rfl⟩ := isSeparator
  simp [nonempty]

theorem joined_splitFrom {symbol : Text} (nonempty : symbol ≠ []) (skip : Nat) (text : Text) :
    Joined symbol (splitFrom (padded symbol) skip text) (text.drop skip) := by
  induction text generalizing skip with
  | nil =>
    rw [splitFrom, List.drop_nil]
    exact .last []
  | cons c text ih =>
    cases skip with
    | succ skip => exact ih skip
    | zero =>
      rw [splitFrom]
      -- a separator ends an empty part; any other character joins the first part of the tail
      split
      · rename_i after found
        obtain ⟨separator, isSeparator, visible, split⟩ := padded_symbol_ne_nil nonempty found
        obtain ⟨d, more, rfl⟩ := List.exists_cons_of_ne_nil visible
        obtain ⟨rfl, same⟩ := List.cons.inj split
        have size : text.length - after.length = more.length := by simp [same]
        have tail := ih more.length
        rw [same, List.append_eq, List.drop_left, ← List.append_eq, ← same] at tail
        rw [size, List.drop_zero, split]
        exact (Joined.more isSeparator tail : Joined symbol (_ :: _) ([] ++ _ ++ _))
      · have tail := ih 0
        split
        · rename_i same
          rw [same] at tail
          cases tail
        · rename_i part parts same
          rw [same] at tail
          cases tail with
          | last => exact .last _
          | @more _ _ separator text' isSeparator joined =>
            exact (Joined.more isSeparator joined :
              Joined symbol (_ :: _) ((c :: part) ++ separator ++ text'))

theorem joined_partsBetween {symbol : Text} (nonempty : symbol ≠ []) (text : Text) :
    Joined symbol (partsBetween (padded symbol) text) text :=
  joined_splitFrom nonempty 0 text

/-- No part holds the symbol, since the first one that is met ends its part. -/
theorem not_hasPart_of_mem_splitFrom {symbol : Text} (nonempty : symbol ≠ [])
    (visible : Stops isBlank symbol) (skip : Nat) (text : Text) :
    ∀ part ∈ splitFrom (padded symbol) skip text, hasPart symbol part = false := by
  have empty : hasPart symbol [] = false := by simpa [hasPart] using nonempty
  induction text generalizing skip with
  | nil => simpa [splitFrom] using empty
  | cons c text ih =>
    cases skip with
    | succ skip => exact ih skip
    | zero =>
      rw [splitFrom]
      split
      · exact List.forall_mem_cons.2 ⟨empty, ih _⟩
      · rename_i none
        have tail := joined_splitFrom nonempty 0 text
        split
        · rename_i same
          rw [same] at tail
          exact absurd rfl tail.ne_nil
        · rename_i part parts same
          have inside := ih 0
          rw [same] at inside tail
          obtain ⟨first, others⟩ := List.forall_mem_cons.1 inside
          refine List.forall_mem_cons.2 ⟨?_, others⟩
          -- a symbol at the beginning of the longer part would have been a separator
          rw [hasPart, first, Bool.or_false]
          refine Bool.eq_false_iff.2 fun begins => ?_
          obtain ⟨rest, hrest⟩ := startsWith_iff.1 begins
          obtain ⟨more, htext⟩ := tail.exists_append
          rw [List.drop_zero] at htext
          have split : c :: text = symbol ++ (rest ++ more) := by
            rw [htext, ← List.append_assoc, ← hrest]
            rfl
          have found : padded symbol (c :: text) = some (trimStart (rest ++ more)) := by
            rw [split, padded, trimStart_of_stops ((stops_append nonempty).2 visible),
              dropLiteral_append, Option.map_some]
          rw [none] at found
          cases found

/-- A part in which no separator can begin: it does not hold the symbol, and it does not end
with a blank or with a piece of the symbol. -/
structure Plain (s : Char) (part : Text) : Prop where
  without : hasPart [s, s] part = false
  last : ∃ c, part.getLast? = some c ∧ isBlank c = false ∧ c ≠ s

theorem plain_of_not_mem {s c : Char} {part : Text} (outside : s ∉ part)
    (last : part.getLast? = some c) (visible : isBlank c = false) : Plain s part where
  without := by
    refine Bool.eq_false_iff.2 fun inside => ?_
    obtain ⟨a, b, split⟩ := hasPart_iff.1 inside
    exact outside (by simp [split])
  last := by
    refine ⟨c, last, visible, ?_⟩
    rintro rfl
    exact outside (List.mem_of_getLast? last)

theorem Plain.padded_eq_none {s : Char} {part a b rest : Text} (h : Plain s part)
    (same : part = a ++ b) (nonempty : b ≠ []) : padded [s, s] (b ++ rest) = none := by
  cases found : padded [s, s] (b ++ rest) with
  | none => rfl
  | some after =>
    exfalso
    obtain ⟨separator, ⟨left, right, blank_left, -, rfl⟩, split⟩ := padded_eq_some found
    obtain ⟨c, last, visible, other⟩ := h.last
    have last_b : b.getLast? = some c := by
      rwa [same, List.getLast?_append, List.getLast?_eq_some_getLast nonempty, Option.some_or,
        ← List.getLast?_eq_some_getLast nonempty] at last
    have not_blank : ∀ more, left ≠ b ++ more := by
      rintro more rfl
      have inside : c ∈ b := List.mem_of_getLast? last_b
      exact blank_left.not_mem visible (List.mem_append_left _ inside)
    -- the symbol begins before, at, or inside the last character of the part
    simp only [List.append_assoc] at split
    rcases List.append_eq_append_iff.1 split with ⟨more, hleft, -⟩ | ⟨more, hb, hrest⟩
    · exact not_blank more hleft
    · match more, hb, hrest with
      | [], hb, _ => exact not_blank [] (by simpa using hb.symm)
      | [d], hb, hrest =>
        have hd : d = s := by simpa using (List.cons.inj hrest).1.symm
        rw [hb, List.getLast?_append, hd] at last_b
        exact other (Option.some.inj last_b).symm
      | d :: e :: more, hb, hrest =>
        simp only [List.cons_append, List.nil_append, List.cons.injEq] at hrest
        obtain ⟨rfl, rfl, -⟩ := hrest
        have inside : hasPart [s, s] part = true :=
          hasPart_iff.2 ⟨a ++ left, more, by rw [same, hb]; simp⟩
        rw [h.without] at inside
        cases inside

theorem Plain.ne_nil {s : Char} {part : Text} (h : Plain s part) : part ≠ [] := by
  rintro rfl
  obtain ⟨c, last, -⟩ := h.last
  cases last

theorem partsBetween_eq_of_joined {s : Char} (visible : isBlank s = false) {parts : List Text}
    {text : Text} (joined : Joined [s, s] parts text) (plain : ∀ part ∈ parts, Plain s part)
    (stops : ∀ part ∈ parts, Stops isBlank part) :
    partsBetween (padded [s, s]) text = parts := by
  unfold partsBetween
  induction joined with
  | last part =>
    have h := plain part (by simp)
    have inert : splitFrom (padded [s, s]) 0 (part ++ []) = _ :=
      splitFrom_inert fun a b same nonempty => h.padded_eq_none same nonempty
    simpa [splitFrom, extendFirst] using inert
  | @more parts part separator text isSeparator joined ih =>
    obtain ⟨left, right, blank_left, blank_right, rfl⟩ := isSeparator
    have h := plain part List.mem_cons_self
    have stops_text : Stops isBlank text := by
      cases joined with
      | last => exact stops _ (by simp)
      | @more parts part' =>
        have member : part' ∈ part :: part' :: parts := by simp
        rw [List.append_assoc]
        exact (stops_append (plain part' member).ne_nil).2 (stops part' member)
    have found : padded [s, s] (left ++ [s, s] ++ right ++ text) = some text := by
      simp only [List.append_assoc]
      exact padded_append blank_left blank_right (stops_cons.2 visible) stops_text
    have tail := ih (fun p hp => plain p (List.mem_cons_of_mem _ hp))
      (fun p hp => stops p (List.mem_cons_of_mem _ hp))
    -- the part is passed over, and the separator behind it is the first one found
    rw [List.append_assoc, splitFrom_inert fun a b same nonempty => h.padded_eq_none same nonempty,
      splitFrom_append (by simp) found, tail]
    simp [extendFirst]

end ProgressRules.Text
