import ProgressRules.Proofs.Document.Mappings
import ProgressRules.Proofs.Document.Numbers
import ProgressRules.Proofs.Document.Strings

/-! What is printed for data is read as this data. It is a document of the standard exactly if all
numbers of the data are finite, since the other ones are printed as names. -/

namespace ProgressRules

open Text (Stops)

/-! ### Data -/

namespace Data

def textEntry (e : Text × Data) : Key × Data := (.text e.1, e.2)

/-- Data without dates, keys that are no texts, keys that are told twice, and integers that are too
long to be read. -/
inductive IsPlain : Data → Prop
  | null : IsPlain .null
  | bool (value : Bool) : IsPlain (.bool value)
  | integer {n : Int} : (Text.ofNat n.natAbs).length ≤ Text.digitLimit → IsPlain (.integer n)
  | real (x : Binary64) : IsPlain (.real x)
  | text (t : Text) : IsPlain (.text t)
  | list {items : List Data} : (∀ item ∈ items, IsPlain item) → IsPlain (.list items)
  | mapping {entries : List (Text × Data)} : (entries.map Prod.fst).Nodup →
      (∀ e ∈ entries, IsPlain e.2) → IsPlain (.mapping (entries.map textEntry))

inductive AllFinite : Data → Prop
  | null : AllFinite .null
  | bool (value : Bool) : AllFinite (.bool value)
  | integer (n : Int) : AllFinite (.integer n)
  | real (negative : Bool) (m : Magnitude) : AllFinite (.real (.finite negative m))
  | text (t : Text) : AllFinite (.text t)
  | date (t item : Text) : AllFinite (.date t item)
  | list {items : List Data} : (∀ item ∈ items, AllFinite item) → AllFinite (.list items)
  | mapping {entries : List (Key × Data)} : (∀ e ∈ entries, AllFinite e.2) →
      AllFinite (.mapping entries)

attribute [simp] AllFinite.null AllFinite.bool AllFinite.text

@[simp] theorem allFinite_real {x : Binary64} : AllFinite (.real x) ↔ x.isFinite = true := by
  constructor
  · rintro ⟨⟩
    rfl
  · intro finite
    cases x with
    | finite negative m => exact .real negative m
    | infinite | nan => cases finite

@[simp] theorem allFinite_list {items : List Data} :
    AllFinite (.list items) ↔ ∀ item ∈ items, AllFinite item := by
  constructor
  · rintro ⟨⟩
    assumption
  · exact .list

@[simp] theorem allFinite_mapping {entries : List (Key × Data)} :
    AllFinite (.mapping entries) ↔ ∀ e ∈ entries, AllFinite e.2 := by
  constructor
  · rintro ⟨⟩
    assumption
  · exact .mapping

end Data

namespace Json

/-! ### Layout -/

theorem newLine_space (depth : Nat) : Space (newLine depth) := by
  have blank : isSpace ' ' = true ∧ isSpace Text.newline = true := by decide
  intro c inside
  rcases List.mem_cons.1 inside with rfl | inside
  · exact blank.2
  · rw [List.eq_of_mem_replicate inside]
    exact blank.1

theorem skipSpace_append {gap text : Text} (space : Space gap) (stops : Stops isSpace text) :
    skipSpace (gap ++ text) = text :=
  Text.dropWhile_append space stops

theorem skipSpace_of_stops {text : Text} (stops : Stops isSpace text) : skipSpace text = text :=
  skipSpace_append space_nil stops

def lines (depth : Nat) (parts : List Text) : Text :=
  Text.joinWith [','] (parts.map (newLine depth ++ ·))

theorem lines_singleton (depth : Nat) (part : Text) :
    lines depth [part] = newLine depth ++ part := by
  simp [lines, Text.joinWith]

theorem lines_cons (depth : Nat) (first second : Text) (others : List Text) :
    lines depth (first :: second :: others) =
      newLine depth ++ first ++ ',' :: lines depth (second :: others) :=
  Text.joinWith_cons ..

theorem skipSpace_lines (depth : Nat) {part : Text} (stops : ∀ rest, Stops isSpace (part ++ rest))
    (parts : List Text) (rest : Text) :
    ∃ more, skipSpace (lines depth (part :: parts) ++ rest) = part ++ more := by
  cases parts with
  | nil =>
    rw [lines_singleton, List.append_assoc]
    exact ⟨_, skipSpace_append (newLine_space depth) (stops _)⟩
  | cons next parts =>
    rw [lines_cons, List.append_assoc, List.append_assoc]
    exact ⟨_, skipSpace_append (newLine_space depth) (stops _)⟩

theorem block_of_ne_nil {parts : List Text} (some : parts ≠ []) (left right : Char) (depth : Nat) :
    block left right depth parts =
      left :: (lines (depth + 1) parts ++ newLine depth ++ [right]) := by
  rw [block, if_neg (by simpa using some)]
  rfl

theorem renderItems_eq_map (depth : Nat) (items : List Data) :
    renderItems depth items = items.map (render depth) := by
  induction items with
  | nil => rfl
  | cons item items ih => rw [renderItems, ih, List.map_cons]

def member (depth : Nat) (e : Key × Data) : Text :=
  stringText (keyText e.1) ++ ':' :: ' ' :: render depth e.2

theorem renderEntries_eq_map (depth : Nat) (entries : List (Key × Data)) :
    renderEntries depth entries = entries.map (member depth) := by
  induction entries with
  | nil => rfl
  | cons e entries ih => rw [renderEntries, ih, List.map_cons, member]

/-! ### First characters -/

theorem not_isDigit_of_isSpace {c : Char} (space : isSpace c = true) : c.isDigit = false := by
  cases digit : c.isDigit with
  | false => rfl
  | true =>
    have code := Text.toNat_of_isDigit digit
    have blank : ' '.toNat = 32 := rfl
    simp only [isSpace, Bool.or_eq_true, beq_iff_eq] at space
    rcases space with ((rfl | tab) | line) | line <;> omega

theorem IsNumber.stops {text : Text} (h : IsNumber text) {p : Char → Bool}
    (other : ∀ c, c = '-' ∨ c.isDigit = true → p c = false) (rest : Text) :
    Stops p (text ++ rest) := by
  obtain ⟨sign, c, more, member, digit, rfl⟩ := h.exists_digit
  simp only [List.mem_cons, List.not_mem_nil, or_false] at member
  rcases member with rfl | rfl
  · exact Text.stops_cons.2 (other c (.inr digit))
  · exact Text.stops_cons.2 (other '-' (.inl rfl))

theorem stops_render (depth : Nat) (d : Data) (rest : Text) :
    Stops (fun c => isSpace c || c == ']') (render depth d ++ rest) := by
  have number : ∀ c, c = '-' ∨ c.isDigit = true → (isSpace c || c == ']') = false := by
    rintro c (rfl | digit)
    · decide
    · cases space : isSpace c with
      | true =>
        rw [not_isDigit_of_isSpace space] at digit
        cases digit
      | false =>
        rw [Bool.false_or, beq_eq_false_iff_ne]
        rintro rfl
        cases digit
  cases d with
  | null => exact Text.stops_cons.2 (by decide)
  | bool value => cases value <;> exact Text.stops_cons.2 (by decide)
  | integer n => exact (Data.isNumber_integerText n).stops number rest
  | real x =>
    cases x with
    | finite negative m => exact (Binary64.isNumber_text negative m).stops number rest
    | infinite negative => cases negative <;> exact Text.stops_cons.2 (by decide)
    | nan => exact Text.stops_cons.2 (by decide)
  | text t | date t item => exact Text.stops_cons.2 (by decide)
  | list items =>
    rw [render, block]
    split <;> exact Text.stops_cons.2 (by decide)
  | mapping entries =>
    rw [render, block]
    split <;> exact Text.stops_cons.2 (by decide)

theorem stops_space_render (depth : Nat) (d : Data) (rest : Text) :
    Stops isSpace (render depth d ++ rest) := by
  apply (stops_render depth d rest).mono
  intro c other
  exact (Bool.or_eq_false_iff.1 other).1

theorem closes_append {gap : Text} (space : Space gap) {c : Char} (close : c ∈ [']', '}', ','])
    (rest : Text) : Closes (gap ++ c :: rest) := by
  cases gap with
  | nil =>
    apply Text.stops_cons.2
    revert c
    decide
  | cons d gap =>
    have blank := space d List.mem_cons_self
    have letters : ∀ c ∈ ['.', 'e', 'E'], isSpace c = false := by decide
    have other : ∀ c ∈ ['.', 'e', 'E'], (d == c) = false := by
      intro c member
      rw [beq_eq_false_iff_ne]
      rintro rfl
      rw [letters d member] at blank
      cases blank
    apply Text.stops_cons.2
    simp [not_isDigit_of_isSpace blank, other]

/-! ### Reading -/

theorem readValue_of_isNumber {text : Text} (h : IsNumber text) (fuel : Nat) (rest : Text) :
    readValue (fuel + 1) (text ++ rest) = readNumber (text ++ rest) := by
  have opening : Stops (fun c => ['[', '{', Text.doubleQuote].contains c) (text ++ rest) := by
    apply h.stops
    rintro c (rfl | digit)
    · decide
    · have other : ∀ c ∈ ['[', '{', Text.doubleQuote], c.isDigit = false := by decide
      rw [← Bool.not_eq_true, List.contains_iff_mem]
      intro member
      rw [other c member] at digit
      cases digit
  have unnamed := readName_of_isNumber h rest
  cases same : text ++ rest with
  | nil =>
    obtain ⟨sign, c, more, -, -, rfl⟩ := h.exists_digit
    simp at same
  | cons c more =>
    rw [same] at opening unnamed
    have first := Text.stops_cons.1 opening
    simp at first
    simp [readValue, first, unnamed]

theorem readItems_lines {depth : Nat} {items : List Data} (some : items ≠ [])
    (each : ∀ item ∈ items, ∀ fuel rest, (render depth item).length ≤ fuel → Closes rest →
      readValue fuel (render depth item ++ rest) = .ok (item, rest))
    {gap : Text} (space : Space gap) (rest : Text) (fuel : Nat)
    (enough : (lines depth (items.map (render depth))).length ≤ fuel) :
    readItems fuel (skipSpace (lines depth (items.map (render depth)) ++ (gap ++ ']' :: rest))) =
      .ok (items, rest) := by
  induction items generalizing fuel with
  | nil => exact absurd rfl some
  | cons item items ih =>
    obtain ⟨first, others⟩ := List.forall_mem_cons.1 each
    have start (rest : Text) : skipSpace (newLine depth ++ (render depth item ++ rest)) =
        render depth item ++ rest :=
      skipSpace_append (newLine_space depth) (stops_space_render depth item rest)
    -- The line break pays for the call that reads the item behind it.
    have line : 0 < (newLine depth).length := Nat.succ_pos _
    cases items with
    | nil =>
      rw [List.map_singleton, lines_singleton, List.length_append] at enough
      obtain ⟨fuel, rfl⟩ := Nat.exists_eq_succ_of_ne_zero (show fuel ≠ 0 by omega)
      have read := first fuel (gap ++ ']' :: rest) (by omega) (closes_append space (by simp) rest)
      have close : skipSpace (gap ++ ']' :: rest) = ']' :: rest :=
        skipSpace_append space (Text.stops_cons.2 (by decide))
      rw [List.map_singleton, lines_singleton, List.append_assoc, start, readItems]
      simp only [read, close, bind, Except.bind, pure, Except.pure]
    | cons next items =>
      have split : lines depth ((item :: next :: items).map (render depth)) =
          newLine depth ++ render depth item ++
            ',' :: lines depth ((next :: items).map (render depth)) := lines_cons ..
      rw [split, List.length_append, List.length_append, List.length_cons] at enough
      obtain ⟨fuel, rfl⟩ := Nat.exists_eq_succ_of_ne_zero (show fuel ≠ 0 by omega)
      have more := ih (List.cons_ne_nil _ _) others fuel (by omega)
      rw [split]
      generalize lines depth ((next :: items).map (render depth)) = text at more enough ⊢
      have read := first fuel (',' :: (text ++ (gap ++ ']' :: rest))) (by omega)
        (closes_append space_nil (by simp) _)
      have close : skipSpace (',' :: (text ++ (gap ++ ']' :: rest))) =
          ',' :: (text ++ (gap ++ ']' :: rest)) :=
        skipSpace_of_stops (Text.stops_cons.2 (by decide))
      rw [List.append_assoc, List.append_assoc, List.cons_append, start, readItems]
      simp only [read, close, more, bind, Except.bind, pure, Except.pure]

theorem member_append (depth : Nat) (e : Text × Data) (rest : Text) :
    member depth (Data.textEntry e) ++ rest =
      Text.doubleQuote :: (e.1.flatMap escape ++
        Text.doubleQuote :: ':' :: ' ' :: (render depth e.2 ++ rest)) := by
  simp [member, Data.textEntry, stringText, keyText]

theorem readMembers_lines {depth : Nat} {entries : List (Text × Data)} (some : entries ≠ [])
    (each : ∀ e ∈ entries, ∀ fuel rest, (render depth e.2).length ≤ fuel → Closes rest →
      readValue fuel (render depth e.2 ++ rest) = .ok (e.2, rest))
    {gap : Text} (space : Space gap) (rest : Text) (fuel : Nat)
    (enough : (lines depth (entries.map (member depth ∘ Data.textEntry))).length ≤ fuel) :
    readMembers fuel (skipSpace
      (lines depth (entries.map (member depth ∘ Data.textEntry)) ++ (gap ++ '}' :: rest))) =
      .ok (entries.map Data.textEntry, rest) := by
  induction entries generalizing fuel with
  | nil => exact absurd rfl some
  | cons e entries ih =>
    obtain ⟨first, others⟩ := List.forall_mem_cons.1 each
    have size : (render depth e.2).length + 2 ≤ (member depth (Data.textEntry e)).length := by
      simp [member, Data.textEntry]
    have start (rest : Text) :
        skipSpace (newLine depth ++ (member depth (Data.textEntry e) ++ rest)) =
          member depth (Data.textEntry e) ++ rest := by
      rw [member_append]
      exact skipSpace_append (newLine_space depth) (Text.stops_cons.2 (by decide))
    have colon (rest : Text) : skipSpace (':' :: rest) = ':' :: rest :=
      skipSpace_of_stops (Text.stops_cons.2 (by decide))
    have blank : Space [' '] := List.forall_mem_singleton.2 (by decide)
    have value (rest : Text) : skipSpace (' ' :: (render depth e.2 ++ rest)) =
        render depth e.2 ++ rest :=
      skipSpace_append blank (stops_space_render depth e.2 rest)
    cases entries with
    | nil =>
      rw [List.map_singleton, lines_singleton, List.length_append, Function.comp] at enough
      obtain ⟨fuel, rfl⟩ := Nat.exists_eq_succ_of_ne_zero (show fuel ≠ 0 by omega)
      have read := first fuel (gap ++ '}' :: rest) (by omega) (closes_append space (by simp) rest)
      have close : skipSpace (gap ++ '}' :: rest) = '}' :: rest :=
        skipSpace_append space (Text.stops_cons.2 (by decide))
      rw [List.map_singleton, lines_singleton, List.append_assoc, Function.comp, start,
        member_append, readMembers]
      simp only [if_true, readString_stringText, orMalformed, colon, value, read, close, bind,
        Except.bind, pure, Except.pure]
      rfl
    | cons next entries =>
      have split : lines depth ((e :: next :: entries).map (member depth ∘ Data.textEntry)) =
          newLine depth ++ member depth (Data.textEntry e) ++
            ',' :: lines depth ((next :: entries).map (member depth ∘ Data.textEntry)) :=
        lines_cons ..
      rw [split, List.length_append, List.length_append, List.length_cons] at enough
      obtain ⟨fuel, rfl⟩ := Nat.exists_eq_succ_of_ne_zero (show fuel ≠ 0 by omega)
      have more := ih (List.cons_ne_nil _ _) others fuel (by omega)
      rw [split]
      generalize lines depth ((next :: entries).map (member depth ∘ Data.textEntry)) = lines
        at more enough ⊢
      have read := first fuel (',' :: (lines ++ (gap ++ '}' :: rest))) (by omega)
        (closes_append space_nil (by simp) _)
      have close : skipSpace (',' :: (lines ++ (gap ++ '}' :: rest))) =
          ',' :: (lines ++ (gap ++ '}' :: rest)) :=
        skipSpace_of_stops (Text.stops_cons.2 (by decide))
      rw [List.append_assoc, List.append_assoc, List.cons_append, start, member_append,
        readMembers]
      simp only [if_true, readString_stringText, orMalformed, colon, value, read, close, more, bind,
        Except.bind, pure, Except.pure]
      rfl

theorem render_list {items : List Data} (some : items ≠ []) (depth : Nat) :
    render depth (.list items) =
      '[' :: (lines (depth + 1) (items.map (render (depth + 1))) ++ newLine depth ++ [']']) := by
  rw [render, renderItems_eq_map, block_of_ne_nil (by simpa using some)]

theorem render_mapping {entries : List (Key × Data)} (some : entries ≠ []) (depth : Nat) :
    render depth (.mapping entries) =
      '{' :: (lines (depth + 1) (entries.map (member (depth + 1))) ++ newLine depth ++ ['}']) := by
  rw [render, renderEntries_eq_map, block_of_ne_nil (by simpa using some)]

theorem render_ne_nil (depth : Nat) (d : Data) : render depth d ≠ [] := by
  intro none
  have stops := stops_render depth d [']']
  rw [none] at stops
  exact absurd (Text.stops_cons.1 stops) (by decide)

theorem exists_fuel {depth fuel : Nat} {d : Data} (enough : (render depth d).length ≤ fuel) :
    ∃ more, fuel = more + 1 := by
  have some := List.length_pos_iff.2 (render_ne_nil depth d)
  exact Nat.exists_eq_succ_of_ne_zero (by omega)

theorem readValue_list {items : List Data} {depth fuel : Nat} {rest : Text}
    (each : ∀ item ∈ items, ∀ fuel rest, (render (depth + 1) item).length ≤ fuel → Closes rest →
      readValue fuel (render (depth + 1) item ++ rest) = .ok (item, rest))
    (enough : (render depth (.list items)).length ≤ fuel + 1) :
    readValue (fuel + 1) (render depth (.list items) ++ rest) = .ok (.list items, rest) := by
  cases items with
  | nil => rfl
  | cons item items =>
    obtain ⟨more, start⟩ := skipSpace_lines (depth + 1) (stops_space_render (depth + 1) item)
      (items.map (render (depth + 1))) (newLine depth ++ ']' :: rest)
    have stops := stops_render (depth + 1) item more
    rw [render_list (List.cons_ne_nil _ _)] at enough ⊢
    rw [List.length_cons, List.length_append, List.length_append] at enough
    have read := readItems_lines (List.cons_ne_nil _ _) each (newLine_space depth) rest
      fuel (by omega)
    rw [List.map_cons, start] at read
    rw [List.cons_append, List.append_assoc, List.append_assoc, List.singleton_append, readValue,
      List.map_cons, start]
    split
    · rename_i close
      rw [close] at stops
      exact absurd (Text.stops_cons.1 stops) (by decide)
    · simp only [read, bind, Except.bind, pure, Except.pure]

theorem readValue_mapping {entries : List (Text × Data)} (once : (entries.map Prod.fst).Nodup)
    {depth fuel : Nat} {rest : Text}
    (each : ∀ e ∈ entries, ∀ fuel rest, (render (depth + 1) e.2).length ≤ fuel → Closes rest →
      readValue fuel (render (depth + 1) e.2 ++ rest) = .ok (e.2, rest))
    (enough : (render depth (.mapping (entries.map Data.textEntry))).length ≤ fuel + 1) :
    readValue (fuel + 1) (render depth (.mapping (entries.map Data.textEntry)) ++ rest) =
      .ok (.mapping (entries.map Data.textEntry), rest) := by
  have keys : ((entries.map Data.textEntry).map Prod.fst).Nodup := by
    have injective : Function.Injective Key.text := fun a b same => Key.text.inj same
    have mapped := List.Nodup.map injective once
    rwa [List.map_map] at mapped ⊢
  cases entries with
  | nil => rfl
  | cons e entries =>
    have visible (rest : Text) : Stops isSpace (member (depth + 1) (Data.textEntry e) ++ rest) := by
      rw [member_append]
      exact Text.stops_cons.2 (by decide)
    obtain ⟨more, start⟩ := skipSpace_lines (depth + 1) visible
      (entries.map (member (depth + 1) ∘ Data.textEntry)) (newLine depth ++ '}' :: rest)
    have some : (e :: entries).map Data.textEntry ≠ [] := List.cons_ne_nil _ _
    rw [render_mapping some, List.map_map] at enough ⊢
    rw [List.length_cons, List.length_append, List.length_append] at enough
    have read := readMembers_lines (List.cons_ne_nil _ _) each (newLine_space depth) rest
      fuel (by omega)
    rw [List.map_cons, Function.comp, start] at read
    rw [List.cons_append, List.append_assoc, List.append_assoc, List.singleton_append, readValue,
      List.map_cons, Function.comp, start]
    split
    · rename_i close
      rw [member_append] at close
      exact absurd (List.cons.inj close).1 (by decide)
    · simp only [read, bind, Except.bind, pure, Except.pure, Data.ofEntries_of_nodup keys]

theorem readValue_render {d : Data} (plain : d.IsPlain) : ∀ depth fuel rest,
    (render depth d).length ≤ fuel → Closes rest →
      readValue fuel (render depth d ++ rest) = .ok (d, rest) := by
  induction plain with
  | null =>
    intro depth fuel rest enough closes
    obtain ⟨fuel, rfl⟩ := exists_fuel enough
    rfl
  | bool value =>
    intro depth fuel rest enough closes
    obtain ⟨fuel, rfl⟩ := exists_fuel enough
    cases value <;> rfl
  | integer short =>
    intro depth fuel rest enough closes
    obtain ⟨fuel, rfl⟩ := exists_fuel enough
    rw [render, readValue_of_isNumber (Data.isNumber_integerText _)]
    exact Data.readNumber_integerText short closes
  | real x =>
    intro depth fuel rest enough closes
    obtain ⟨fuel, rfl⟩ := exists_fuel enough
    cases x with
    | finite negative m =>
      rw [render, numberText, readValue_of_isNumber (Binary64.isNumber_text negative m)]
      · exact Binary64.readNumber_text negative m closes
      · exact nofun
      · exact nofun
    | infinite negative => cases negative <;> rfl
    | nan => rfl
  | text t =>
    intro depth fuel rest enough closes
    obtain ⟨fuel, rfl⟩ := exists_fuel enough
    have text : render depth (.text t) ++ rest =
        Text.doubleQuote :: (t.flatMap escape ++ Text.doubleQuote :: rest) := by
      simp [render, stringText]
    rw [text, readValue]
    simp only [if_true, readString_stringText, orMalformed, bind, Except.bind, pure, Except.pure]
    all_goals decide
  | list _ ih =>
    intro depth fuel rest enough closes
    obtain ⟨fuel, rfl⟩ := exists_fuel enough
    exact readValue_list (fun item inside => ih item inside (depth + 1)) enough
  | mapping once _ ih =>
    intro depth fuel rest enough closes
    obtain ⟨fuel, rfl⟩ := exists_fuel enough
    exact readValue_mapping once (fun e inside => ih e inside (depth + 1)) enough

theorem read_render {d : Data} (plain : d.IsPlain) :
    read (render 0 d ++ [Text.newline]) = .ok d := by
  have closes : Closes [Text.newline] := Text.stops_cons.2 (by decide)
  have value := readValue_render plain 0 (2 * (render 0 d ++ [Text.newline]).length + 2)
    [Text.newline] (by rw [List.length_append]; omega) closes
  have start : skipSpace (render 0 d ++ [Text.newline]) = render 0 d ++ [Text.newline] :=
    skipSpace_of_stops (stops_space_render 0 d _)
  have ends : skipSpace [Text.newline] = [] := by decide
  rw [read, start]
  simp only [value, ends, bind, Except.bind, List.isEmpty_nil, if_true, pure, Except.pure]

/-! ### Standard documents -/

theorem isItems_lines {depth : Nat} {parts : List Text} (some : parts ≠ [])
    (each : ∀ part ∈ parts, IsValue part) {gap : Text} (space : Space gap) :
    IsItems (lines depth parts ++ gap) := by
  induction parts with
  | nil => exact absurd rfl some
  | cons part parts ih =>
    obtain ⟨first, others⟩ := List.forall_mem_cons.1 each
    cases parts with
    | nil =>
      rw [lines_singleton]
      exact .last (newLine_space depth) first space
    | cons next parts =>
      have items := IsItems.more (newLine_space depth) first space_nil
        (ih (List.cons_ne_nil _ _) others)
      rw [lines_cons, List.append_assoc, List.cons_append]
      rwa [List.append_nil] at items

theorem isMembers_lines {depth : Nat} {entries : List (Key × Data)} (some : entries ≠ [])
    (each : ∀ e ∈ entries, IsValue (render depth e.2)) {gap : Text} (space : Space gap) :
    IsMembers (lines depth (entries.map (member depth)) ++ gap) := by
  have blank : Space [' '] := List.forall_mem_singleton.2 (by decide)
  induction entries with
  | nil => exact absurd rfl some
  | cons e entries ih =>
    obtain ⟨first, others⟩ := List.forall_mem_cons.1 each
    have name := isString_stringText (keyText e.1)
    cases entries with
    | nil =>
      have members := IsMembers.last (newLine_space depth) name space_nil blank first space
      rw [List.map_singleton, lines_singleton, member]
      simpa using members
    | cons next entries =>
      have members := IsMembers.more (newLine_space depth) name space_nil blank first space_nil
        (ih (List.cons_ne_nil _ _) others)
      rw [List.map_cons, List.map_cons, lines_cons, member]
      simpa using members

theorem isValue_render {d : Data} (finite : d.AllFinite) (depth : Nat) :
    IsValue (render depth d) := by
  induction finite generalizing depth with
  | null => exact .null
  | bool value => cases value <;> [exact .false; exact .true]
  | integer n => exact .number (Data.isNumber_integerText n)
  | real negative m => exact .number (Binary64.isNumber_text negative m)
  | text t | date t item => exact .string (isString_stringText t)
  | @list items _ ih =>
    cases items with
    | nil => exact .emptyArray space_nil
    | cons item items =>
      rw [render_list (List.cons_ne_nil _ _)]
      refine .array (isItems_lines (by simp) ?_ (newLine_space depth))
      intro part inside
      obtain ⟨item, listed, rfl⟩ := List.mem_map.1 inside
      exact ih item listed (depth + 1)
  | @mapping entries _ ih =>
    cases entries with
    | nil => exact .emptyObject space_nil
    | cons e entries =>
      rw [render_mapping (List.cons_ne_nil _ _)]
      exact .object (isMembers_lines (by simp) (fun e inside => ih e inside (depth + 1))
        (newLine_space depth))

theorem lines_mute (depth : Nat) {parts : List Text} (each : ∀ part ∈ parts, Closed part) :
    Closed (lines depth parts) ∧ (Mute (lines depth parts) → ∀ part ∈ parts, Mute part) := by
  have line := (newLine_space depth).mute.closed
  have comma : Closed [','] := (mute_sign (by simp)).closed
  induction parts with
  | nil => exact ⟨⟨[], fun _ => rfl⟩, fun _ => by simp⟩
  | cons part parts ih =>
    obtain ⟨first, others⟩ := List.forall_mem_cons.1 each
    have front := line.append first
    cases parts with
    | nil =>
      rw [lines_singleton]
      exact ⟨front, fun mute => List.forall_mem_singleton.2 (mute.of_append line first).2⟩
    | cons next parts =>
      obtain ⟨closed, mutes⟩ := ih others
      have behind := comma.append closed
      rw [lines_cons]
      refine ⟨front.append behind, fun mute => ?_⟩
      obtain ⟨mute_front, mute_behind⟩ := mute.of_append front behind
      exact List.forall_mem_cons.2 ⟨(mute_front.of_append line first).2,
        mutes (mute_behind.of_append comma closed).2⟩

theorem block_mute {left right : Char} (brackets : (left, right) ∈ [('[', ']'), ('{', '}')])
    (depth : Nat) {parts : List Text} (each : ∀ part ∈ parts, Closed part) :
    Closed (block left right depth parts) ∧
      (Mute (block left right depth parts) → ∀ part ∈ parts, Mute part) := by
  have signs : left ∈ ['[', ']', '{', '}', ',', ':'] ∧ right ∈ ['[', ']', '{', '}', ',', ':'] := by
    simp only [List.mem_cons, Prod.mk.injEq, List.not_mem_nil, or_false] at brackets
    rcases brackets with ⟨rfl, rfl⟩ | ⟨rfl, rfl⟩ <;> decide
  obtain ⟨opening, closing⟩ := signs
  have before := (mute_sign opening).closed
  have behind := (newLine_space depth).mute.closed.append (mute_sign closing).closed
  obtain ⟨closed, mutes⟩ := lines_mute (depth + 1) each
  by_cases none : parts = []
  · subst none
    exact ⟨before.append (mute_sign closing).closed, fun _ => by simp⟩
  · rw [block_of_ne_nil none, List.append_assoc]
    refine ⟨before.append (closed.append behind), fun mute => mutes ?_⟩
    exact ((mute.of_append before (closed.append behind)).2.of_append closed behind).1

/-- Of all that is printed outside of the strings only the names of numbers are not mute. -/
theorem render_mute {d : Data} (plain : d.IsPlain) (depth : Nat) :
    Closed (render depth d) ∧ (Mute (render depth d) → d.AllFinite) := by
  have finite {d : Data} (all : d.AllFinite) (depth : Nat) :
      Closed (render depth d) ∧ (Mute (render depth d) → d.AllFinite) :=
    ⟨(isValue_render all depth).mute.closed, fun _ => all⟩
  have name {text : Text} (unquoted : Text.doubleQuote ∉ text) (loud : 'I' ∈ text ∨ 'N' ∈ text)
      {p : Prop} : Closed text ∧ (Mute text → p) :=
    ⟨⟨text, .of_unquoted unquoted⟩, fun mute => absurd mute (not_mute unquoted loud)⟩
  induction plain generalizing depth with
  | null => exact finite .null depth
  | bool value => exact finite (.bool value) depth
  | integer _ => exact finite (.integer _) depth
  | real x =>
    cases x with
    | finite negative m => exact finite (.real negative m) depth
    | infinite negative =>
      rw [render, numberText]
      cases negative <;> exact name (by decide) (by decide)
    | nan =>
      rw [render, numberText]
      exact name (by decide) (by decide)
  | text t => exact finite (.text t) depth
  | @list items _ ih =>
    have each : ∀ part ∈ items.map (render (depth + 1)), Closed part := by
      intro part inside
      obtain ⟨item, listed, rfl⟩ := List.mem_map.1 inside
      exact (ih item listed (depth + 1)).1
    obtain ⟨closed, mutes⟩ := block_mute (List.mem_cons_self : ('[', ']') ∈ _) depth each
    rw [render, renderItems_eq_map]
    refine ⟨closed, fun mute => .list fun item listed => (ih item listed (depth + 1)).2 ?_⟩
    exact mutes mute _ (List.mem_map_of_mem listed)
  | @mapping entries _ _ ih =>
    have quoted (e : Text × Data) : Closed (stringText e.1) := (isString_stringText e.1).mute.closed
    have colon : Closed [':', ' '] := ⟨_, .of_unquoted (by decide)⟩
    have each : ∀ part ∈ entries.map (member (depth + 1) ∘ Data.textEntry), Closed part := by
      intro part inside
      obtain ⟨e, listed, rfl⟩ := List.mem_map.1 inside
      exact (quoted e).append (colon.append (ih e listed (depth + 1)).1)
    obtain ⟨closed, mutes⟩ := block_mute (by simp : ('{', '}') ∈ _) depth each
    rw [render, renderEntries_eq_map, List.map_map]
    refine ⟨closed, fun mute => .mapping fun e' inside => ?_⟩
    obtain ⟨e, listed, rfl⟩ := List.mem_map.1 inside
    have closed_value := (ih e listed (depth + 1)).1
    have mute_member := mutes mute _ (List.mem_map_of_mem listed)
    have mute_value := (mute_member.of_append (quoted e) (colon.append closed_value)).2
    exact (ih e listed (depth + 1)).2 (mute_value.of_append colon closed_value).2

theorem isDocument_render {d : Data} (plain : d.IsPlain) :
    IsDocument (render 0 d ++ [Text.newline]) ↔ d.AllFinite := by
  have line : Space [Text.newline] := newLine_space 0
  constructor
  · intro document
    obtain ⟨closed, finite⟩ := render_mute plain 0
    exact finite (document.mute.of_append closed line.mute.closed).1
  · intro finite
    exact .value space_nil (isValue_render finite 0) line

end Json

end ProgressRules
