import ProgressRules.Proofs.Text.Pieces

/-! The words of a text, with what stands before and after them. They are the words among its
pieces, so a text has one sequence of pieces. -/

namespace ProgressRules.Text

/-- A word of the text, which is a maximal run of word characters. The character before the text
counts as well. -/
structure WordAt (before : Option Char) (text front w rest : Text) : Prop where
  split : text = front ++ (w ++ rest)
  run : IsRun isWord w
  begins : isWordAt (front.getLast?.or before) = false
  ends : Stops isWord rest

theorem IsRun.unique {p : Char → Bool} {v w rest rest' : Text} (hv : IsRun p v) (hw : IsRun p w)
    (stops : Stops p rest) (stops' : Stops p rest') (same : v ++ rest = w ++ rest') :
    v = w ∧ rest = rest' := by
  have read := run_append hv stops
  rw [same, run_append hw stops'] at read
  obtain ⟨rfl, rfl⟩ := Prod.mk.inj (Option.some.inj read)
  exact ⟨rfl, rfl⟩

theorem Separated.isRun_of_mem {pieces : List Piece} (separated : Separated pieces) {w : Text}
    (inside : .word w ∈ pieces) : IsRun isWord w := by
  induction pieces with
  | nil => cases inside
  | cons piece pieces ih =>
    cases piece with
    | mark c => exact ih separated.2 (by simpa using inside)
    | word v =>
      rcases List.mem_cons.1 inside with same | inside
      · cases same
        exact separated.1
      · exact ih separated.2.2 inside

theorem Separated.of_append {a b : List Piece} (separated : Separated (a ++ b)) :
    Separated b := by
  induction a with
  | nil => exact separated
  | cons piece a ih =>
    cases piece with
    | mark c => exact ih separated.2
    | word w => exact ih separated.2.2

theorem WordAt.exists_pieces {before : Option Char} {pieces : List Piece} {front w rest : Text}
    (h : WordAt before (textOf pieces) front w rest) (separated : Separated pieces) :
    ∃ a b, pieces = a ++ .word w :: b ∧ textOf a = front ∧ textOf b = rest := by
  obtain ⟨split, run, begins, ends⟩ := h
  induction pieces generalizing before front with
  | nil =>
    have empty : w = [] := by simp_all
    exact absurd empty run.1
  | cons piece pieces ih =>
    cases piece with
    | mark c =>
      cases front with
      | nil =>
        -- a word does not begin with a mark
        have visible : Stops isWord (w ++ rest) := by
          rw [← List.nil_append (w ++ rest), ← split]
          exact stops_cons.2 separated.1
        exact absurd visible run.not_stops
      | cons d front =>
        obtain ⟨rfl, split'⟩ := List.cons.inj split
        have begins' : isWordAt (front.getLast?.or (some c)) = false := by
          rwa [List.getLast?_cons, Option.some_or, ← Option.or_some] at begins
        obtain ⟨a, b, rfl, rfl, rfl⟩ := ih separated.2 split' begins'
        exact ⟨.mark c :: a, b, rfl, rfl, rfl⟩
    | word v =>
      obtain ⟨hv, stops, separated'⟩ := separated
      rw [textOf_word] at split
      rcases List.append_eq_append_iff.1 split with ⟨more, rfl, split'⟩ | ⟨more, rfl, split'⟩
      · have begins' : isWordAt (more.getLast?.or v.getLast?) = false := by
          obtain ⟨c, last, -⟩ := hv.getLast
          rwa [List.getLast?_append, last, Option.or_assoc, Option.some_or, ← last] at begins
        obtain ⟨a, b, rfl, rfl, rfl⟩ := ih separated' split' begins'
        exact ⟨.word v :: a, b, rfl, rfl, rfl⟩
      · cases front with
        | nil =>
          obtain ⟨rfl, rfl⟩ := run.unique hv ends stops (by simpa using split')
          exact ⟨[], pieces, rfl, rfl, rfl⟩
        | cons d front =>
          -- what stands before the word would be a part of it
          rw [List.getLast?_eq_some_getLast (List.cons_ne_nil d front), Option.some_or] at begins
          have inside := hv.2 _
            (List.mem_append_left more (List.getLast_mem (List.cons_ne_nil d front)))
          exact absurd inside (by simpa [isWordAt] using begins)

theorem Separated.exists_last_mark {pieces others : List Piece}
    (separated : Separated (pieces ++ others)) {front : Text} {c : Char} (mark : isWord c = false)
    (same : textOf pieces = front ++ [c]) : ∃ a, pieces = a ++ [.mark c] := by
  rcases List.eq_nil_or_concat pieces with rfl | ⟨a, piece, split⟩
  · simp at same
  · rw [List.concat_eq_append] at split
    subst split
    have last := congrArg List.getLast? same
    rw [textOf_append, List.getLast?_append, List.getLast?_concat] at last
    cases piece with
    | mark d =>
      obtain rfl : d = c := by simpa using last
      exact ⟨a, rfl⟩
    | word v =>
      obtain ⟨d, hd, word⟩ := (separated.isRun_of_mem (w := v) (by simp)).getLast
      obtain rfl : d = c := by simpa [hd] using last
      rw [mark] at word
      cases word

theorem textOf_injective {a b : List Piece} (separated : Separated a) (separated' : Separated b)
    (same : textOf a = textOf b) : a = b := by
  induction a generalizing b with
  | nil =>
    cases b with
    | nil => rfl
    | cons piece b =>
      cases piece with
      | mark c => cases same
      | word w => exact absurd (List.append_eq_nil_iff.1 same.symm).1 separated'.1.1
  | cons piece a ih =>
    cases piece with
    | mark c =>
      cases b with
      | nil => cases same
      | cons piece b =>
        cases piece with
        | mark d =>
          obtain ⟨rfl, same'⟩ := List.cons.inj same
          rw [ih separated.2 separated'.2 same']
        | word w =>
          have visible : Stops isWord (w ++ textOf b) := by
            rw [← textOf_word, ← same]
            exact stops_cons.2 separated.1
          exact absurd visible separated'.1.not_stops
    | word w =>
      cases b with
      | nil => exact absurd (List.append_eq_nil_iff.1 same).1 separated.1.1
      | cons piece b =>
        cases piece with
        | mark d =>
          have visible : Stops isWord (w ++ textOf a) := by
            rw [← textOf_word, same]
            exact stops_cons.2 separated'.1
          exact absurd visible separated.1.not_stops
        | word v =>
          obtain ⟨rfl, same'⟩ :=
            separated.1.unique separated'.1 separated.2.1 separated'.2.1 same
          rw [ih separated.2.2 separated'.2.2 same']

end ProgressRules.Text
