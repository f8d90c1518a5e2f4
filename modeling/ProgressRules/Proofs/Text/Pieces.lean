import ProgressRules.Proofs.Text.Editing

/-! Texts as sequences of words, which are the maximal runs of word characters, and of the
marks between them. An edit rule that treats words as wholes acts on these pieces one by one. -/

namespace ProgressRules.Text

inductive Piece where
  | word (text : Text)
  | mark (c : Char)
deriving DecidableEq

namespace Piece

def text : Piece → Text
  | .word w => w
  | .mark c => [c]

end Piece

def textOf (pieces : List Piece) : Text := pieces.flatMap Piece.text

@[simp] theorem textOf_nil : textOf [] = [] := rfl

@[simp] theorem textOf_word (w : Text) (pieces : List Piece) :
    textOf (.word w :: pieces) = w ++ textOf pieces := rfl

@[simp] theorem textOf_mark (c : Char) (pieces : List Piece) :
    textOf (.mark c :: pieces) = c :: textOf pieces := rfl

@[simp] theorem textOf_append (a b : List Piece) : textOf (a ++ b) = textOf a ++ textOf b := by
  simp [textOf]

@[simp] theorem textOf_marks (text : Text) : textOf (text.map Piece.mark) = text := by
  induction text with
  | nil => rfl
  | cons c text ih => simp [ih]

/-- Words are words, marks are no word characters, and no word stands beside another. -/
def Separated : List Piece → Prop
  | [] => True
  | .mark c :: pieces => isWord c = false ∧ Separated pieces
  | .word w :: pieces => IsRun isWord w ∧ Stops isWord (textOf pieces) ∧ Separated pieces

theorem Separated.append {a b : List Piece} (ha : Separated a) (hb : Separated b)
    (stops : Stops isWord (textOf b)) : Separated (a ++ b) := by
  induction a with
  | nil => exact hb
  | cons piece a ih =>
    cases piece with
    | mark c => exact ⟨ha.1, ih ha.2⟩
    | word w =>
      refine ⟨ha.1, ?_, ih ha.2.2⟩
      rw [List.append_eq, textOf_append]
      cases same : textOf a with
      | nil => exact stops
      | cons c text =>
        have hc := ha.2.1
        rw [same] at hc
        exact stops_cons.2 (stops_cons.1 hc)

theorem separated_marks_append {text : Text} (h : ∀ c ∈ text, isWord c = false)
    {pieces : List Piece} (separated : Separated pieces) :
    Separated (text.map Piece.mark ++ pieces) := by
  induction text with
  | nil => exact separated
  | cons c text ih =>
    exact ⟨h c List.mem_cons_self, ih fun d hd => h d (List.mem_cons_of_mem _ hd)⟩

theorem Blank.separated_append {gap : Text} (blank : Blank gap) {pieces : List Piece}
    (separated : Separated pieces) : Separated (gap.map Piece.mark ++ pieces) :=
  separated_marks_append (fun c hc => not_isWord_of_isBlank (blank c hc)) separated

theorem separated_marks {text : Text} (h : ∀ c ∈ text, isWord c = false) :
    Separated (text.map Piece.mark) := by
  have empty : Separated [] := trivial
  simpa using separated_marks_append h empty

/-- The maximal words of a text and the characters between them, from left to right. -/
def piecesOf : Text → List Piece
  | [] => []
  | c :: text =>
    if isWord c then
      match piecesOf text with
      | .word w :: pieces => .word (c :: w) :: pieces
      | pieces => .word [c] :: pieces
    else .mark c :: piecesOf text

theorem textOf_piecesOf (text : Text) : textOf (piecesOf text) = text := by
  induction text with
  | nil => rfl
  | cons c text ih =>
    rw [piecesOf]
    split
    · split
      · rename_i w pieces same
        rw [same] at ih
        exact congrArg (c :: ·) ih
      · exact congrArg (c :: ·) ih
    · exact congrArg (c :: ·) ih

theorem separated_piecesOf (text : Text) : Separated (piecesOf text) := by
  induction text with
  | nil => trivial
  | cons c text ih =>
    rw [piecesOf]
    cases hc : isWord c with
    | false => exact ⟨hc, ih⟩
    | true =>
      -- a word character goes to the word that follows, if there is one
      have alone : IsRun isWord [c] := ⟨by simp, by simpa using hc⟩
      cases same : piecesOf text with
      | nil => exact ⟨alone, stops_nil _, trivial⟩
      | cons piece pieces =>
        rw [same] at ih
        cases piece with
        | mark d => exact ⟨alone, stops_cons.2 ih.1, ih⟩
        | word w => exact ⟨⟨by simp, List.forall_mem_cons.2 ⟨hc, ih.1.2⟩⟩, ih.2⟩

theorem exists_pieces (text : Text) : ∃ pieces, Separated pieces ∧ textOf pieces = text :=
  ⟨piecesOf text, separated_piecesOf text, textOf_piecesOf text⟩

/-! ### Delimited words -/

theorem boundary_word {c : Char} (word : isWord c = true) (before : Option Char) :
    boundary before (some c) = !isWordAt before := by
  simp [boundary, isWordAt, word]

theorem dropDelimited_word {word run rest : Text} {before : Option Char} (hw : IsRun isWord word)
    (hr : IsRun isWord run) (stops : Stops isWord rest) (fresh : isWordAt before = false) :
    dropDelimited? word before (run ++ rest) = if run = word then some rest else none := by
  split
  · rename_i same
    subst same
    have first : boundary before run.head? = true := by
      obtain ⟨c, run', rfl⟩ := List.exists_cons_of_ne_nil hr.1
      rw [List.head?_cons, boundary_word (hr.2 c List.mem_cons_self), fresh]
      rfl
    have last : boundary run.getLast? rest.head? = true := by
      obtain ⟨c, hc, word⟩ := hr.getLast
      rw [hc]
      cases rest with
      | nil => simp [boundary, isWordAt, word]
      | cons d rest => simp [boundary, isWordAt, word, stops_cons.1 stops]
    simp [dropDelimited?, first, last]
  · rename_i other
    unfold dropDelimited?
    split
    · rename_i rest' found
      refine if_neg fun both => other ?_
      simp only [Bool.and_eq_true] at both
      have split := dropLiteral_eq_some found
      -- a word that is longer runs into the rest, and one that is shorter ends inside the run
      rcases List.append_eq_append_iff.1 split with ⟨more, hword, hrest⟩ | ⟨more, hrun, hrest⟩
      · cases more with
        | nil => simpa using hword.symm
        | cons d more =>
          have inside : d ∈ word := by simp [hword]
          rw [hrest, List.cons_append, stops_cons, hw.2 d inside] at stops
          cases stops
      · cases more with
        | nil => simpa using hrun
        | cons d more =>
          have inside : isWord d = true := hr.2 d (by simp [hrun])
          obtain ⟨c, hc, hcw⟩ := hw.getLast
          have joint := both.2
          rw [hc, hrest, List.cons_append, List.head?_cons, boundary_word inside] at joint
          simp [isWordAt, hcw] at joint
    · rfl

theorem dropDelimited_mark {word rest : Text} {before : Option Char} {c : Char}
    (hw : IsRun isWord word) (mark : isWord c = false) :
    dropDelimited? word before (c :: rest) = none := by
  have none : dropLiteral? word (c :: rest) = none := by
    refine dropLiteral_eq_none fun rest' same => ?_
    obtain ⟨d, word', rfl⟩ := List.exists_cons_of_ne_nil hw.1
    have hd := hw.2 d List.mem_cons_self
    rw [← (List.cons.inj same).1, mark] at hd
    cases hd
  simp [dropDelimited?, none]

theorem dropDelimited_inside {word rest : Text} {before : Option Char} {c : Char}
    (inside : isWordAt before = true) (char : isWord c = true) (hw : IsRun isWord word) :
    dropDelimited? word before (c :: rest) = none := by
  unfold dropDelimited?
  split
  · rename_i rest' found
    refine if_neg fun both => ?_
    simp only [Bool.and_eq_true] at both
    obtain ⟨d, word', rfl⟩ := List.exists_cons_of_ne_nil hw.1
    obtain ⟨rfl, -⟩ := List.cons.inj (dropLiteral_eq_some found)
    have first := both.1
    rw [List.head?_cons, boundary_word char, inside] at first
    cases first
  · rfl

/-! ### Rules that treat words as wholes -/

/-- A word at whose beginning nothing is edited, for a rule that edits nothing inside words. -/
theorem editFrom_word {w rest : Text} {before : Option Char} (hw : IsRun isWord w)
    (inside : ∀ before c rest, isWordAt before = true → isWord c = true →
      rule before (c :: rest) = none) (none : rule before (w ++ rest) = none) :
    editFrom rule before 0 (w ++ rest) = w ++ editFrom rule w.getLast? 0 rest := by
  have last : w.getLast?.or before = w.getLast? := by
    obtain ⟨d, hd, -⟩ := hw.getLast
    rw [hd, Option.some_or]
  rw [← last]
  refine editFrom_inert fun a c b same => ?_
  cases a with
  | nil =>
    rw [same] at none
    exact none
  | cons e a =>
    have word : ∀ x ∈ e :: a, isWord x = true := fun x hx => hw.2 x (by
      rw [same]
      exact List.mem_append_left _ hx)
    refine inside _ c _ ?_ (hw.2 c (by simp [same]))
    rw [List.getLast?_eq_some_getLast (List.cons_ne_nil e a), Option.some_or]
    exact word _ (List.getLast_mem _)

/-- The rule edits nothing but whole words; `act` says what becomes of a word, given the
character before it. -/
structure ActsOnWords (rule : EditRule) (act : Option Char → Text → List Piece) : Prop where
  at_mark : ∀ before c rest, isWord c = false → rule before (c :: rest) = none
  inside : ∀ before c rest, isWordAt before = true → isWord c = true →
    rule before (c :: rest) = none
  at_word : ∀ before w rest, isWordAt before = false → IsRun isWord w → Stops isWord rest →
    rule before (w ++ rest) = some (.upTo (w ++ rest) rest (textOf (act before w))) ∨
      rule before (w ++ rest) = none ∧ act before w = [.word w]

def editWords (act : Option Char → Text → List Piece) :
    Option Char → List Piece → List Piece
  | _, [] => []
  | _, .mark c :: pieces => .mark c :: editWords act (some c) pieces
  | before, .word w :: pieces => act before w ++ editWords act w.getLast? pieces

theorem editFrom_words {act : Option Char → Text → List Piece} (h : ActsOnWords rule act)
    {pieces : List Piece} (separated : Separated pieces) {before : Option Char}
    (fresh : isWordAt before = false ∨ Stops isWord (textOf pieces)) :
    editFrom rule before 0 (textOf pieces) = textOf (editWords act before pieces) := by
  induction pieces generalizing before with
  | nil => rfl
  | cons piece pieces ih =>
    cases piece with
    | mark c =>
      have next : isWordAt (some c) = false := separated.1
      rw [textOf_mark, editFrom_cons (h.at_mark before c _ separated.1), ih separated.2 (.inl next)]
      rfl
    | word w =>
      obtain ⟨hw, stops, separated'⟩ := separated
      have fresh' : isWordAt before = false := fresh.resolve_right hw.not_stops
      have tail : editFrom rule w.getLast? 0 (textOf pieces) =
          textOf (editWords act w.getLast? pieces) := ih separated' (.inr stops)
      rw [textOf_word]
      rcases h.at_word before w (textOf pieces) fresh' hw stops with edit | ⟨none, same⟩
      · rw [editFrom_upTo hw.1 edit, tail, editWords, textOf_append]
      · rw [editFrom_word hw h.inside none, tail, editWords, same]
        rfl

/-- The pieces that take the place of words are themselves separated from the others. -/
theorem separated_editWords {act : Option Char → Text → List Piece} {pieces : List Piece}
    (separated : Separated pieces) {before : Option Char}
    (acts : ∀ before w, IsRun isWord w → Separated (act before w)) :
    Separated (editWords act before pieces) := by
  induction pieces generalizing before with
  | nil => trivial
  | cons piece pieces ih =>
    cases piece with
    | mark c => exact ⟨separated.1, ih separated.2⟩
    | word w =>
      obtain ⟨hw, stops, separated'⟩ := separated
      refine (acts before w hw).append (ih separated') ?_
      cases pieces with
      | nil => exact stops_nil _
      | cons piece pieces =>
        cases piece with
        | mark c => exact stops_cons.2 separated'.1
        | word v => exact absurd stops separated'.1.not_stops

/-! ### Replaced words -/

def Piece.replace (word : Text) (written : List Piece) : Piece → List Piece
  | .word w => if w = word then written else [.word w]
  | .mark c => [.mark c]

theorem replaceWord_acts {word : Text} (hw : IsRun isWord word) (written : List Piece) :
    ActsOnWords (fun before text =>
      (dropDelimited? word before text).map (Edit.upTo text · (textOf written)))
      (fun _ w => (Piece.word w).replace word written) where
  at_mark before c rest mark := by rw [dropDelimited_mark hw mark, Option.map_none]
  inside before c rest inside char := by
    rw [dropDelimited_inside inside char hw, Option.map_none]
  at_word before w rest fresh run stops := by
    rw [dropDelimited_word hw run stops fresh, Piece.replace]
    by_cases same : w = word
    · rw [if_pos same, if_pos same]
      exact .inl rfl
    · rw [if_neg same, if_neg same]
      exact .inr ⟨rfl, rfl⟩

theorem editWords_replace (word : Text) (written : List Piece) (before : Option Char)
    (pieces : List Piece) :
    editWords (fun _ w => (Piece.word w).replace word written) before pieces =
      pieces.flatMap (Piece.replace word written) := by
  induction pieces generalizing before with
  | nil => rfl
  | cons piece pieces ih =>
    cases piece <;> rw [editWords, ih, List.flatMap_cons]
    rfl

theorem replaceWord_textOf {word : Text} (hw : IsRun isWord word) (written : List Piece)
    {pieces : List Piece} (separated : Separated pieces) :
    replaceWord word (textOf written) (textOf pieces) =
      textOf (pieces.flatMap (Piece.replace word written)) := by
  rw [← editWords_replace word written none]
  exact editFrom_words (replaceWord_acts hw written) separated (.inl rfl)

theorem separated_replace {word : Text} {written pieces : List Piece} (h : Separated written)
    (separated : Separated pieces) : Separated (pieces.flatMap (Piece.replace word written)) := by
  rw [← editWords_replace word written none]
  refine separated_editWords separated fun before w hw => ?_
  rw [Piece.replace]
  split
  · exact h
  · exact ⟨hw, stops_nil _, trivial⟩

theorem flatMap_replace_of_not_mem {word : Text} {written pieces : List Piece}
    (h : Piece.word word ∉ pieces) : pieces.flatMap (Piece.replace word written) = pieces := by
  induction pieces with
  | nil => rfl
  | cons piece pieces ih =>
    rw [List.flatMap_cons, ih fun member => h (List.mem_cons_of_mem _ member)]
    cases piece with
    | mark c => rfl
    | word w =>
      have other : w ≠ word := by
        rintro rfl
        exact h List.mem_cons_self
      rw [Piece.replace, if_neg other]
      rfl

theorem replaceWord_of_not_mem {word : Text} (hw : IsRun isWord word) (written : Text)
    {pieces : List Piece} (separated : Separated pieces) (absent : Piece.word word ∉ pieces) :
    replaceWord word written (textOf pieces) = textOf pieces := by
  have pass := replaceWord_textOf hw (written.map .mark) separated
  rwa [textOf_marks, flatMap_replace_of_not_mem absent] at pass

end ProgressRules.Text
