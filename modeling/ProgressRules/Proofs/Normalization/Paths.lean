import ProgressRules.Proofs.Conversion.Result
import ProgressRules.Proofs.Diagnostics.Scanning
import ProgressRules.Proofs.Normalization.Idempotence
import ProgressRules.Proofs.Text.Words

/-! Which paths of the catalog can be compared. Members and keys are read word by word like the
rest of a source text. So a path comes through as it is exactly if no word in it is replaced, and
no root stands inside a key where it is free. -/

namespace ProgressRules

open Text (IsRun Stops Piece WordAt isWord isBlank isWordAt textOf Separated)

namespace Normalization

def replacedWords : List Text := ["and".toList, "or".toList, "True".toList, "False".toList]

theorem keyword_eq_self_iff {w : Text} : keyword w = [.word w] ↔ w ∉ replacedWords := by
  constructor
  · intro same inside
    simp only [replacedWords, List.mem_cons, List.not_mem_nil, or_false] at inside
    rcases inside with rfl | rfl | rfl | rfl <;> exact absurd same (by decide)
  · intro h
    simp only [replacedWords, List.mem_cons, List.not_mem_nil, or_false, not_or] at h
    obtain ⟨and, or, true, false⟩ := h
    rw [keyword, if_neg and, if_neg or, if_neg true, if_neg false]

/-- There is nothing to edit in the text, given the character before it: no word is replaced, a
root is blocked where it stands, and no blank follows a `not`. -/
def IsUntouched (roots : List Text) (before : Option Char) (text : Text) : Prop :=
  ∀ front w rest, WordAt before text front w rest →
    w ∉ replacedWords ∧ (w ∈ roots → blocksMark (front.getLast?.or before) = true) ∧
      (w = notWord → Stops isBlank rest)

variable {roots : List Text} {known : Text → Bool}

/-! ### Settled pieces -/

theorem settled_of_rewrite {before : Option Char} {pieces : List Piece}
    (same : rewrite known false before pieces = pieces) : Settled known before pieces := by
  induction pieces generalizing before with
  | nil => trivial
  | cons piece pieces ih =>
    cases piece with
    | mark c =>
      rw [rewrite, Bool.false_and, if_neg Bool.false_ne_true] at same
      exact ih (List.cons.inj same).2
    | word w =>
      rw [rewrite] at same
      split at same
      · cases same
      rename_i unmarked
      rw [List.nil_append] at same
      split at same
      · cases same
      rename_i affirmed
      rcases keyword_cases w with ⟨c, marks, -⟩ | ⟨v, word, -⟩
      · rw [marks] at same
        cases same
      · rw [word, List.singleton_append] at same
        obtain ⟨written, more⟩ := List.cons.inj same
        rw [written] at word
        refine ⟨word, fun hw => ?_, fun negation => ?_, ih more⟩
        · simpa [hw] using unmarked
        · simpa [negation] using affirmed

theorem rewrite_eq_self_iff {before : Option Char} {pieces : List Piece} :
    rewrite known false before pieces = pieces ↔ Settled known before pieces :=
  ⟨settled_of_rewrite, rewrite_of_settled⟩

theorem settled_append {a b : List Piece} {c : Char} (visible : isBlank c = false)
    {before : Option Char} : Settled known before (a ++ .mark c :: b) ↔
      Settled known before a ∧ Settled known (some c) b := by
  induction a generalizing before with
  | nil => exact (and_iff_right trivial).symm
  | cons piece a ih =>
    cases piece with
    | mark d => exact ih
    | word w =>
      have followed : followedByBlank (a ++ .mark c :: b) = followedByBlank a := by
        cases a with
        | nil => exact visible
        | cons piece a => cases piece <;> rfl
      rw [List.cons_append, Settled, Settled, followed, ih]
      simp only [and_assoc]

theorem settled_of_inert {before : Option Char} {pieces : List Piece}
    (h : Inert known before pieces) : Settled known before pieces := by
  induction pieces generalizing before with
  | nil => trivial
  | cons piece pieces ih =>
    cases piece with
    | mark c => exact ih h
    | word w =>
      obtain ⟨free, blocked, more⟩ := h
      refine ⟨keyword_of_not_reserved free, blocked, ?_, ih more⟩
      rintro rfl
      exact absurd free (by decide)

theorem followedByBlank_eq_false_iff {pieces : List Piece} (separated : Separated pieces) :
    followedByBlank pieces = false ↔ Stops isBlank (textOf pieces) := by
  refine ⟨fun h => not_followedByBlank h separated, fun stops => ?_⟩
  cases pieces with
  | nil => rfl
  | cons piece pieces =>
    cases piece with
    | mark c => exact Text.stops_cons.1 stops
    | word w => rfl

theorem settled_word {before : Option Char} {a b : List Piece} {w : Text}
    (run : ∀ v, Piece.word v ∈ a → IsRun isWord v)
    (h : Settled known before (a ++ .word w :: b)) :
    keyword w = [.word w] ∧
      (known w = true → blocksMark ((textOf a).getLast?.or before) = true) ∧
      (w = notWord → followedByBlank b = false) := by
  induction a generalizing before with
  | nil => exact ⟨h.1, h.2.1, h.2.2.1⟩
  | cons piece a ih =>
    have run' : ∀ v, Piece.word v ∈ a → IsRun isWord v := fun v inside =>
      run v (List.mem_cons_of_mem _ inside)
    cases piece with
    | mark c => simpa [List.getLast?_cons] using ih run' h
    | word v =>
      obtain ⟨d, last, -⟩ := (run v List.mem_cons_self).getLast
      simpa [List.getLast?_append, last, Option.or_assoc] using ih run' h.2.2.2

theorem IsUntouched.of_append {before : Option Char} (front : Text) {text : Text}
    (h : IsUntouched roots before (front ++ text)) :
    IsUntouched roots (front.getLast?.or before) text := by
  intro a w rest word
  have last : (front ++ a).getLast?.or before = a.getLast?.or (front.getLast?.or before) := by
    rw [List.getLast?_append, Option.or_assoc]
  obtain ⟨split, run, begins, ends⟩ := word
  rw [← last] at begins ⊢
  exact h _ w rest ⟨by rw [split, List.append_assoc], run, begins, ends⟩

theorem settled_iff_untouched {pieces : List Piece} (separated : Separated pieces)
    {before : Option Char} (fresh : isWordAt before = false ∨ Stops isWord (textOf pieces)) :
    Settled roots.contains before pieces ↔ IsUntouched roots before (textOf pieces) := by
  constructor
  · intro h front w rest word
    obtain ⟨a, b, rfl, rfl, rfl⟩ := word.exists_pieces separated
    obtain ⟨kept, blocked, negation⟩ := settled_word (fun v inside =>
      separated.isRun_of_mem (List.mem_append_left _ inside)) h
    have separated' : Separated b := separated.of_append.2.2
    exact ⟨keyword_eq_self_iff.1 kept, by simpa using blocked, fun same =>
      not_followedByBlank (negation same) separated'⟩
  · intro h
    induction pieces generalizing before with
    | nil => trivial
    | cons piece pieces ih =>
      cases piece with
      | mark c =>
        have next : isWordAt (some c) = false := separated.1
        exact ih separated.2 (.inl next) (IsUntouched.of_append [c] h)
      | word w =>
        obtain ⟨run, stops, separated'⟩ := separated
        obtain ⟨d, last, -⟩ := run.getLast
        have more := IsUntouched.of_append w h
        rw [last, Option.some_or, ← last] at more
        obtain ⟨kept, blocked, negation⟩ := h [] w (textOf pieces)
          ⟨rfl, run, fresh.resolve_right run.not_stops, stops⟩
        refine ⟨keyword_eq_self_iff.2 kept, by simpa using blocked, fun same => ?_,
          ih separated' (.inr stops) more⟩
        exact (followedByBlank_eq_false_iff separated').2 (negation same)

end Normalization

open Normalization

/-! ### Paths -/

def Segment.IsUntouched (roots : List Text) : Segment → Prop
  | .member name => name ∉ replacedWords
  | .key name => Normalization.IsUntouched roots (some Text.apostrophe) name

/-- The comparison comes through as it is written, behind the mark of its root. -/
structure WrittenComparison.IsUntouched (roots : List Text) (w : WrittenComparison) : Prop where
  segments : ∀ s ∈ w.reference.segments, s.IsUntouched roots
  last : w.reference.segments.getLast? = some (.member notWord) → w.left = []

structure Reference.IsDeclarable (r : Reference) : Prop extends r.WellFormed where
  initial : Stops Text.isDigit r.root
  not_keyword : r.root ∉ notWord :: replacedWords

variable {roots : List Text}

theorem Segment.stops_blank_flatMap {segments : List Segment} (nonempty : segments ≠ [])
    (rest : Text) : Stops isBlank (segments.flatMap Segment.text ++ rest) := by
  obtain ⟨s, segments, rfl⟩ := List.exists_cons_of_ne_nil nonempty
  cases s <;> exact Text.stops_cons.2 (by decide)

theorem Segment.last_member (name : Text) (segments : List Segment) (c : Char) (rest : Text) :
    ((name = notWord → Stops isBlank (segments.flatMap Segment.text ++ c :: rest)) ∧
        (segments.getLast? = some (.member notWord) → isBlank c = false)) ↔
      ((Segment.member name :: segments).getLast? = some (.member notWord) →
        isBlank c = false) := by
  -- a blank can follow a member only if no segment does
  cases segments with
  | nil => simp
  | cons s segments =>
    rw [List.getLast?_cons_cons]
    exact and_iff_right fun _ => stops_blank_flatMap (List.cons_ne_nil s segments) _

theorem Segment.exists_pieces (roots : List Text) {segments : List Segment}
    (wellFormed : ∀ s ∈ segments, s.WellFormed) {c : Char} {tail : List Piece}
    (separated : Separated (.mark c :: tail)) :
    ∃ pieces, textOf pieces = segments.flatMap Segment.text ∧
      Separated (pieces ++ .mark c :: tail) ∧
      ∀ before, Settled roots.contains before (pieces ++ .mark c :: tail) ↔
        (∀ s ∈ segments, s.IsUntouched roots) ∧
          (segments.getLast? = some (.member notWord) → isBlank c = false) ∧
          Settled roots.contains (some c) tail := by
  induction segments with
  | nil => exact ⟨[], rfl, separated, fun before => by simp [Settled]⟩
  | cons s segments ih =>
    obtain ⟨first, others⟩ := List.forall_mem_cons.1 wellFormed
    obtain ⟨pieces, text, separated', settled⟩ := ih others
    cases s with
    | member name =>
      have stops : Stops isWord (textOf (pieces ++ .mark c :: tail)) := by
        rw [Text.textOf_append, text]
        exact Segment.stops_flatMap _ (Text.stops_cons.2 separated.1)
      refine ⟨.mark '.' :: .word name :: pieces, ?_, ⟨by decide, first, stops, separated'⟩,
        fun before => ?_⟩
      · rw [Text.textOf_mark, Text.textOf_word, text]
        rfl
      · have blocked : roots.contains name = true → blocksMark (some '.') = true := fun _ => rfl
        rw [List.cons_append, List.cons_append, Settled, Settled, keyword_eq_self_iff, settled,
          followedByBlank_eq_false_iff separated', Text.textOf_append, text, Text.textOf_mark,
          List.forall_mem_cons, ← last_member name segments c (textOf tail)]
        simp only [Segment.IsUntouched, and_iff_right blocked]
        tauto
    | key name =>
      obtain ⟨inner, separated_inner, rfl⟩ := Text.exists_pieces name
      have last : (Segment.key (textOf inner) :: segments).getLast? = some (.member notWord) ↔
          segments.getLast? = some (.member notWord) := by
        cases segments <;> simp
      have closing :
          Separated (.mark Text.apostrophe :: .mark ']' :: (pieces ++ .mark c :: tail)) :=
        ⟨by decide, by decide, separated'⟩
      refine ⟨.mark '[' :: .mark Text.apostrophe :: (inner ++ .mark Text.apostrophe :: .mark ']' ::
        pieces), by simp [text, Segment.text], ?_, fun before => ?_⟩
      · simp only [List.cons_append, List.append_assoc]
        exact ⟨by decide, by decide, separated_inner.append closing (Text.stops_cons.2 (by decide))⟩
      · -- no blank is an apostrophe, so the words of the key are settled or not by themselves
        simp only [List.cons_append, List.append_assoc]
        rw [Settled, Settled, settled_append (by decide), Settled, settled,
          settled_iff_untouched separated_inner (.inl (by decide)), last, List.forall_mem_cons,
          and_assoc]
        rfl

theorem WrittenComparison.WellFormed.exists_middle {w : WrittenComparison} (h : w.WellFormed) :
    ∃ c middle, w.left ++ w.operator.symbol ++ w.right = c :: middle ∧
      (isBlank c = false ↔ w.left = []) := by
  cases left : w.left with
  | nil =>
    have visible : ∀ c ∈ ['>', '<', '=', '!'], isBlank c = false := by decide
    obtain ⟨c, more, same, initial⟩ := Operator.symbol_eq_cons h.operator
    exact ⟨c, more ++ w.right, by rw [same]; rfl, iff_of_true (visible c initial) rfl⟩
  | cons c gap =>
    have blank : isBlank c = true := h.left c (by simp [left])
    exact ⟨c, gap ++ w.operator.symbol ++ w.right, rfl, iff_of_false (by simp [blank]) nofun⟩

/-- The pieces of a comparison, and when those behind the root are settled. -/
theorem WrittenComparison.exists_pieces {w : WrittenComparison} (h : w.WellFormed)
    (unknown : ∀ v, IsRun Text.isDigit v → v ∉ roots) :
    ∃ pieces, Separated (.word w.reference.root :: pieces) ∧
      textOf (.word w.reference.root :: pieces) = w.text ∧
      ∀ before, Settled roots.contains before pieces ↔ w.IsUntouched roots := by
  obtain ⟨c, middle, split, visible⟩ := h.exists_middle
  have marks := h.not_isWord_middle
  rw [split] at marks
  have separated : Separated (.mark c :: (middle.map .mark ++ w.number.pieces)) :=
    Text.separated_marks_append marks (Numeral.separated_pieces h.number)
  have tail : Settled roots.contains (some c) (middle.map .mark ++ w.number.pieces) :=
    settled_of_inert (inert_marks middle (some c) (inert_number h.number fun v digits => by
      simpa using unknown v digits))
  obtain ⟨pieces, text, separated', settled⟩ :=
    Segment.exists_pieces roots h.reference.segments separated
  refine ⟨pieces ++ .mark c :: (middle.map .mark ++ w.number.pieces),
    ⟨h.reference.root, ?_, separated'⟩, ?_, fun before => ?_⟩
  · rw [Text.textOf_append, text]
    exact Segment.stops_flatMap _ (Text.stops_cons.2 separated.1)
  · have joined : c :: (middle ++ w.number.text) =
        w.left ++ (w.operator.symbol ++ (w.right ++ w.number.text)) := by
      rw [← List.cons_append, ← split]
      simp
    simp [text, Numeral.textOf_pieces, joined, WrittenComparison.text, Reference.text]
  · rw [settled, visible]
    exact ⟨fun h => ⟨h.1, h.2.1⟩, fun h => ⟨h.segments, h.last, tail⟩⟩

/-- Members and keys of one free word are left alone, also if the word is a root. -/
theorem WrittenComparison.isUntouched_of_isFree {w : WrittenComparison}
    (free : ∀ s ∈ w.reference.segments, IsFree s.name) : w.IsUntouched roots where
  segments s inside := by
    obtain ⟨run, unreserved⟩ := free s inside
    have kept : s.name ∉ replacedWords := keyword_eq_self_iff.1 (keyword_of_not_reserved unreserved)
    cases s with
    | member name => exact kept
    | key name =>
      have alone : Separated [.word name] := ⟨run, Text.stops_nil _, trivial⟩
      have settled : Settled roots.contains (some Text.apostrophe) [.word name] :=
        settled_of_inert ⟨unreserved, fun _ => rfl, trivial⟩
      have untouched := (settled_iff_untouched alone (.inl (by decide))).1 settled
      rwa [Text.textOf_word, Text.textOf_nil, List.append_nil] at untouched
  last final := by
    have reserved : notWord ∈ reservedWords := by decide
    exact absurd reserved (free _ (List.mem_of_getLast? final)).not_reserved

/-- Normalization writes the mark of the root, and nothing else if there is nothing else to edit. -/
theorem normalize_comparison_iff {vars : List Variable} {w : WrittenComparison}
    (wellFormed : w.WellFormed) (words : ∀ root ∈ rootsOf vars, IsRun isWord root)
    (known : w.reference.root ∈ rootsOf vars)
    (kept : w.reference.root ∉ notWord :: replacedWords)
    (unknown : ∀ v, IsRun Text.isDigit v → v ∉ rootsOf vars) :
    normalize vars w.text = .ok w.markedText ↔ w.IsUntouched (rootsOf vars) := by
  obtain ⟨other, kept⟩ := not_or.1 (mt List.mem_cons.2 kept)
  obtain ⟨pieces, separated, text, settled⟩ := WrittenComparison.exists_pieces wellFormed unknown
  have visible := visible_of_not_followedByBlank separated (by simp) rfl
  have first : rewrite (rootsOf vars).contains false none (.word w.reference.root :: pieces) =
      .mark '#' :: .word w.reference.root ::
        rewrite (rootsOf vars).contains false w.reference.root.getLast? pieces := by
    rw [rewrite, keyword_eq_self_iff.2 kept]
    simp [known, other, blocksMark]
  rw [WrittenComparison.markedText, ← text, normalize_textOf words separated visible, first,
    ← settled w.reference.root.getLast?, ← rewrite_eq_self_iff, Except.ok.injEq]
  constructor
  · intro same
    refine Text.textOf_injective (separated_rewrite _ _ _ separated.2.2) separated.2.2 ?_
    exact List.append_cancel_left (List.cons.inj same).2
  · intro same
    rw [same]
    rfl

/-! ### Catalogs of paths -/

namespace Catalog

variable {catalog : Catalog}

def IsDeclarable (catalog : Catalog) : Prop :=
  ∀ path ∈ catalog.paths, ∃ r : Reference, r.IsDeclarable ∧ r.text = path

theorem mem_roots {root : Text} :
    root ∈ catalog.roots ↔ ∃ path ∈ catalog.paths, Variable.rootOf path = root := by
  simp [Catalog.roots, rootsOf, Catalog.paths, Variable.root, List.mem_eraseDups]

theorem IsDeclarable.of_mem_roots (h : catalog.IsDeclarable) {root : Text}
    (inside : root ∈ catalog.roots) : IsRun isWord root ∧ Stops Text.isDigit root := by
  obtain ⟨path, member, rfl⟩ := mem_roots.1 inside
  obtain ⟨r, declarable, rfl⟩ := h path member
  rw [Variable.rootOf_text declarable.toWellFormed]
  exact ⟨declarable.root, declarable.initial⟩

theorem IsDeclarable.of_mem_paths (h : catalog.IsDeclarable) {r : Reference}
    (wellFormed : r.WellFormed) (inside : r.text ∈ catalog.paths) : r.IsDeclarable := by
  obtain ⟨r', declarable, same⟩ := h r.text inside
  exact Reference.text_injective declarable.toWellFormed wellFormed same ▸ declarable

end Catalog

/-! ### Conversions of single comparisons -/

theorem Operator.exists_relates {o : Operator} (h : o.Known) (y : ℝ) : ∃ x, o.Relates x y := by
  cases o with
  | other symbol => exact absurd rfl (h symbol)
  | ge | le | eq => exact ⟨y, by simp [Relates]⟩
  | gt | ne => exact ⟨y + 1, by simp [Relates]⟩
  | lt => exact ⟨y - 1, by simp [Relates]⟩

namespace WrittenComparison

variable {w : WrittenComparison}

theorem decompose_markedText (h : w.WellFormed) :
    decompose w.markedText = ⟨.none, [w.comparison]⟩ := by
  have trimmed : Text.trim w.markedText = w.markedText := by
    have visible : Stops isBlank w.markedText := Text.stops_cons.2 (by decide)
    simpa using Text.trim_gaps Text.blank_nil Text.blank_nil visible h.ends_markedText
  have flat : Decomposition.IsFlat .none [w] (Text.trim w.markedText) := trimmed.symm ▸ .single h
  exact Decomposition.decompose_of_isFlat flat

theorem accepts_markedText (h : w.WellFormed) (settings : Settings) :
    Conversion.Accepts settings w.markedText (.comparison w.comparison) := by
  have standsFor : (decompose w.markedText).StandsFor (.comparison w.comparison) :=
    decompose_markedText h ▸ .single w.comparison
  obtain ⟨t, standsFor', read⟩ := Decomposition.exists_standsFor standsFor.recognised
  rw [Conversion.Accepts, read, standsFor'.unique standsFor]
  simp [standsFor]

end WrittenComparison

open Conversion in
/-- A comparison of a path of the catalog comes through as it is written exactly if its members
and keys are left alone, which they are if each of them is one free word. Then it is decomposed
into itself, and there is nothing to warn of. -/
theorem convert_path {catalog : Catalog} (declarable : catalog.IsDeclarable)
    {w : WrittenComparison} (wellFormed : w.WellFormed)
    (path : w.reference.text ∈ catalog.paths) :
    (normalize catalog.toList w.text = .ok w.markedText ↔ w.IsUntouched catalog.roots) ∧
      ((∀ s ∈ w.reference.segments, IsFree s.name) → w.IsUntouched catalog.roots) ∧
      (w.IsUntouched catalog.roots → ∀ settings,
        (settings.checkConsistency = false ∨ w.comparison.IsModerate →
          ∃ c, convert settings catalog w.text = .ok c) ∧
        ∀ c, convert settings catalog w.text = .ok c →
          c.rule = w.markedText ∧ c.decomposition = ⟨.none, [w.comparison]⟩ ∧ c.warnings = []) := by
  have root : w.reference.root ∈ catalog.roots :=
    Catalog.mem_roots.2 ⟨_, path, Variable.rootOf_text wellFormed.reference⟩
  have unknown : ∀ v, IsRun Text.isDigit v → v ∉ catalog.roots := fun v digits inside => by
    have stops := (declarable.of_mem_roots inside).2
    rw [← List.append_nil v] at stops
    exact digits.not_stops stops
  have exactly := normalize_comparison_iff wellFormed
    (fun root inside => (declarable.of_mem_roots inside).1) root
    (declarable.of_mem_paths wellFormed.reference path).not_keyword unknown
  refine ⟨exactly, WrittenComparison.isUntouched_of_isFree, fun untouched settings => ?_⟩
  have normalized := exactly.2 untouched
  have accepted := WrittenComparison.accepts_markedText wellFormed settings
  refine ⟨fun mild => ?_, fun c converted => ?_⟩
  · rcases mild with off | moderate
    · exact exists_convert normalized (exists_ofRule catalog _ (consistencyOf_off off _ _))
    · exact exists_convert_of_isModerate accepted normalized
        (List.forall_mem_singleton.2 moderate)
  · have about := isAbout_of_convert normalized converted
    obtain ⟨x, relates⟩ := Operator.exists_relates wellFormed.operator
      (w.comparison.checkedThreshold : ℝ)
    refine ⟨about.rule_eq, about.decomposition.trans
      (WrittenComparison.decompose_markedText wellFormed), ?_⟩
    rw [warnings_of_satisfiable accepted ⟨fun _ => x, relates⟩ normalized converted]
    refine catalog.unknownReferences_eq_nil accepted.ofRule?_eq (List.forall_mem_singleton.2 ?_)
    exact Variable.rootOf_text wellFormed.reference ▸ root

namespace Sample

/-- For `commits` it is written as `stats['commits'] >= 5`. -/
def statsAt (key : Text) : WrittenComparison :=
  ⟨⟨"stats".toList, [.key key]⟩, [' '], .ge, [' '], ⟨['5'], []⟩⟩

theorem statsAt_wellFormed {key : Text} (run : IsRun (· != Text.apostrophe) key) :
    (statsAt key).WellFormed := by
  have stats : IsRun isWord "stats".toList := ⟨by decide, by decide⟩
  have five : (⟨['5'], []⟩ : Numeral).WellFormed := ⟨⟨by decide, by decide⟩, by decide⟩
  exact ⟨⟨stats, List.forall_mem_singleton.2 run⟩, Text.blank_space, fun _ => nofun,
    Text.blank_space, five⟩

def commits : WrittenComparison := statsAt "commits".toList

def totalCommits : WrittenComparison := statsAt "total commits".toList

theorem commits_wellFormed : commits.WellFormed := statsAt_wellFormed ⟨by decide, by decide⟩

theorem totalCommits_wellFormed : totalCommits.WellFormed :=
  statsAt_wellFormed ⟨by decide, by decide⟩

def commitCatalog : Catalog :=
  Catalog.ofList [.ofPath commits.reference.text, .ofPath totalCommits.reference.text,
    .ofPath "commits".toList]

theorem isDeclarable_commitCatalog : commitCatalog.IsDeclarable := by
  have paths : commitCatalog.paths = [commits.reference.text, totalCommits.reference.text,
      "commits".toList] := by decide +kernel
  have stats : Stops Text.isDigit "stats".toList := Text.stops_cons.2 (by decide)
  intro path inside
  rw [paths] at inside
  simp only [List.mem_cons, List.not_mem_nil, or_false] at inside
  rcases inside with rfl | rfl | rfl
  · exact ⟨_, ⟨commits_wellFormed.reference, stats, by decide⟩, rfl⟩
  · exact ⟨_, ⟨totalCommits_wellFormed.reference, stats, by decide⟩, rfl⟩
  · exact ⟨⟨"commits".toList, []⟩, ⟨⟨⟨by decide, by decide⟩, fun _ => nofun⟩,
      Text.stops_cons.2 (by decide), by decide⟩, rfl⟩

end Sample

open Sample

/-- A root that is the second word of a key is marked there. -/
theorem normalize_totalCommits :
    commitCatalog.IsDeclarable ∧ totalCommits.WellFormed ∧
      totalCommits.reference.text ∈ commitCatalog.paths ∧
      (normalize commitCatalog.toList totalCommits.text).toOption =
        some "#stats['total #commits'] >= 5".toList ∧
      normalize commitCatalog.toList totalCommits.text ≠ .ok totalCommits.markedText := by
  have computed : (normalize commitCatalog.toList totalCommits.text).toOption =
      some "#stats['total #commits'] >= 5".toList := by
    decide +kernel
  refine ⟨isDeclarable_commitCatalog, totalCommits_wellFormed, by decide +kernel, computed,
    fun kept => ?_⟩
  rw [kept] at computed
  exact absurd (Option.some.inj computed) (by decide)

/-- A root that is a whole key is left alone. -/
theorem convert_commits :
    ∃ c, convert Settings.default commitCatalog commits.text = .ok c ∧
      c.rule = "#stats['commits'] >= 5".toList ∧
      c.decomposition = ⟨.none, [commits.comparison]⟩ ∧ c.warnings = [] := by
  obtain ⟨-, free, whole⟩ := convert_path isDeclarable_commitCatalog commits_wellFormed
    (by decide +kernel)
  obtain ⟨total, result⟩ := whole (free (List.forall_mem_singleton.2
    ⟨⟨by decide, by decide⟩, by decide⟩)) Settings.default
  obtain ⟨c, converted⟩ := total (.inl rfl)
  exact ⟨c, converted, result c converted⟩

end ProgressRules
