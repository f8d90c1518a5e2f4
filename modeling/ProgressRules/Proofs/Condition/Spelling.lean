import ProgressRules.Proofs.Condition.Layout

/-! Spellings, which are sequences of lexemes with the blanks before them. The reader takes the
longest token at each place. A token before another one is the longest in its place, so no
sequence of tokens gets further than the reader does, and a rule has one spelling at most. -/

namespace ProgressRules

open Text (Stops Blank)

theorem Token.stops_of_read_not {text rest : Text} (h : Token.read text = some (.not, rest)) :
    Stops (· == '=') rest := by
  rcases Option.or_eq_some_iff.1 h with h | ⟨-, h⟩
  · simp [Token.readComparison] at h
  · unfold Token.readSymbol at h
    split at h <;> cases h
    rename_i alone
    cases rest with
    | nil => exact Text.stops_nil _
    | cons c rest =>
      refine Text.stops_cons.2 (beq_eq_false_iff_ne.2 ?_)
      rintro rfl
      exact alone rest rfl

namespace Lexeme

theorem token_injective {x y : Lexeme} (hx : x.WellFormed) (hy : y.WellFormed)
    (same : x.token = y.token) : x = y := by
  cases x with
  | comparison w =>
    cases y with
    | comparison v =>
      have text : w.markedText = v.markedText := congrArg Token.text same
      rw [WrittenComparison.text_injective hx hy (List.cons.inj text).2]
    | _ => cases same
  | _ => cases y <;> first | rfl | cases same

theorem stops_continuesToken {gap : Text} (blank : Blank gap) (x : Lexeme) (rest : Text) :
    Stops continuesToken (gap ++ (x.ruleText ++ rest)) := by
  have stops : Stops continuesToken (gap ++ Layout.ruleText [(x, rest)]) :=
    Layout.stops_continuesToken blank
  simpa [Layout.ruleText, Layout.text] using stops

/-! ### Where a lexeme stands -/

/-- Behind some blanks the text begins with the lexeme, and it goes on with `rest`. An
exclamation mark before an equals sign is no negation. -/
structure Opens (x : Lexeme) (gap text rest : Text) : Prop where
  wellFormed : x.WellFormed
  blank : Blank gap
  split : text = gap ++ (x.ruleText ++ rest)
  negation : x = .not → Stops (· == '=') rest

variable {x : Lexeme} {gap text rest : Text}

theorem Opens.length_eq (h : x.Opens gap text rest) :
    text.length = (gap ++ x.ruleText).length + rest.length := by
  rw [h.split, ← List.append_assoc, List.length_append]

theorem Opens.length_lt (h : x.Opens gap text rest) : rest.length < text.length := by
  obtain ⟨c, more, same, -⟩ := x.ruleText_eq_cons
  rw [h.length_eq, same]
  simp only [List.length_append, List.length_cons]
  omega

theorem Opens.stops (h : x.Opens gap text rest) : Stops continuesToken text := by
  rw [h.split]
  exact stops_continuesToken h.blank x rest

theorem Opens.trimStart_eq (h : x.Opens gap text rest) :
    Text.trimStart text = x.ruleText ++ rest := by
  rw [h.split, Text.trimStart_append h.blank]
  exact Text.trimStart_of_stops (stops_ruleText (by decide) x rest)

/-- A lexeme is read as it stands unless the rest goes on with it. -/
theorem Opens.read (h : x.Opens gap text rest) (stops : Stops continuesToken rest) :
    Token.read (Text.trimStart text) = some (x.token, rest) := by
  rw [h.trimStart_eq]
  exact read_append h.wellFormed stops

/-- Where a lexeme stands a token is read, and it is at least as long. -/
theorem Opens.exists_read (h : x.Opens gap text rest) :
    ∃ token after, Token.read (Text.trimStart text) = some (token, after) ∧ after <:+ rest := by
  rw [h.trimStart_eq]
  cases x with
  | comparison w =>
    obtain ⟨c, after, found, within⟩ := Comparison.exists_readMarked h.wellFormed rest
    simp only [Token.read, Token.readComparison, ruleText, token, Token.text, found,
      Option.map_some, Option.some_or]
    exact ⟨_, after, rfl, within⟩
  | not => exact ⟨.not, rest, Token.read_not (h.negation rfl), List.suffix_rfl⟩
  | and | or | leftParen | rightParen => exact ⟨_, rest, rfl, List.suffix_rfl⟩

theorem exists_opens {token : Token} (h : Token.read (Text.trimStart text) = some (token, rest)) :
    ∃ (x : Lexeme) (gap : Text), x.token = token ∧ x.Opens gap text rest := by
  obtain ⟨x, wellFormed, rfl, split⟩ := read_eq_some h
  obtain ⟨gap, blank, split_gap, -⟩ := Text.exists_gap text
  refine ⟨x, gap, rfl, wellFormed, blank, ?_, ?_⟩
  · rw [← split]
    exact split_gap
  · rintro rfl
    exact Token.stops_of_read_not h

end Lexeme

/-! ### Spellings -/

abbrev Spelling := List (Text × Lexeme)

namespace Spelling

def WellFormed (s : Spelling) : Prop := ∀ item ∈ s, Blank item.1 ∧ item.2.WellFormed

def text (s : Spelling) : Text := s.flatMap fun item => item.1 ++ item.2.ruleText

def tokens (s : Spelling) : List Token := s.map fun item => item.2.token

inductive Reaches : Spelling → Text → Text → Prop where
  | nil {text : Text} : Reaches [] text text
  | cons {x : Lexeme} {s : Spelling} {gap text more rest : Text} :
      x.Opens gap text more → Reaches s more rest → Reaches ((gap, x) :: s) text rest

/-- No lexemes get beyond the place where the text goes on with `rest`. -/
def Furthest (text rest : Text) : Prop :=
  ∀ (s : Spelling) (rest' : Text), s.Reaches text rest' → rest.length ≤ rest'.length

variable {x : Lexeme} {s t : Spelling} {gap text rest : Text}

theorem wellFormed_cons :
    WellFormed ((gap, x) :: s) ↔ (Blank gap ∧ x.WellFormed) ∧ s.WellFormed := by
  simp [WellFormed]

theorem text_cons (gap : Text) (x : Lexeme) (s : Spelling) :
    Spelling.text ((gap, x) :: s) = gap ++ (x.ruleText ++ s.text) := by
  simp [Spelling.text]

theorem text_cons_ne_nil (item : Text × Lexeme) (s : Spelling) : Spelling.text (item :: s) ≠ [] := by
  obtain ⟨c, more, initial, -⟩ := item.2.ruleText_eq_cons
  rw [text_cons, initial]
  simp

theorem Reaches.wellFormed (h : s.Reaches text rest) : s.WellFormed := by
  induction h with
  | nil =>
    intro item member
    cases member
  | cons opens _ ih => exact wellFormed_cons.2 ⟨⟨opens.blank, opens.wellFormed⟩, ih⟩

theorem Reaches.split (h : s.Reaches text rest) : text = s.text ++ rest := by
  induction h with
  | nil => rfl
  | cons opens _ ih =>
    rw [opens.split, text_cons, ih]
    simp only [List.append_assoc]

theorem Reaches.concat (h : s.Reaches text rest) {more : Text} (opens : x.Opens gap rest more) :
    Reaches (s ++ [(gap, x)]) text more := by
  induction h with
  | nil => exact .cons opens .nil
  | cons first _ ih => exact .cons first (ih opens)

theorem stops_text (wellFormed : s.WellFormed) : Stops Lexeme.continuesToken s.text := by
  cases s with
  | nil => exact Text.stops_nil _
  | cons item s =>
    obtain ⟨gap, x⟩ := item
    rw [text_cons]
    exact Lexeme.stops_continuesToken (wellFormed_cons.1 wellFormed).1.1 x _

/-- In a spelling every negation stands as one, though it is not said of it. -/
theorem reaches_text {s : Spelling} (wellFormed : s.WellFormed) : Reaches s s.text [] := by
  induction s with
  | nil => exact .nil
  | cons item s ih =>
    obtain ⟨gap, x⟩ := item
    obtain ⟨⟨blank, wf_x⟩, wf_s⟩ := wellFormed_cons.1 wellFormed
    refine .cons ⟨wf_x, blank, text_cons gap x s, fun _ => ?_⟩ (ih wf_s)
    exact Lexeme.stops_equals (stops_text wf_s)

theorem text_injective (hs : s.WellFormed) (ht : t.WellFormed) (same : s.text = t.text) :
    s = t := by
  induction s generalizing t with
  | nil =>
    cases t with
    | nil => rfl
    | cons item t => exact absurd same.symm (text_cons_ne_nil item t)
  | cons item s ih =>
    obtain ⟨gap, x⟩ := item
    cases t with
    | nil => exact absurd same (text_cons_ne_nil (gap, x) s)
    | cons item' t =>
      obtain ⟨gap', y⟩ := item'
      obtain ⟨⟨blank, wf_x⟩, wf_s⟩ := wellFormed_cons.1 hs
      obtain ⟨⟨blank', wf_y⟩, wf_t⟩ := wellFormed_cons.1 ht
      rw [text_cons, text_cons] at same
      obtain ⟨rfl, visible⟩ := Text.gap_unique blank blank'
        (Lexeme.stops_ruleText (by decide) x _) (Lexeme.stops_ruleText (by decide) y _) same
      -- the first token is read off, since the rest does not go on with it
      have read := congrArg Token.read visible
      rw [Lexeme.read_append wf_x (stops_text wf_s), Lexeme.read_append wf_y (stops_text wf_t)]
        at read
      obtain ⟨token, others⟩ := Prod.mk.inj (Option.some.inj read)
      rw [Lexeme.token_injective wf_x wf_y token, ih wf_s wf_t others]

/-! ### The reader gets furthest -/

theorem furthest_of_stuck (stuck : Token.read (Text.trimStart text) = none) :
    Furthest text text := by
  intro s rest reaches
  cases reaches with
  | nil => exact Nat.le_refl _
  | cons opens _ =>
    obtain ⟨token, after, found, -⟩ := opens.exists_read
    rw [stuck] at found
    cases found

/-- After the longest token at a place nothing is lost: a shorter one has no token behind it. -/
theorem Furthest.of_read {token : Token} {more : Text}
    (found : Token.read (Text.trimStart text) = some (token, more)) (h : Furthest more rest) :
    Furthest text rest := by
  obtain ⟨x, gap, -, opens⟩ := Lexeme.exists_opens found
  have shorter : rest.length ≤ more.length := h [] more .nil
  intro s last reaches
  cases reaches with
  | nil => exact Nat.le_trans shorter (Nat.le_of_lt opens.length_lt)
  | cons opens' others =>
    cases others with
    | nil =>
      obtain ⟨token', after, found', within⟩ := opens'.exists_read
      rw [found] at found'
      cases found'
      exact Nat.le_trans shorter within.length_le
    | cons next others =>
      have found' := opens'.read next.stops
      rw [found] at found'
      cases found'
      exact h _ _ (.cons next others)

theorem Furthest.not_opens (h : Furthest text rest) (reaches : s.Reaches text rest) {more : Text} :
    ¬x.Opens gap rest more := by
  intro opens
  have beyond := h _ _ (reaches.concat opens)
  exact absurd opens.length_lt (Nat.not_lt.2 beyond)

def outcome (position : Nat) (s : Spelling) (rest : Text) : Except ParseError (List Token) :=
  if rest.isEmpty then .ok s.tokens
  else .error (.unexpectedInput (position + s.text.length) (rest.take 10))

theorem outcome_cons (position : Nat) (gap : Text) (x : Lexeme) (s : Spelling) (rest : Text) :
    (outcome (position + (gap ++ x.ruleText).length) s rest).map (x.token :: ·) =
      outcome position ((gap, x) :: s) rest := by
  unfold outcome
  split
  · rfl
  · simp only [Except.map, text_cons, List.length_append, Nat.add_assoc]

theorem exists_readAll (position : Nat) (text : Text) :
    ∃ (s : Spelling) (rest : Text), s.Reaches text rest ∧ Furthest text rest ∧
      Token.readAll position text = outcome position s rest := by
  induction position, text using Token.readAll.induct with
  | case1 position text empty =>
    obtain rfl := List.isEmpty_iff.1 empty
    refine ⟨[], [], .nil, fun _ _ _ => Nat.zero_le _, ?_⟩
    rw [Token.readAll]
    rfl
  | case2 position text nonempty token more found shorter ih =>
    obtain ⟨s, rest, reaches, furthest, result⟩ := ih
    obtain ⟨x, gap, rfl, opens⟩ := Lexeme.exists_opens found
    refine ⟨(gap, x) :: s, rest, .cons opens reaches, furthest.of_read found, ?_⟩
    have consumed : text.length - more.length = (gap ++ x.ruleText).length := by
      rw [opens.length_eq]
      omega
    rw [Token.readAll, if_neg nonempty, found]
    simp only [shorter, if_true]
    rw [result, consumed, outcome_cons]
  | case3 position text nonempty token more found notShorter =>
    obtain ⟨x, gap, -, opens⟩ := Lexeme.exists_opens found
    exact absurd opens.length_lt notShorter
  | case4 position text nonempty stuck =>
    refine ⟨[], text, .nil, furthest_of_stuck stuck, ?_⟩
    rw [Token.readAll, if_neg nonempty, stuck, outcome, if_neg nonempty]
    rfl

theorem exists_tokenize (rule : Text) :
    ∃ (s : Spelling) (rest : Text), s.Reaches (Text.trimEnd rule) rest ∧
      Furthest (Text.trimEnd rule) rest ∧ tokenize rule = outcome 0 s rest :=
  exists_readAll 0 (Text.trimEnd rule)

theorem tokenize_eq_ok {rule : Text} {tokens : List Token} :
    tokenize rule = .ok tokens ↔
      ∃ s : Spelling, s.WellFormed ∧ s.text = Text.trimEnd rule ∧ s.tokens = tokens := by
  obtain ⟨s, rest, reaches, furthest, result⟩ := exists_tokenize rule
  constructor
  · intro h
    rw [result, outcome] at h
    split at h
    · rename_i empty
      obtain rfl := List.isEmpty_iff.1 empty
      cases h
      refine ⟨s, reaches.wellFormed, ?_, rfl⟩
      rw [reaches.split, List.append_nil]
    · cases h
  · rintro ⟨t, wellFormed, same, rfl⟩
    have whole : t.Reaches (Text.trimEnd rule) [] := by
      rw [← same]
      exact reaches_text wellFormed
    obtain rfl := List.eq_nil_of_length_eq_zero (Nat.le_zero.1 (furthest _ _ whole))
    have text : s.text = t.text := by
      rw [same, reaches.split, List.append_nil]
    rw [result, text_injective reaches.wellFormed wellFormed text]
    rfl

theorem tokenize_eq_error {rule : Text} {e : ParseError} :
    tokenize rule = .error e ↔ ∃ (s : Spelling) (rest : Text), rest ≠ [] ∧
      s.Reaches (Text.trimEnd rule) rest ∧ Furthest (Text.trimEnd rule) rest ∧
      e = .unexpectedInput s.text.length (rest.take 10) := by
  obtain ⟨s, rest, reaches, furthest, result⟩ := exists_tokenize rule
  constructor
  · intro h
    rw [result, outcome] at h
    split at h
    · cases h
    · rename_i nonempty
      cases h
      refine ⟨s, rest, ?_, reaches, furthest, ?_⟩
      · simpa using nonempty
      · rw [Nat.zero_add]
  · rintro ⟨t, last, nonempty, reaches', furthest', rfl⟩
    -- two places that are furthest are the same
    have together : s.text ++ rest = t.text ++ last := reaches.split.symm.trans reaches'.split
    have length : rest.length = last.length :=
      Nat.le_antisymm (furthest _ _ reaches') (furthest' _ _ reaches)
    obtain ⟨text, rfl⟩ := List.append_inj' together length
    rw [result, outcome, if_neg (by simpa using nonempty), Nat.zero_add, text]

theorem ofText?_of_mem_tokens (wellFormed : s.WellFormed) {c : Comparison} {text : Text}
    (inside : .comparison c text ∈ s.tokens) : Comparison.ofText? text = some c := by
  obtain ⟨⟨gap, x⟩, member, same⟩ := List.mem_map.1 inside
  exact Lexeme.ofText?_eq_some (wellFormed _ member).2 same

/-- A rule has tokens exactly if it is spelled by lexemes. The spelling is told by the rule, its
tokens are those that are read, and the texts of comparisons read as these comparisons. Otherwise
the error names the furthest place that tokens reach, where no token stands. Each token that is
read makes the rest shorter. -/
theorem tokenize_exact (rule : Text) :
    (∀ tokens, tokenize rule = .ok tokens ↔
      ∃ s : Spelling, s.WellFormed ∧ s.text = Text.trimEnd rule ∧ s.tokens = tokens) ∧
    (∀ s t : Spelling, s.WellFormed → t.WellFormed → s.text = Text.trimEnd rule →
      t.text = Text.trimEnd rule → s = t) ∧
    (∀ tokens, tokenize rule = .ok tokens → ∀ c text, .comparison c text ∈ tokens →
      Comparison.ofText? text = some c) ∧
    (∀ e, tokenize rule = .error e ↔ ∃ (s : Spelling) (rest : Text), rest ≠ [] ∧
      Text.trimEnd rule = s.text ++ rest ∧ s.Reaches (Text.trimEnd rule) rest ∧
      Furthest (Text.trimEnd rule) rest ∧
      (¬∃ (x : Lexeme) (gap more : Text), x.Opens gap rest more) ∧
      e = .unexpectedInput s.text.length (rest.take 10)) ∧
    ∀ text token rest, Token.read (Text.trimStart text) = some (token, rest) →
      rest.length < text.length := by
  refine ⟨fun tokens => tokenize_eq_ok, fun s t hs ht same same' => ?_, ?_, fun e => ?_, ?_⟩
  · exact text_injective hs ht (same.trans same'.symm)
  · intro tokens h c text inside
    obtain ⟨s, wellFormed, -, rfl⟩ := tokenize_eq_ok.1 h
    exact ofText?_of_mem_tokens wellFormed inside
  · rw [tokenize_eq_error]
    constructor
    · rintro ⟨s, rest, nonempty, reaches, furthest, rfl⟩
      refine ⟨s, rest, nonempty, reaches.split, reaches, furthest, ?_, rfl⟩
      rintro ⟨x, gap, more, opens⟩
      exact furthest.not_opens reaches opens
    · rintro ⟨s, rest, nonempty, -, reaches, furthest, -, rfl⟩
      exact ⟨s, rest, nonempty, reaches, furthest, rfl⟩
  · intro text token rest found
    obtain ⟨x, gap, -, opens⟩ := Lexeme.exists_opens found
    exact opens.length_lt

end Spelling

end ProgressRules
