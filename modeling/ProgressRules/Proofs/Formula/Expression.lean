import ProgressRules.Formula
import ProgressRules.Proofs.Comparison.Reading

/-! The expression language in which formulas are written: marked references, numbers, products,
quotients, differences, parentheses and calls of `min` and `max` under a common prefix. Blanks
may stand between the tokens. The grammar is unambiguous. -/

namespace ProgressRules

open Text (IsRun Stops Blank)

inductive Expression where
  | number (n : Numeral)
  | variable (r : Reference)
  | product (a b : Expression)
  | quotient (a b : Expression)
  | difference (a b : Expression)
  | call (function : Extremum) (arguments : List Expression)

namespace Expression

inductive Sign where
  | times
  | over

def Sign.symbol : Sign → Char
  | .times => '*'
  | .over => '/'

def Sign.apply : Sign → Expression → Expression → Expression
  | .times => .product
  | .over => .quotient

/-- What a text may be. `factors` and `terms` go on with an expression that has been read so
far, from left to right. -/
inductive Phrase where
  | operand (e : Expression)
  | product (e : Expression)
  | factors (a e : Expression)
  | sum (e : Expression)
  | terms (a e : Expression)
  | arguments (es : List Expression)

inductive Writes (functionPrefix : Text) : Phrase → Text → Prop where
  | number {n : Numeral} : n.WellFormed → Writes functionPrefix (.operand (.number n)) n.text
  | variable {r : Reference} :
      r.WellFormed → Writes functionPrefix (.operand (.variable r)) ('#' :: r.text)
  | group {e : Expression} {left text right : Text} :
      Blank left → Blank right → Writes functionPrefix (.sum e) text →
        Writes functionPrefix (.operand e) ('(' :: (left ++ (text ++ (right ++ [')']))))
  | call {es : List Expression} {left text right : Text} (function : Extremum) :
      Blank left → Blank right → Writes functionPrefix (.arguments es) text →
        Writes functionPrefix (.operand (.call function es))
          (Formula.functionName functionPrefix function ++
            '(' :: (left ++ (text ++ (right ++ [')']))))
  | product {a e : Expression} {text more : Text} :
      Writes functionPrefix (.operand a) text → Writes functionPrefix (.factors a e) more →
        Writes functionPrefix (.product e) (text ++ more)
  | noFactor {a : Expression} : Writes functionPrefix (.factors a a) []
  | factor {a b e : Expression} {left right text more : Text} (sign : Sign) :
      Blank left → Blank right → Writes functionPrefix (.operand b) text →
        Writes functionPrefix (.factors (sign.apply a b) e) more →
          Writes functionPrefix (.factors a e) (left ++ (sign.symbol :: (right ++ (text ++ more))))
  | sum {a e : Expression} {text more : Text} :
      Writes functionPrefix (.product a) text → Writes functionPrefix (.terms a e) more →
        Writes functionPrefix (.sum e) (text ++ more)
  | noTerm {a : Expression} : Writes functionPrefix (.terms a a) []
  | minus {a b e : Expression} {left right text more : Text} :
      Blank left → Blank right → Writes functionPrefix (.product b) text →
        Writes functionPrefix (.terms (.difference a b) e) more →
          Writes functionPrefix (.terms a e) (left ++ ('-' :: (right ++ (text ++ more))))
  | one {e : Expression} {text : Text} :
      Writes functionPrefix (.sum e) text → Writes functionPrefix (.arguments [e]) text
  | more {e : Expression} {es : List Expression} {left right text others : Text} :
      Blank left → Blank right → Writes functionPrefix (.sum e) text →
        Writes functionPrefix (.arguments es) others →
          Writes functionPrefix (.arguments (e :: es))
            (text ++ (left ++ (',' :: (right ++ others))))

/-- The whole text, blanks around it aside, is written for the expression. -/
def IsReading (functionPrefix : Text) (e : Expression) (text : Text) : Prop :=
  ∃ lead body trailing, Blank lead ∧ Blank trailing ∧ Writes functionPrefix (.sum e) body ∧
    text = lead ++ (body ++ trailing)

/-! ### Unambiguity -/

def opensOperand (c : Char) : Bool := Text.isDigit c || c == '#' || c == '('

/-- A prefix under which calls are told from the other operands. -/
def IsPrefix (functionPrefix : Text) : Prop :=
  Stops (fun c => opensOperand c || Text.isBlank c) functionPrefix

/-- What may follow a phrase: nothing that would go on with a reference or a number, and after
blanks none of the symbols that would go on with the phrase. -/
structure Follows (symbols : List Char) (rest : Text) : Prop where
  token : Stops continuesReference rest
  symbol : Stops symbols.contains (Text.trimStart rest)

namespace Phrase

def symbols : Phrase → List Char
  | .operand _ => []
  | .product _ | .factors .. => ['*', '/']
  | .sum _ | .terms .. => ['*', '/', '-']
  | .arguments _ => ['*', '/', '-', ',']

/-- Phrases of one kind, with the same beginning. -/
def Alike : Phrase → Phrase → Prop
  | .operand _, .operand _ => True
  | .product _, .product _ => True
  | .factors a _, .factors b _ => a = b
  | .sum _, .sum _ => True
  | .terms a _, .terms b _ => a = b
  | .arguments _, .arguments _ => True
  | _, _ => False

def begins : Phrase → Bool
  | .factors .. => false
  | .terms .. => false
  | _ => true

end Phrase

/-! ### Beginnings -/

def operandKind (c : Char) : Nat :=
  if Text.isDigit c then 0 else if c = '#' then 1 else if c = '(' then 2 else 3

/-- The text begins with a visible character that tells the kind of operand. -/
def Opens (kind : Nat) (text : Text) : Prop :=
  ∃ c rest, text = c :: rest ∧ Text.isBlank c = false ∧ operandKind c = kind

theorem Opens.append {kind : Nat} {text : Text} (h : Opens kind text) (rest : Text) :
    Opens kind (text ++ rest) := by
  obtain ⟨c, more, rfl, facts⟩ := h
  exact ⟨c, more ++ rest, rfl, facts⟩

theorem Opens.stops {kind : Nat} {text : Text} (h : Opens kind text) : Stops Text.isBlank text := by
  obtain ⟨c, more, rfl, visible, -⟩ := h
  exact Text.stops_cons.2 visible

theorem Opens.unique {kind kind' : Nat} {text text' rest rest' : Text} (h : Opens kind text)
    (h' : Opens kind' text') (same : text ++ rest = text' ++ rest') : kind = kind' := by
  obtain ⟨c, more, rfl, -, rfl⟩ := h
  obtain ⟨c', more', rfl, -, rfl⟩ := h'
  rw [(List.cons.inj same).1]

theorem Opens.agree {kind kind' : Nat} {text : Text} (h : Opens kind text) (h' : Opens kind' text) :
    kind = kind' := by
  have same : text ++ [] = text ++ [] := rfl
  exact h.unique h' same

theorem opens_number {n : Numeral} (h : n.WellFormed) : Opens 0 n.text := by
  obtain ⟨c, rest, same⟩ := List.exists_cons_of_ne_nil h.whole.1
  have digit : Text.isDigit c = true := h.whole.2 c (by simp [same])
  have first : ∃ more, n.text = c :: more := by
    unfold Numeral.text
    split
    · exact ⟨rest, same⟩
    · exact ⟨rest ++ '.' :: n.fraction, by rw [same]; rfl⟩
  obtain ⟨more, split⟩ := first
  exact ⟨c, more, split, Text.not_isBlank_of_isDigit digit, by simp [operandKind, digit]⟩

theorem opens_variable (text : Text) : Opens 1 ('#' :: text) :=
  ⟨'#', text, rfl, by decide, by decide⟩

theorem opens_group (text : Text) : Opens 2 ('(' :: text) :=
  ⟨'(', text, rfl, by decide, by decide⟩

variable {functionPrefix : Text}

theorem opens_functionName (hp : IsPrefix functionPrefix) (function : Extremum) :
    Opens 3 (Formula.functionName functionPrefix function) := by
  cases functionPrefix with
  | nil => cases function <;> exact ⟨'m', _, rfl, by decide, by decide⟩
  | cons c rest =>
    have facts := Text.stops_cons.1 hp
    simp only [opensOperand, Bool.or_eq_false_iff, beq_eq_false_iff_ne] at facts
    obtain ⟨⟨⟨digit, hash⟩, paren⟩, visible⟩ := facts
    exact ⟨c, _, rfl, visible, by simp [operandKind, digit, hash, paren]⟩

theorem Writes.opens {p : Phrase} {text : Text} (hp : IsPrefix functionPrefix)
    (h : Writes functionPrefix p text) (begins : p.begins = true) : ∃ kind, Opens kind text := by
  induction h with
  | number wf => exact ⟨0, opens_number wf⟩
  | «variable» wf => exact ⟨1, opens_variable _⟩
  | group => exact ⟨2, opens_group _⟩
  | call function => exact ⟨3, (opens_functionName hp function).append _⟩
  | product _ _ ih _ =>
    obtain ⟨kind, opens⟩ := ih rfl
    exact ⟨kind, opens.append _⟩
  | sum _ _ ih _ =>
    obtain ⟨kind, opens⟩ := ih rfl
    exact ⟨kind, opens.append _⟩
  | one _ ih => exact ih rfl
  | more _ _ _ _ ih _ =>
    obtain ⟨kind, opens⟩ := ih rfl
    exact ⟨kind, opens.append _⟩
  | noFactor | factor | noTerm | minus => cases begins

/-! What an operand is, from its beginning. -/

section

variable {e : Expression} {text : Text}

theorem Writes.number_of_opens (hp : IsPrefix functionPrefix)
    (h : Writes functionPrefix (.operand e) text) (opens : Opens 0 text) :
    ∃ n : Numeral, n.WellFormed ∧ e = .number n ∧ text = n.text := by
  cases h with
  | number wf => exact ⟨_, wf, rfl, rfl⟩
  | «variable» => cases opens.agree (opens_variable _)
  | group => cases opens.agree (opens_group _)
  | call f => cases opens.agree ((opens_functionName hp f).append _)

theorem Writes.variable_of_opens (hp : IsPrefix functionPrefix)
    (h : Writes functionPrefix (.operand e) text) (opens : Opens 1 text) :
    ∃ r : Reference, r.WellFormed ∧ e = .variable r ∧ text = '#' :: r.text := by
  cases h with
  | number wf => cases opens.agree (opens_number wf)
  | «variable» wf => exact ⟨_, wf, rfl, rfl⟩
  | group => cases opens.agree (opens_group _)
  | call f => cases opens.agree ((opens_functionName hp f).append _)

theorem Writes.group_of_opens (hp : IsPrefix functionPrefix)
    (h : Writes functionPrefix (.operand e) text) (opens : Opens 2 text) :
    ∃ left inner right, Blank left ∧ Blank right ∧ Writes functionPrefix (.sum e) inner ∧
      text = '(' :: (left ++ (inner ++ (right ++ [')']))) := by
  cases h with
  | number wf => cases opens.agree (opens_number wf)
  | «variable» => cases opens.agree (opens_variable _)
  | group blank_left blank_right inner => exact ⟨_, _, _, blank_left, blank_right, inner, rfl⟩
  | call f => cases opens.agree ((opens_functionName hp f).append _)

theorem Writes.call_of_opens (h : Writes functionPrefix (.operand e) text) (opens : Opens 3 text) :
    ∃ function es left inner right, Blank left ∧ Blank right ∧
      Writes functionPrefix (.arguments es) inner ∧ e = .call function es ∧
      text = Formula.functionName functionPrefix function ++
        '(' :: (left ++ (inner ++ (right ++ [')']))) := by
  cases h with
  | number wf => cases opens.agree (opens_number wf)
  | «variable» => cases opens.agree (opens_variable _)
  | group => cases opens.agree (opens_group _)
  | call f blank_left blank_right inner =>
    exact ⟨f, _, _, _, _, blank_left, blank_right, inner, rfl, rfl⟩

/-- Operands at the beginning of one text begin alike. -/
theorem Writes.opens_alike (hp : IsPrefix functionPrefix)
    (h : Writes functionPrefix (.operand e) text) {kind : Nat} {text' rest rest' : Text}
    (opens : Opens kind text') (same : text' ++ rest' = text ++ rest) : Opens kind text := by
  obtain ⟨kind', opens'⟩ := h.opens hp rfl
  rwa [opens.unique opens' same]

end

/-! ### Continuations -/

theorem Follows.mono {symbols more : List Char} {rest : Text} (h : Follows more rest)
    (sub : ∀ c ∈ symbols, c ∈ more) : Follows symbols rest := by
  refine ⟨h.token, fun c hc => ?_⟩
  have outside := h.symbol c hc
  rw [← Bool.not_eq_true, List.contains_iff_mem] at outside ⊢
  exact fun inside => outside (sub c inside)

theorem follows_mark {symbols : List Char} {gap rest : Text} {c : Char} (blank : Blank gap)
    (token : continuesReference c = false) (visible : Text.isBlank c = false)
    (outside : symbols.contains c = false) : Follows symbols (gap ++ c :: rest) where
  token := blank.stops_append (fun _ => not_continuesReference_of_isBlank) (Text.stops_cons.2 token)
  symbol := by
    rw [Text.trimStart_append blank, Text.trimStart_of_stops (Text.stops_cons.2 visible)]
    exact Text.stops_cons.2 outside

theorem follows_gap {gap : Text} (blank : Blank gap) (symbols : List Char) :
    Follows symbols gap := by
  have invisible : Text.trimStart (gap ++ []) = [] := Text.trimStart_append blank []
  rw [List.append_nil] at invisible
  refine ⟨fun c hc => ?_, ?_⟩
  · exact not_continuesReference_of_isBlank (blank c (List.mem_of_mem_head? hc))
  · rw [invisible]
    exact Text.stops_nil _

theorem Follows.ne_mark {symbols : List Char} {rest : Text} (h : Follows symbols rest)
    {gap more : Text} {c : Char} (blank : Blank gap) (visible : Text.isBlank c = false)
    (inside : symbols.contains c = true) : rest ≠ gap ++ c :: more := by
  rintro rfl
  have stop := h.symbol
  rw [Text.trimStart_append blank, Text.trimStart_of_stops (Text.stops_cons.2 visible),
    Text.stops_cons, inside] at stop
  cases stop

theorem Sign.plain (sign : Sign) :
    continuesReference sign.symbol = false ∧ Text.isBlank sign.symbol = false := by
  cases sign <;> decide

theorem Writes.follows_factors {a e : Expression} {more rest : Text}
    (h : Writes functionPrefix (.factors a e) more) (stop : Follows ['*', '/'] rest) :
    Follows [] (more ++ rest) := by
  cases h with
  | noFactor => exact stop.mono nofun
  | factor sign blank =>
    rw [List.append_assoc]
    exact follows_mark blank sign.plain.1 sign.plain.2 rfl

theorem Writes.follows_terms {a e : Expression} {more rest : Text}
    (h : Writes functionPrefix (.terms a e) more) (stop : Follows ['*', '/', '-'] rest) :
    Follows ['*', '/'] (more ++ rest) := by
  cases h with
  | noTerm => exact stop.mono (by decide)
  | minus blank =>
    rw [List.append_assoc]
    exact follows_mark blank (by decide) (by decide) rfl

namespace Phrase

variable {p : Phrase}

theorem Alike.operand {e : Expression} (h : (Phrase.operand e).Alike p) :
    ∃ e', p = .operand e' := by
  cases p <;> first | exact ⟨_, rfl⟩ | exact h.elim

theorem Alike.product {e : Expression} (h : (Phrase.product e).Alike p) :
    ∃ e', p = .product e' := by
  cases p <;> first | exact ⟨_, rfl⟩ | exact h.elim

theorem Alike.factors {a e : Expression} (h : (Phrase.factors a e).Alike p) :
    ∃ e', p = .factors a e' := by
  cases p with
  | factors => exact ⟨_, congrArg (Phrase.factors · _) (Eq.symm h)⟩
  | _ => exact h.elim

theorem Alike.sum {e : Expression} (h : (Phrase.sum e).Alike p) : ∃ e', p = .sum e' := by
  cases p <;> first | exact ⟨_, rfl⟩ | exact h.elim

theorem Alike.terms {a e : Expression} (h : (Phrase.terms a e).Alike p) :
    ∃ e', p = .terms a e' := by
  cases p with
  | terms => exact ⟨_, congrArg (Phrase.terms · _) (Eq.symm h)⟩
  | _ => exact h.elim

theorem Alike.arguments {es : List Expression} (h : (Phrase.arguments es).Alike p) :
    ∃ es', p = .arguments es' := by
  cases p <;> first | exact ⟨_, rfl⟩ | exact h.elim

end Phrase

/-- Enclosed text between the same brackets: the phrase inside, and what follows the bracket. -/
theorem unique_enclosed {left left' text text' right right' rest rest' : Text}
    (blank_left : Blank left) (blank_left' : Blank left') (blank_right : Blank right)
    (blank_right' : Blank right') (visible : ∃ kind, Opens kind text)
    (visible' : ∃ kind, Opens kind text') {p p' : Phrase}
    (ih : ∀ {rest rest'}, text ++ rest = text' ++ rest' → Follows p.symbols rest →
      Follows p'.symbols rest' → p = p' ∧ text = text' ∧ rest = rest')
    (outside : p.symbols.contains ')' = false) (outside' : p'.symbols.contains ')' = false)
    (same : left ++ (text ++ (right ++ [')'])) ++ rest =
      left' ++ (text' ++ (right' ++ [')'])) ++ rest') :
    p = p' ∧ left = left' ∧ text = text' ∧ right = right' ∧ rest = rest' := by
  obtain ⟨kind, opens⟩ := visible
  obtain ⟨kind', opens'⟩ := visible'
  simp only [List.append_assoc, List.singleton_append] at same
  obtain ⟨rfl, inner⟩ := Text.gap_unique blank_left blank_left' (opens.append _).stops
    (opens'.append _).stops same
  obtain ⟨same_phrase, rfl, more⟩ := ih inner
    (follows_mark blank_right (by decide) (by decide) outside)
    (follows_mark blank_right' (by decide) (by decide) outside')
  obtain ⟨rfl, tail⟩ := Text.gap_unique blank_right blank_right'
    (Text.stops_cons.2 (by decide)) (Text.stops_cons.2 (by decide)) more
  exact ⟨same_phrase, rfl, rfl, rfl, (List.cons.inj tail).2⟩

/-- A symbol with blanks around it, and the phrase behind it. -/
theorem unique_infix {left left' right right' text text' rest rest' : Text} {c c' : Char}
    (blank_left : Blank left) (blank_left' : Blank left') (blank_right : Blank right)
    (blank_right' : Blank right') (visible : ∃ kind, Opens kind text)
    (visible' : ∃ kind, Opens kind text') (hc : Text.isBlank c = false)
    (hc' : Text.isBlank c' = false)
    (same : left ++ (c :: (right ++ (text ++ rest))) =
      left' ++ (c' :: (right' ++ (text' ++ rest')))) :
    left = left' ∧ c = c' ∧ right = right' ∧ text ++ rest = text' ++ rest' := by
  obtain ⟨kind, opens⟩ := visible
  obtain ⟨kind', opens'⟩ := visible'
  obtain ⟨rfl, tail⟩ := Text.gap_unique blank_left blank_left' (Text.stops_cons.2 hc)
    (Text.stops_cons.2 hc') same
  obtain ⟨rfl, behind⟩ := List.cons.inj tail
  obtain ⟨rfl, phrase⟩ := Text.gap_unique blank_right blank_right' (opens.append _).stops
    (opens'.append _).stops behind
  exact ⟨rfl, rfl, rfl, phrase⟩

theorem Sign.isSymbol (sign : Sign) : ['*', '/'].contains sign.symbol = true := by
  cases sign <;> decide

theorem Sign.symbol_injective {sign sign' : Sign} (h : sign.symbol = sign'.symbol) :
    sign = sign' := by
  cases sign <;> cases sign' <;> first | rfl | exact absurd h (by decide)

theorem functionName_injective {f f' : Extremum} {rest rest' : Text}
    (h : Formula.functionName functionPrefix f ++ rest =
      Formula.functionName functionPrefix f' ++ rest') : f = f' ∧ rest = rest' := by
  simp only [Formula.functionName, List.append_assoc] at h
  have behind := List.append_cancel_left h
  cases f <;> cases f' <;> simp [Extremum.name] at behind ⊢
  · exact behind
  · exact behind

theorem sum_symbols : ∀ c ∈ ['*', '/', '-'], c ∈ ['*', '/', '-', ','] := by decide

/-- The grammar is unambiguous: phrases of one kind at the beginning of a text are the same if
what follows them goes on with neither. -/
theorem Writes.unique (hp : IsPrefix functionPrefix) {p p' : Phrase} {text text' rest rest' : Text}
    (h : Writes functionPrefix p text) (h' : Writes functionPrefix p' text') (alike : p.Alike p')
    (same : text ++ rest = text' ++ rest') (stop : Follows p.symbols rest)
    (stop' : Follows p'.symbols rest') : p = p' ∧ text = text' ∧ rest = rest' := by
  -- the beginning tells how the other text is written; then the parts agree from left to right,
  -- because what follows a part is either the next part or the rest
  induction h generalizing p' text' rest rest' with
  | @number n wf =>
    obtain ⟨e', rfl⟩ := alike.operand
    obtain ⟨n', wf', rfl, rfl⟩ :=
      h'.number_of_opens hp (h'.opens_alike hp (opens_number wf) same)
    have digits : ∀ c, continuesReference c = false → continuesNumber c = false :=
      fun _ => not_continuesNumber_of_not_continuesReference
    have found := Numeral.read_append wf (stop.token.mono digits)
    rw [same, Numeral.read_append wf' (stop'.token.mono digits)] at found
    obtain ⟨rfl, rfl⟩ := Prod.mk.inj (Option.some.inj found)
    exact ⟨rfl, rfl, rfl⟩
  | @«variable» r wf =>
    obtain ⟨e', rfl⟩ := alike.operand
    obtain ⟨r', wf', rfl, rfl⟩ :=
      h'.variable_of_opens hp (h'.opens_alike hp (opens_variable _) same)
    have found := Reference.read_append wf stop.token
    rw [show r.text ++ rest = r'.text ++ rest' from (List.cons.inj same).2,
      Reference.read_append wf' stop'.token] at found
    obtain ⟨rfl, rfl⟩ := Prod.mk.inj (Option.some.inj found)
    exact ⟨rfl, rfl, rfl⟩
  | group blank_left blank_right inner ih =>
    obtain ⟨e', rfl⟩ := alike.operand
    obtain ⟨left', inner', right', blank_left', blank_right', writes', rfl⟩ :=
      h'.group_of_opens hp (h'.opens_alike hp (opens_group _) same)
    obtain ⟨same_sum, rfl, rfl, rfl, rfl⟩ := unique_enclosed blank_left blank_left' blank_right
      blank_right' (inner.opens hp rfl) (writes'.opens hp rfl) (fun same => ih writes' trivial same)
      rfl rfl (List.cons.inj same).2
    cases same_sum
    exact ⟨rfl, rfl, rfl⟩
  | call f blank_left blank_right inner ih =>
    obtain ⟨e', rfl⟩ := alike.operand
    obtain ⟨f', es', left', inner', right', blank_left', blank_right', writes', rfl, rfl⟩ :=
      h'.call_of_opens (h'.opens_alike hp ((opens_functionName hp f).append _) same)
    rw [List.append_assoc, List.append_assoc] at same
    obtain ⟨rfl, behind⟩ := functionName_injective same
    obtain ⟨same_arguments, rfl, rfl, rfl, rfl⟩ := unique_enclosed blank_left blank_left'
      blank_right blank_right' (inner.opens hp rfl) (writes'.opens hp rfl)
      (fun same => ih writes' trivial same) rfl rfl (List.cons.inj behind).2
    cases same_arguments
    exact ⟨rfl, rfl, rfl⟩
  | product first others ih ih' =>
    obtain ⟨e', rfl⟩ := alike.product
    cases h' with
    | product first' others' =>
      rw [List.append_assoc, List.append_assoc] at same
      obtain ⟨same_operand, rfl, same'⟩ := ih first' trivial same (others.follows_factors stop)
        (others'.follows_factors stop')
      cases same_operand
      obtain ⟨same_factors, rfl, rfl⟩ := ih' others' rfl same' stop stop'
      cases same_factors
      exact ⟨rfl, rfl, rfl⟩
  | noFactor =>
    obtain ⟨e', rfl⟩ := alike.factors
    cases h' with
    | noFactor => exact ⟨rfl, rfl, same⟩
    | factor sign blank =>
      rw [List.append_assoc] at same
      exact absurd same (stop.ne_mark blank sign.plain.2 sign.isSymbol)
  | factor sign blank_left blank_right factor others ih ih' =>
    obtain ⟨e', rfl⟩ := alike.factors
    cases h' with
    | noFactor =>
      rw [List.append_assoc] at same
      exact absurd same.symm (stop'.ne_mark blank_left sign.plain.2 sign.isSymbol)
    | factor sign' blank_left' blank_right' factor' others' =>
      simp only [List.append_assoc, List.cons_append] at same
      obtain ⟨rfl, symbol, rfl, behind⟩ := unique_infix blank_left blank_left' blank_right
        blank_right' (factor.opens hp rfl) (factor'.opens hp rfl) sign.plain.2 sign'.plain.2 same
      obtain rfl := Sign.symbol_injective symbol
      obtain ⟨same_operand, rfl, behind'⟩ := ih factor' trivial behind (others.follows_factors stop)
        (others'.follows_factors stop')
      cases same_operand
      obtain ⟨same_factors, rfl, rfl⟩ := ih' others' rfl behind' stop stop'
      cases same_factors
      exact ⟨rfl, rfl, rfl⟩
  | sum first others ih ih' =>
    obtain ⟨e', rfl⟩ := alike.sum
    cases h' with
    | sum first' others' =>
      rw [List.append_assoc, List.append_assoc] at same
      obtain ⟨same_product, rfl, same'⟩ := ih first' trivial same (others.follows_terms stop)
        (others'.follows_terms stop')
      cases same_product
      obtain ⟨same_terms, rfl, rfl⟩ := ih' others' rfl same' stop stop'
      cases same_terms
      exact ⟨rfl, rfl, rfl⟩
  | noTerm =>
    obtain ⟨e', rfl⟩ := alike.terms
    cases h' with
    | noTerm => exact ⟨rfl, rfl, same⟩
    | minus blank =>
      rw [List.append_assoc] at same
      exact absurd same (stop.ne_mark blank (by decide) rfl)
  | minus blank_left blank_right term others ih ih' =>
    obtain ⟨e', rfl⟩ := alike.terms
    cases h' with
    | noTerm =>
      rw [List.append_assoc] at same
      exact absurd same.symm (stop'.ne_mark blank_left (by decide) rfl)
    | minus blank_left' blank_right' term' others' =>
      simp only [List.append_assoc, List.cons_append] at same
      obtain ⟨rfl, -, rfl, behind⟩ := unique_infix blank_left blank_left' blank_right blank_right'
        (term.opens hp rfl) (term'.opens hp rfl) (by decide) (by decide) same
      obtain ⟨same_product, rfl, behind'⟩ := ih term' trivial behind (others.follows_terms stop)
        (others'.follows_terms stop')
      cases same_product
      obtain ⟨same_terms, rfl, rfl⟩ := ih' others' rfl behind' stop stop'
      cases same_terms
      exact ⟨rfl, rfl, rfl⟩
  | one argument ih =>
    obtain ⟨es', rfl⟩ := alike.arguments
    cases h' with
    | one argument' =>
      obtain ⟨same_sum, rfl, rfl⟩ := ih argument' trivial same (stop.mono sum_symbols)
        (stop'.mono sum_symbols)
      cases same_sum
      exact ⟨rfl, rfl, rfl⟩
    | more blank blank' argument' others' =>
      simp only [List.append_assoc, List.cons_append] at same
      obtain ⟨-, -, behind⟩ := ih argument' trivial same (stop.mono sum_symbols)
        (follows_mark blank (by decide) (by decide) rfl)
      exact absurd behind (stop.ne_mark blank (by decide) rfl)
  | more blank_left blank_right argument others ih ih' =>
    obtain ⟨es', rfl⟩ := alike.arguments
    cases h' with
    | one argument' =>
      simp only [List.append_assoc, List.cons_append] at same
      obtain ⟨-, -, behind⟩ := ih argument' trivial same
        (follows_mark blank_left (by decide) (by decide) rfl) (stop'.mono sum_symbols)
      exact absurd behind.symm (stop'.ne_mark blank_left (by decide) rfl)
    | more blank_left' blank_right' argument' others' =>
      simp only [List.append_assoc, List.cons_append] at same
      obtain ⟨same_sum, rfl, behind⟩ := ih argument' trivial same
        (follows_mark blank_left (by decide) (by decide) rfl)
        (follows_mark blank_left' (by decide) (by decide) rfl)
      cases same_sum
      obtain ⟨rfl, -, rfl, behind'⟩ := unique_infix blank_left blank_left' blank_right blank_right'
        (others.opens hp rfl) (others'.opens hp rfl) (by decide) (by decide) behind
      obtain ⟨same_arguments, rfl, rfl⟩ := ih' others' trivial behind' stop stop'
      cases same_arguments
      exact ⟨rfl, rfl, rfl⟩

theorem IsReading.unique (hp : IsPrefix functionPrefix) {e e' : Expression} {text : Text}
    (h : IsReading functionPrefix e text) (h' : IsReading functionPrefix e' text) : e = e' := by
  obtain ⟨lead, body, trailing, blank_lead, blank_trailing, writes, rfl⟩ := h
  obtain ⟨lead', body', trailing', blank_lead', blank_trailing', writes', same⟩ := h'
  obtain ⟨kind, opens⟩ := writes.opens hp rfl
  obtain ⟨kind', opens'⟩ := writes'.opens hp rfl
  obtain ⟨rfl, inner⟩ := Text.gap_unique blank_lead blank_lead' (opens.append _).stops
    (opens'.append _).stops same
  obtain ⟨same_sum, -, -⟩ := writes.unique hp writes' trivial inner
    (follows_gap blank_trailing _) (follows_gap blank_trailing' _)
  exact Phrase.sum.inj same_sum

theorem not_isReading_nil (hp : IsPrefix functionPrefix) (e : Expression) :
    ¬IsReading functionPrefix e [] := by
  rintro ⟨lead, body, trailing, -, -, writes, same⟩
  obtain ⟨-, rest⟩ := List.append_eq_nil_iff.1 same.symm
  obtain ⟨kind, c, more, nonempty, -⟩ := writes.opens hp rfl
  rw [nonempty] at rest
  cases rest

end Expression

end ProgressRules
