import ProgressRules.Document.Yaml
import ProgressRules.Proofs.Document.Mappings

/-! Mappings in the YAML that is read. They have distinct keys, however deep they lie. -/

namespace ProgressRules

namespace Yaml

open Data (HasDistinctKeys)

def Finds {σ α : Type} (reader : σ → Option (α × σ)) (p : α → Prop) : Prop :=
  ∀ start a rest, reader start = some (a, rest) → p a

theorem finds_of_none {σ α : Type} {reader : σ → Option (α × σ)} {p : α → Prop}
    (fails : ∀ start, reader start = none) : Finds reader p := by
  intro start a rest found
  rw [fails] at found
  cases found

def ItemsDistinct (items : List Data) : Prop := ∀ item ∈ items, item.HasDistinctKeys

def EntriesDistinct (entries : List (Key × Data)) : Prop := ∀ e ∈ entries, e.2.HasDistinctKeys

theorem hasDistinctKeys_resolve {text : Text} {d : Data} (found : resolve? text = some d) :
    d.HasDistinctKeys := by
  unfold resolve? at found
  split at found
  · cases found
  split at found
  · cases found
    exact .null
  split at found
  · cases found
    exact .bool true
  split at found
  · cases found
    exact .bool false
  split at found
  all_goals cases found
  · exact .integer _
  · exact .real _
  · exact .text _

/-! ### Collections in brackets -/

theorem readFlowScalar_finds : Finds readFlowScalar HasDistinctKeys := by
  intro text d rest found
  unfold readFlowScalar at found
  split at found
  · cases found
    exact .text _
  · obtain ⟨⟨t, after⟩, -, found⟩ := Option.bind_eq_some_iff.1 found
    obtain ⟨value, resolved, same⟩ := Option.bind_eq_some_iff.1 found
    cases same
    exact hasDistinctKeys_resolve resolved

theorem readFlow_finds {fuel : Nat} (items : Finds (readFlowItems fuel) ItemsDistinct)
    (entries : Finds (readFlowEntries fuel) EntriesDistinct) :
    Finds (readFlow (fuel + 1)) HasDistinctKeys := by
  intro text d rest found
  rw [readFlow.eq_def] at found
  simp only at found
  split at found
  · obtain ⟨⟨ds, after⟩, inner, same⟩ := Option.map_eq_some_iff.1 found
    cases same
    exact .list (items _ ds after inner)
  · obtain ⟨⟨es, after⟩, inner, same⟩ := Option.map_eq_some_iff.1 found
    cases same
    exact Data.hasDistinctKeys_ofEntries (entries _ es after inner)
  · exact readFlowScalar_finds _ d rest found

theorem readFlowItems_finds {fuel : Nat} (value : Finds (readFlow fuel) HasDistinctKeys)
    (more : Finds (readFlowItems fuel) ItemsDistinct) :
    Finds (readFlowItems (fuel + 1)) ItemsDistinct := by
  intro text items rest found
  rw [readFlowItems.eq_def] at found
  simp only at found
  split at found
  · cases found
    exact fun _ => nofun
  · obtain ⟨⟨item, afterItem⟩, first, found⟩ := Option.bind_eq_some_iff.1 found
    have distinct := value _ item afterItem first
    simp only at found
    split at found
    · cases found
      exact List.forall_mem_singleton.2 distinct
    · obtain ⟨⟨others, after⟩, inner, same⟩ := Option.bind_eq_some_iff.1 found
      cases same
      exact List.forall_mem_cons.2 ⟨distinct, more _ others after inner⟩
    · cases found

theorem readFlowEntries_finds {fuel : Nat} (value : Finds (readFlow fuel) HasDistinctKeys)
    (more : Finds (readFlowEntries fuel) EntriesDistinct) :
    Finds (readFlowEntries (fuel + 1)) EntriesDistinct := by
  intro text entries rest found
  rw [readFlowEntries.eq_def] at found
  simp only at found
  split at found
  · cases found
    exact fun _ => nofun
  · obtain ⟨⟨key, afterKey⟩, -, found⟩ := Option.bind_eq_some_iff.1 found
    simp only at found
    -- a value is missing in three ways, and what follows it is read in one way
    split at found
    on_goal 1 => split at found
    all_goals
      obtain ⟨⟨d, afterValue⟩, first, found⟩ := Option.bind_eq_some_iff.1 found
      have distinct : d.HasDistinctKeys := by
        first
        | cases first; exact .null
        | exact value _ d afterValue first
      simp only at found
      split at found
      · cases found
        exact List.forall_mem_singleton.2 distinct
      · obtain ⟨⟨others, after⟩, inner, same⟩ := Option.bind_eq_some_iff.1 found
        cases same
        exact List.forall_mem_cons.2 ⟨distinct, more _ others after inner⟩
      · cases found

theorem flow_finds (fuel : Nat) : Finds (readFlow fuel) HasDistinctKeys ∧
    Finds (readFlowItems fuel) ItemsDistinct ∧ Finds (readFlowEntries fuel) EntriesDistinct := by
  induction fuel with
  | zero =>
    exact ⟨finds_of_none fun _ => rfl, finds_of_none fun _ => rfl, finds_of_none fun _ => rfl⟩
  | succ fuel ih =>
    obtain ⟨value, items, entries⟩ := ih
    exact ⟨readFlow_finds items entries, readFlowItems_finds value items,
      readFlowEntries_finds value entries⟩

theorem readFlowFrom_finds : Finds readFlowFrom HasDistinctKeys := by
  intro text d rest found
  exact (flow_finds _).1 text d rest found

/-! ### Blocks -/

theorem hasDistinctKeys_readInline {content : Text} {d : Data}
    (found : readInline content = some d) : d.HasDistinctKeys := by
  unfold readInline at found
  split at found
  case h_1 | h_2 =>
    split at found
    · rename_i value rest read
      split at found
      · cases found
        exact readFlowFrom_finds _ d rest read
      · cases found
    · cases found
  case h_3 =>
    split at found
    · split at found
      · cases found
        exact .text _
      · cases found
    · split at found
      · exact hasDistinctKeys_resolve found
      · exact hasDistinctKeys_resolve found
      · cases found

theorem readNode_finds {fuel : Nat} (items : ∀ indent, Finds (readItems fuel indent) ItemsDistinct)
    (entries : ∀ indent, Finds (readEntries fuel indent) EntriesDistinct) :
    Finds (readNode (fuel + 1)) HasDistinctKeys := by
  intro lines d rest found
  rw [readNode.eq_def] at found
  cases lines with
  | nil =>
    cases found
    exact .null
  | cons line lines =>
    simp only at found
    split at found
    · obtain ⟨⟨ds, after⟩, inner, same⟩ := Option.map_eq_some_iff.1 found
      cases same
      exact .list (items _ _ ds _ inner)
    · split at found
      · obtain ⟨⟨es, after⟩, inner, same⟩ := Option.map_eq_some_iff.1 found
        cases same
        exact Data.hasDistinctKeys_ofEntries (entries _ _ es _ inner)
      · obtain ⟨value, inner, same⟩ := Option.map_eq_some_iff.1 found
        cases same
        exact hasDistinctKeys_readInline inner

theorem readItems_finds {fuel : Nat} (node : Finds (readNode fuel) HasDistinctKeys)
    (nested : ∀ indent, Finds (readNested fuel indent) HasDistinctKeys)
    (more : ∀ indent, Finds (readItems fuel indent) ItemsDistinct) (indent : Nat) :
    Finds (readItems (fuel + 1) indent) ItemsDistinct := by
  intro lines items rest found
  rw [readItems.eq_def] at found
  cases lines with
  | nil =>
    cases found
    exact fun _ => nofun
  | cons line lines =>
    simp only at found
    split at found
    · cases found
      exact fun _ => nofun
    split at found
    · cases found
    split at found
    · cases found
      exact fun _ => nofun
    · have behind : ∀ item after, item.HasDistinctKeys →
          ((readItems fuel indent after).bind fun others =>
            some (item :: others.1, others.2)) = some (items, rest) → ItemsDistinct items := by
        intro item after distinct found
        obtain ⟨⟨others, left⟩, inner, same⟩ := Option.bind_eq_some_iff.1 found
        cases same
        exact List.forall_mem_cons.2 ⟨distinct, more _ _ others _ inner⟩
      split at found
      · obtain ⟨⟨item, after⟩, first, found⟩ := Option.bind_eq_some_iff.1 found
        exact behind item after (nested _ _ item after first) found
      · obtain ⟨⟨item, after⟩, first, found⟩ := Option.bind_eq_some_iff.1 found
        exact behind item after (node _ item after first) found

theorem readEntries_finds {fuel : Nat}
    (below : ∀ indent, Finds (readEntryValue fuel indent) HasDistinctKeys)
    (more : ∀ indent, Finds (readEntries fuel indent) EntriesDistinct) (indent : Nat) :
    Finds (readEntries (fuel + 1) indent) EntriesDistinct := by
  intro lines entries rest found
  rw [readEntries.eq_def] at found
  cases lines with
  | nil =>
    cases found
    exact fun _ => nofun
  | cons line lines =>
    simp only at found
    split at found
    · cases found
      exact fun _ => nofun
    split at found
    · cases found
    · obtain ⟨⟨key, afterKey⟩, -, found⟩ := Option.bind_eq_some_iff.1 found
      have behind : ∀ d after, d.HasDistinctKeys →
          ((readEntries fuel indent after).bind fun others =>
            some ((key, d) :: others.1, others.2)) = some (entries, rest) →
              EntriesDistinct entries := by
        intro d after distinct found
        obtain ⟨⟨others, left⟩, inner, same⟩ := Option.bind_eq_some_iff.1 found
        cases same
        exact List.forall_mem_cons.2 ⟨distinct, more _ _ others _ inner⟩
      simp only at found
      split at found
      · obtain ⟨⟨d, after⟩, first, found⟩ := Option.bind_eq_some_iff.1 found
        exact behind d after (below _ _ d after first) found
      · obtain ⟨⟨d, after⟩, first, found⟩ := Option.bind_eq_some_iff.1 found
        obtain ⟨value, inner, same⟩ := Option.map_eq_some_iff.1 first
        cases same
        exact behind d _ (hasDistinctKeys_readInline inner) found

theorem readNested_finds {fuel : Nat} (node : Finds (readNode fuel) HasDistinctKeys)
    (indent : Nat) : Finds (readNested (fuel + 1) indent) HasDistinctKeys := by
  intro lines d rest found
  rw [readNested.eq_def] at found
  cases lines with
  | nil =>
    cases found
    exact .null
  | cons line lines =>
    simp only at found
    split at found
    · exact node _ d rest found
    · cases found
      exact .null

theorem readEntryValue_finds {fuel : Nat}
    (items : ∀ indent, Finds (readItems fuel indent) ItemsDistinct)
    (nested : ∀ indent, Finds (readNested fuel indent) HasDistinctKeys) (indent : Nat) :
    Finds (readEntryValue (fuel + 1) indent) HasDistinctKeys := by
  intro lines d rest found
  rw [readEntryValue.eq_def] at found
  cases lines with
  | nil =>
    cases found
    exact .null
  | cons line lines =>
    simp only at found
    split at found
    · obtain ⟨⟨ds, after⟩, inner, same⟩ := Option.map_eq_some_iff.1 found
      cases same
      exact .list (items _ _ ds _ inner)
    · exact nested _ _ d rest found

structure BlocksDistinct (fuel : Nat) : Prop where
  node : Finds (readNode fuel) HasDistinctKeys
  items : ∀ indent, Finds (readItems fuel indent) ItemsDistinct
  entries : ∀ indent, Finds (readEntries fuel indent) EntriesDistinct
  nested : ∀ indent, Finds (readNested fuel indent) HasDistinctKeys
  entryValue : ∀ indent, Finds (readEntryValue fuel indent) HasDistinctKeys

theorem blocksDistinct (fuel : Nat) : BlocksDistinct fuel := by
  induction fuel with
  | zero =>
    constructor
    · exact finds_of_none fun _ => by rw [readNode.eq_def]
    · exact fun _ => finds_of_none fun _ => by rw [readItems.eq_def]
    · exact fun _ => finds_of_none fun _ => by rw [readEntries.eq_def]
    · exact fun _ => finds_of_none fun _ => by rw [readNested.eq_def]
    · exact fun _ => finds_of_none fun _ => by rw [readEntryValue.eq_def]
  | succ fuel ih =>
    constructor
    · exact readNode_finds ih.items ih.entries
    · exact readItems_finds ih.node ih.nested ih.items
    · exact readEntries_finds ih.entryValue ih.entries
    · exact readNested_finds ih.node
    · exact readEntryValue_finds ih.items ih.nested

/-! ### Documents -/

theorem hasDistinctKeys_readDocument {text : Text} {d : Data}
    (found : readDocument text = some d) : d.HasDistinctKeys := by
  have inBrackets : ∀ t, readDocument.flowDocument t = some d → d.HasDistinctKeys := by
    intro t found
    unfold readDocument.flowDocument at found
    split at found
    · rename_i value rest read
      split at found
      · cases found
        exact readFlowFrom_finds t d rest read
      · cases found
    · cases found
  unfold readDocument at found
  split at found
  · exact inBrackets _ found
  · exact inBrackets _ found
  · obtain ⟨lines, -, found⟩ := Option.bind_eq_some_iff.1 found
    split at found
    · rename_i value read
      cases found
      exact (blocksDistinct _).node _ d [] read
    · cases found

theorem hasDistinctKeys_of_read {text : Text} {d : Data} (found : read text = .ok d) :
    d.HasDistinctKeys := by
  unfold read at found
  split at found
  · cases document : readDocument (dropByteOrderMark text) with
    | none =>
      rw [document] at found
      cases found
    | some value =>
      rw [document] at found
      have kept : (if Text.digitLimit < value.digits then
          Except.error (ReadError.integerTooLong value.digits) else .ok value) = .ok d := found
      split at kept
      · cases kept
      · cases kept
        exact hasDistinctKeys_readDocument document
  · cases found

/-- A document that consists of lines, and not of one collection in brackets. -/
theorem read_of_lines {text : Text} {lines : List Line} {data : Data}
    (allowed : text.all isAllowed = true) (unmarked : dropByteOrderMark text = text)
    (open_block : ∀ c ∈ ['[', '{'], (skipFlow false text).head? ≠ some c)
    (significant : significantLines text = some lines)
    (node : readNode (3 * (text.length + lines.length) + 3) (dropStart lines) =
      some (data, []))
    (short : data.digits ≤ Text.digitLimit) : read text = .ok data := by
  have document : readDocument text = some data := by
    unfold readDocument
    split
    · rename_i rest bracket
      exact absurd (congrArg List.head? bracket) (open_block _ (by decide))
    · rename_i rest brace
      exact absurd (congrArg List.head? brace) (open_block _ (by decide))
    · simp only [significant, node, Option.bind_eq_bind, Option.bind_some]
  rw [read, if_pos allowed, unmarked, document]
  exact if_neg (Nat.not_lt.2 short)

end Yaml

end ProgressRules
