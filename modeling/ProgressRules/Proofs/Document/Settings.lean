import ProgressRules.Document.SettingsFile
import ProgressRules.Proofs.Document.Yaml

/-! Settings of a document, whatever reader it comes from. A key that is no field of its section is
reported, unless its value is null. Otherwise each setting has the value that the document gives to
it, or its default where the value is null or missing. The defaults that a document is merged into
are the default settings. -/

namespace ProgressRules.SettingsFile

open Data (HasDistinctKeys)

/-! ### Fields -/

/-- A setting with the section and the key under which a document gives its value. -/
structure Field where
  part : Section
  name : Text
  value : SettingsFile → Data

def fields : List Field := [
  ⟨.transpiler, "function_prefix".toList, functionPrefix⟩,
  ⟨.transpiler, "binary_calls".toList, binaryCalls⟩,
  ⟨.transpiler, "nested".toList, nested⟩,
  ⟨.transpiler, "progress_field".toList, progressField⟩,
  ⟨.transpiler, "interpretation_separator".toList, separator⟩,
  ⟨.transpiler, "check_consistency".toList, checkConsistency⟩,
  ⟨.catalog, "path".toList, catalogPath⟩]

def Section.fieldNames (part : Section) : List Text :=
  (fields.filter fun field => field.part == part).map Field.name

theorem Section.keys_eq (part : Section) : part.keys = part.fieldNames := by
  cases part <;> rfl

/-! ### Defaults -/

/-- The defaults of a section have the value of each of its fields in the default settings. -/
theorem entry_defaults : ∀ field ∈ fields,
    Data.entry? field.part.defaults field.name = some (field.value default) := by
  simp only [fields, List.forall_mem_cons]
  exact ⟨rfl, rfl, rfl, rfl, rfl, rfl, rfl, fun _ => nofun⟩

theorem keys_defaults (part : Section) :
    part.defaults.map Prod.fst = part.fieldNames.map Key.text := by
  cases part <;> rfl

theorem exists_of_mem_defaults {part : Section} {e : Key × Data} (inside : e ∈ part.defaults) :
    ∃ name ∈ part.fieldNames, e.1 = .text name := by
  have key : e.1 ∈ part.defaults.map Prod.fst := List.mem_map_of_mem inside
  rw [keys_defaults] at key
  obtain ⟨name, named, same⟩ := List.mem_map.1 key
  exact ⟨name, named, same.symm⟩

/-! ### Sections -/

/-- The entries of a section; a section that is missing or null has none. -/
def Section.entries (part : Section) (document : List (Key × Data)) : List (Key × Data) :=
  match Data.entry? document part.name with
  | some (.mapping entries) => entries
  | _ => []

/-- The section is missing, null or a mapping whose keys are texts. -/
def Section.IsReadable (part : Section) (document : List (Key × Data)) : Prop :=
  ∀ data, Data.entry? document part.name = some data →
    data = .null ∨ ∃ entries, data = .mapping entries ∧ ∀ e ∈ entries, isText e.1 = true

/-- The section gives a value other than null to a key that is none of its fields. -/
def Section.Mistypes (part : Section) (document : List (Key × Data)) (name : Text) : Prop :=
  name ∉ part.fieldNames ∧ ∃ value, (.text name, value) ∈ part.entries document ∧ value ≠ .null

variable {part : Section} {document : List (Key × Data)}

theorem isNull_eq_true {data : Data} : data.isNull = true ↔ data = .null := by
  cases data <;> simp [Data.isNull]

theorem entriesOf_mapping (entries : List (Key × Data)) :
    entriesOf (.mapping entries) = .ok entries := by
  unfold entriesOf
  split
  · rename_i vacant
    have empty : entries = [] := List.isEmpty_iff.1 vacant
    rw [empty]
  · rfl

theorem Section.IsReadable.entriesOf_eq (readable : part.IsReadable document) :
    entriesOf ((Data.entry? document part.name).getD .null) = .ok (part.entries document) := by
  unfold Section.entries
  cases found : Data.entry? document part.name with
  | none => rfl
  | some data =>
    rcases readable data found with rfl | ⟨entries, rfl, -⟩
    · rfl
    · exact entriesOf_mapping entries

theorem Section.IsReadable.isText
    (readable : part.IsReadable document) : ∀ e ∈ part.entries document, isText e.1 = true := by
  unfold Section.entries
  cases found : Data.entry? document part.name with
  | none => exact fun _ => nofun
  | some data =>
    rcases readable data found with rfl | ⟨entries, rfl, texts⟩
    · exact fun _ => nofun
    · exact texts

def Section.present (part : Section) (document : List (Key × Data)) : List (Key × Data) :=
  (part.entries document).filter fun e => !e.2.isNull

theorem Section.mem_present {e : Key × Data} :
    e ∈ part.present document ↔ e ∈ part.entries document ∧ e.2 ≠ .null := by
  rw [present, List.mem_filter, Bool.not_eq_true', ← Bool.not_eq_true, isNull_eq_true]

theorem Section.nodup_present (distinct : (Data.mapping document).HasDistinctKeys) :
    ((part.present document).map Prod.fst).Nodup := by
  have once : ((part.entries document).map Prod.fst).Nodup := by
    unfold Section.entries
    split
    · rename_i entries found
      exact (distinct.of_mem _ (Data.mem_of_entry?_eq_some found)).nodup
    · exact List.nodup_nil
  exact once.sublist (List.filter_sublist.map Prod.fst)

def Section.merged (part : Section) (document : List (Key × Data)) : List (Key × Data) :=
  mergeDefaults (part.entries document) part.defaults

theorem Section.mem_of_mem_merged {e : Key × Data}
    (inside : e ∈ part.merged document) : e ∈ part.defaults ∨ e ∈ part.present document :=
  Data.mem_of_mem_setEntries inside

theorem Section.entry_merged (distinct : (Data.mapping document).HasDistinctKeys) (name : Text) :
    Data.entry? (part.merged document) name =
      (Data.entry? (part.present document) name).or (Data.entry? part.defaults name) :=
  Data.entry_setEntries (Section.nodup_present distinct) part.defaults name

theorem Section.isText_merged
    (readable : part.IsReadable document) : ∀ e ∈ part.merged document, isText e.1 = true := by
  intro e inside
  rcases Section.mem_of_mem_merged inside with inside | inside
  · obtain ⟨name, -, key⟩ := exists_of_mem_defaults inside
    rw [key]
    rfl
  · exact readable.isText e (Section.mem_present.1 inside).1

theorem unknownKey?_eq_some {entries : List (Key × Data)} {name : Text}
    (found : unknownKey? part entries = some name) :
    name ∉ part.fieldNames ∧ ∃ value, (.text name, value) ∈ entries := by
  obtain ⟨⟨key, value⟩, inside, found⟩ := List.exists_of_findSome?_eq_some found
  cases key with
  | other written => cases found
  | text key =>
    simp only at found
    split at found
    · cases found
    · rename_i unknown
      cases found
      refine ⟨?_, value, inside⟩
      intro known
      rw [← part.keys_eq] at known
      exact unknown (List.contains_iff_mem.2 known)

theorem unknownKey?_eq_none {entries : List (Key × Data)}
    (none : unknownKey? part entries = none) {name : Text} {value : Data}
    (inside : (.text name, value) ∈ entries) : name ∈ part.fieldNames := by
  have skipped := List.findSome?_eq_none_iff.1 none _ inside
  simp only at skipped
  split at skipped
  · rename_i known
    rw [← part.keys_eq]
    exact List.contains_iff_mem.1 known
  · cases skipped

theorem sectionOf_eq (readable : part.IsReadable document) :
    sectionOf part document = match unknownKey? part (part.merged document) with
      | some name => .error (.unknownKey part name)
      | none => .ok (part.merged document) := by
  have texts : ¬((part.merged document).any fun e => !isText e.1) = true := by
    intro other
    obtain ⟨e, inside, noText⟩ := List.any_eq_true.1 other
    rw [Section.isText_merged readable e inside] at noText
    cases noText
  unfold sectionOf
  rw [readable.entriesOf_eq]
  change (if ((part.merged document).any fun e => !isText e.1) = true then _ else _) = _
  rw [if_neg texts]
  change (match unknownKey? part (part.merged document) with
    | some name => _
    | none => _) = _
  split <;> rfl

/-- A section that can be read is refused for one of its mistyped keys, or has none. -/
theorem sectionOf_cases
    (distinct : (Data.mapping document).HasDistinctKeys) (readable : part.IsReadable document) :
    (∃ name, sectionOf part document = .error (.unknownKey part name) ∧
      part.Mistypes document name) ∨
    sectionOf part document = .ok (part.merged document) ∧
      ∀ name, ¬part.Mistypes document name := by
  rw [sectionOf_eq readable]
  cases found : unknownKey? part (part.merged document) with
  | some name =>
    left
    obtain ⟨unknown, value, inside⟩ := unknownKey?_eq_some found
    rcases Section.mem_of_mem_merged inside with inside | inside
    · obtain ⟨known, named, same⟩ := exists_of_mem_defaults inside
      cases same
      exact absurd named unknown
    · obtain ⟨member, notNull⟩ := Section.mem_present.1 inside
      exact ⟨name, rfl, unknown, value, member, notNull⟩
  | none =>
    right
    refine ⟨rfl, ?_⟩
    rintro name ⟨unknown, value, member, notNull⟩
    have present := Section.mem_present.2 ⟨member, notNull⟩
    have merged : Data.entry? (part.merged document) name = some value := by
      rw [Section.entry_merged distinct,
        Data.entry?_of_mem (Section.nodup_present distinct) present]
      rfl
    exact unknown (unknownKey?_eq_none found (Data.mem_of_entry?_eq_some merged))

/-! ### Values -/

/-- The value that the entries give to the key counts, or else the default. -/
def Settles (entries : List (Key × Data)) (name : Text) (default value : Data) : Prop :=
  (∀ data, (.text name, data) ∈ entries → data ≠ .null → value = data) ∧
    ((∀ data, (.text name, data) ∈ entries → data = .null) → value = default)

theorem settles_present
    (distinct : (Data.mapping document).HasDistinctKeys) (name : Text) (default : Data) :
    Settles (part.entries document) name default
      ((Data.entry? (part.present document) name).getD default) := by
  constructor
  · intro data inside notNull
    have present := Section.mem_present.2 ⟨inside, notNull⟩
    rw [Data.entry?_of_mem (Section.nodup_present distinct) present]
    rfl
  · intro allNull
    cases found : Data.entry? (part.present document) name with
    | none => rfl
    | some data =>
      obtain ⟨inside, notNull⟩ := Section.mem_present.1 (Data.mem_of_entry?_eq_some found)
      exact absurd (allNull data inside) notNull

theorem value_ofSections (entries : Section → List (Key × Data)) : ∀ field ∈ fields,
    field.value (ofSections (entries .transpiler) (entries .catalog)) =
      (Data.entry? (entries field.part) field.name).getD (field.value default) := by
  simp only [fields, List.forall_mem_cons]
  exact ⟨rfl, rfl, rfl, rfl, rfl, rfl, rfl, fun _ => nofun⟩

/-- Every field is among the defaults that a section is merged into, so it is never missing when
the settings are made. -/
theorem settles_ofSections (distinct : (Data.mapping document).HasDistinctKeys) : ∀ field ∈ fields,
      Settles (field.part.entries document) field.name (field.value default) (field.value
        (ofSections (Section.transpiler.merged document) (Section.catalog.merged document))) := by
  intro field listed
  have value := value_ofSections (fun part => part.merged document) field listed
  rw [Section.entry_merged distinct, entry_defaults field listed, Option.or_some,
    Option.getD_some] at value
  rw [value]
  exact settles_present distinct field.name (field.value default)

theorem ofData_cases (distinct : (Data.mapping document).HasDistinctKeys)
    (readable : ∀ part : Section, part.IsReadable document) :
    (∃ part name, ofData (.mapping document) = .error (.unknownKey part name) ∧
      part.Mistypes document name) ∨
    ofData (.mapping document) = .ok
        (ofSections (Section.transpiler.merged document) (Section.catalog.merged document)) ∧
      ∀ part name, ¬Section.Mistypes part document name := by
  have start : ofData (.mapping document) = do
      let transpiler ← sectionOf .transpiler document
      let catalog ← sectionOf .catalog document
      return ofSections transpiler catalog := by
    rw [ofData, entriesOf_mapping]
    rfl
  rw [start]
  rcases sectionOf_cases distinct (readable .transpiler) with
    ⟨name, refused, mistyped⟩ | ⟨found, clean⟩
  · left
    refine ⟨.transpiler, name, ?_, mistyped⟩
    rw [refused]
    rfl
  · rw [found]
    rcases sectionOf_cases distinct (readable .catalog) with
      ⟨name, refused, mistyped⟩ | ⟨found', clean'⟩
    · left
      refine ⟨.catalog, name, ?_, mistyped⟩
      rw [refused]
      rfl
    · right
      rw [found']
      refine ⟨rfl, ?_⟩
      intro part
      cases part with
      | transpiler => exact clean
      | catalog => exact clean'

/-- However a document is read, if its sections can be read it is refused exactly if one of them
gives a value other than null to a key that is none of its fields, and what is reported is such a
key. Otherwise each setting has the value that the document gives to it, or its default if this is
null or missing. -/
theorem load_exact {readYaml : Text → Except ReadError Data} {content : Text}
    {document : List (Key × Data)} (read : readYaml content = .ok (.mapping document))
    (distinct : (Data.mapping document).HasDistinctKeys)
    (readable : ∀ part : Section, part.IsReadable document) :
    ((∃ e, load readYaml content = .error e) ↔
      ∃ part name, Section.Mistypes part document name) ∧
    (∀ e, load readYaml content = .error e →
      ∃ part name, e = .unknownKey part name ∧ part.Mistypes document name) ∧
    ((∀ part name, ¬Section.Mistypes part document name) →
      ∃ f, load readYaml content = .ok f ∧ ∀ field ∈ fields,
        Settles (field.part.entries document) field.name (field.value default)
          (field.value f)) := by
  have loaded : load readYaml content = ofData (.mapping document) := by
    rw [load, read]
  rw [loaded]
  rcases ofData_cases distinct readable with ⟨part, name, refused, mistyped⟩ | ⟨found, clean⟩
  · refine ⟨?_, ?_, ?_⟩
    · exact ⟨fun _ => ⟨part, name, mistyped⟩, fun _ => ⟨_, refused⟩⟩
    · intro e same
      rw [refused] at same
      cases same
      exact ⟨part, name, rfl, mistyped⟩
    · intro clean
      exact absurd mistyped (clean part name)
  · refine ⟨?_, ?_, ?_⟩
    · constructor
      · rintro ⟨e, refused⟩
        rw [found] at refused
        cases refused
      · rintro ⟨part, name, mistyped⟩
        exact absurd mistyped (clean part name)
    · intro e refused
      rw [found] at refused
      cases refused
    · intro _
      exact ⟨_, found, settles_ofSections distinct⟩

/-! ### Samples -/

def nestedContent : Text := "transpiler:\n  nested: on\n  progress_field:\n".toList

def nestedSection : List (Key × Data) :=
  [(.text "nested".toList, .bool true), (.text "progress_field".toList, .null)]

theorem read_nestedContent :
    Yaml.read nestedContent =
      .ok (.mapping [(.text "transpiler".toList, .mapping nestedSection)]) := by
  have lines : Yaml.significantLines nestedContent = some [⟨0, "transpiler:".toList⟩,
      ⟨2, "nested: on".toList⟩, ⟨2, "progress_field:".toList⟩] := by
    decide +kernel
  exact Yaml.read_of_lines (by decide +kernel) (by decide +kernel) (by decide +kernel) lines
    (by with_unfolding_all rfl) (by decide +kernel)

/-- A value that is given counts, and null stands for the default. -/
theorem load_nested :
    ∃ f, load Yaml.read nestedContent = .ok f ∧ f.nested = .bool true ∧
      f.progressField = default.progressField := by
  have readable : ∀ part : Section, part.IsReadable
      [(.text "transpiler".toList, .mapping nestedSection)] := by
    intro part data found
    cases part with
    | transpiler =>
      cases found
      exact .inr ⟨nestedSection, rfl, by decide⟩
    | catalog => cases found
  have clean : ∀ part name, ¬Section.Mistypes part
      [(.text "transpiler".toList, .mapping nestedSection)] name := by
    rintro part name ⟨unknown, value, inside, notNull⟩
    cases part with
    | transpiler =>
      apply unknown
      rcases List.mem_cons.1 inside with same | inside
      · cases same
        decide
      · cases List.mem_singleton.1 inside
        decide
    | catalog => cases inside
  obtain ⟨f, loaded, settled⟩ := (load_exact read_nestedContent
    (Yaml.hasDistinctKeys_of_read read_nestedContent) readable).2.2 clean
  refine ⟨f, loaded, ?_, ?_⟩
  · have nested := settled ⟨.transpiler, "nested".toList, nested⟩ (by simp [fields])
    have inside : (.text "nested".toList, .bool true) ∈ nestedSection := List.mem_cons_self
    exact nested.1 (.bool true) inside nofun
  · have progressField := settled ⟨.transpiler, "progress_field".toList, progressField⟩
      (by simp [fields])
    apply progressField.2
    intro data inside
    rcases List.mem_cons.1 inside with same | inside
    · cases same
    · cases List.mem_singleton.1 inside
      rfl

def colourContent : Text := "transpiler:\n  colour: null\n".toList

/-- A key that no section has is not reported if its value is null. -/
theorem load_colour :
    Yaml.read colourContent = .ok (.mapping [(.text "transpiler".toList,
      .mapping [(.text "colour".toList, .null)])]) ∧
    "colour".toList ∉ Section.transpiler.fieldNames ∧
    load Yaml.read colourContent = .ok default := by
  have lines : Yaml.significantLines colourContent =
      some [⟨0, "transpiler:".toList⟩, ⟨2, "colour: null".toList⟩] := by
    decide +kernel
  have read : Yaml.read colourContent = .ok (.mapping [(.text "transpiler".toList,
      .mapping [(.text "colour".toList, .null)])]) :=
    Yaml.read_of_lines (by decide +kernel) (by decide +kernel) (by decide +kernel) lines
      (by with_unfolding_all rfl) (by decide +kernel)
  refine ⟨read, by decide, ?_⟩
  rw [load, read]
  rfl

end ProgressRules.SettingsFile
