import ProgressRules.CommandLine.Run
import ProgressRules.Document.Yaml
import ProgressRules.Proofs.Consistency.Forced
import ProgressRules.Proofs.Document.Rendering

/-! What the command that converts a text prints, whatever files there are and however the YAML in
them is read. It is read as the summary of the conversion. It is a standard document unless a
threshold lies beyond the finite numbers, which is printed by a name. -/

namespace ProgressRules

/-! ### Results -/

theorem mapError_eq_ok {ε ε' α : Type} {f : ε → ε'} {x : Except ε α} {a : α}
    (h : x.mapError f = .ok a) : x = .ok a := by
  cases x with
  | error e => cases h
  | ok b =>
    cases h
    rfl

theorem map_eq_ok {ε α β : Type} {f : α → β} {x : Except ε α} {b : β} (h : x.map f = .ok b) :
    ∃ a, x = .ok a ∧ f a = b := by
  cases x with
  | error e => cases h
  | ok a =>
    cases h
    exact ⟨a, rfl, rfl⟩

/-! ### Witnesses -/

namespace Consistency

/-- The values of the witness are finite, with one for each reference. -/
def IsPrintable (k : Consistency) : Prop :=
  ∀ values ∈ k.witness, (values.map Prod.fst).Nodup ∧ ∀ e ∈ values, e.2.isFinite = true

theorem isFinite_quotient {n d : Magnitude} (one : unitsPerOne ≤ d.units) (negative : Bool) :
    (Binary64.ofRatio negative n.units d.units).isFinite = true := by
  have positive : 0 < unitsPerOne := Nat.two_pow_pos _
  have below : roundUnits (n.units * unitsPerOne) d.units ≤ roundUnits n.units 1 := by
    apply roundUnits_mono (positive.trans_le one) Nat.one_pos
    rw [Nat.mul_one]
    exact Nat.mul_le_mul_left _ one
  rw [n.roundUnits_units] at below
  rw [Binary64.ofRatio, dif_pos (below.trans_lt n.units_lt)]
  rfl

theorem one_le_integerNearest? {n : Nat} (positive : 0 < n) {negative sign : Bool} {m : Magnitude}
    (found : integerNearest? negative n = .ok (sign, m)) : unitsPerOne ≤ m.units := by
  have one : roundUnits (1 * unitsPerOne) 1 = 1 * unitsPerOne :=
    Magnitude.roundUnits_units ⟨_, isExact_one⟩
  have least : roundUnits (1 * unitsPerOne) 1 ≤ roundUnits (n * unitsPerOne) 1 :=
    roundUnits_mono Nat.one_pos Nat.one_pos
      (Nat.mul_le_mul_right 1 (Nat.mul_le_mul_right unitsPerOne positive))
  rw [one, Nat.one_mul] at least
  unfold integerNearest? Binary64.ofRatio at found
  split at found
  · cases found
    exact least
  · cases found

theorem isFinite_written {q : Rat} {x : Binary64} (found : written q = .ok x) :
    x.isFinite = true := by
  unfold written at found
  obtain ⟨⟨sign, numerator⟩, -, found⟩ := bind_eq_ok found
  obtain ⟨⟨sign', denominator⟩, below, found⟩ := bind_eq_ok found
  have finite := isFinite_quotient (n := numerator) (one_le_integerNearest? q.den_pos below) sign
  rwa [← Except.ok.inj found]

theorem nodup_eraseDups : ∀ references : List Text, references.eraseDups.Nodup
  | [] => List.nodup_nil
  | reference :: references => by
    rw [List.eraseDups_cons, List.nodup_cons, List.mem_eraseDups]
    exact ⟨by simp, nodup_eraseDups _⟩
termination_by references => references.length
decreasing_by exact Nat.lt_succ_of_le (List.length_filter_le _ _)

theorem isPrintable_of_ofConstraint {references names : List Text} (once : references.Nodup)
    {goal : Constraint} {k : Consistency} (found : ofConstraint references names goal = .ok k) :
    k.IsPrintable := by
  unfold ofConstraint at found
  split at found
  · cases found
    exact fun _ => nofun
  · rename_i box solved
    obtain ⟨values, each, same⟩ := bind_eq_ok found
    cases same
    rintro _ ⟨rfl⟩
    have read : valuesOf (fun r => box.value (names.idxOf (Constraint.nameOf r))) references =
        .ok values := each
    have finite : ∀ e ∈ values, e.2.isFinite = true :=
      fun e member => isFinite_written (written_of_valuesOf _ read e member)
    rcases valuesOf_cases (fun r => box.value (names.idxOf (Constraint.nameOf r))) references with
      ⟨values', read', same, -⟩ | ⟨failed, -⟩
    · rw [read] at read'
      cases read'
      exact ⟨same ▸ once, finite⟩
    · rw [read] at failed
      cases failed

theorem isPrintable_of_ofCondition {t : Condition} {k : Consistency}
    (found : ofCondition t = .ok k) : k.IsPrintable := by
  unfold ofCondition at found
  obtain ⟨goal, -, found⟩ := bind_eq_ok found
  exact isPrintable_of_ofConstraint (nodup_eraseDups _) found

theorem isPrintable_of_ofDecomposition {d : Decomposition} {k : Consistency}
    (found : ofDecomposition d = .ok k) : k.IsPrintable := by
  unfold ofDecomposition at found
  split at found
  · cases found
    exact fun _ => nofun
  · obtain ⟨literals, -, found⟩ := bind_eq_ok found
    exact isPrintable_of_ofConstraint (nodup_eraseDups _) found

end Consistency

namespace Conversion

open Consistency (bind_eq_ok)

theorem isPrintable_of_consistencyOf {settings : Settings} {t : Option Condition}
    {d : Decomposition} {checked : Option Consistency}
    (found : consistencyOf settings t d = .ok checked) : ∀ k ∈ checked, k.IsPrintable := by
  unfold consistencyOf at found
  split at found
  · split at found
    · obtain ⟨k, outcome, rfl⟩ := map_eq_ok found
      rintro _ ⟨rfl⟩
      exact Consistency.isPrintable_of_ofCondition outcome
    · split at found
      · cases found
        exact fun _ => nofun
      · obtain ⟨k, outcome, rfl⟩ := map_eq_ok found
        rintro _ ⟨rfl⟩
        exact Consistency.isPrintable_of_ofDecomposition outcome
  · cases found
    exact fun _ => nofun

theorem isPrintable_of_convert {settings : Settings} {catalog : Catalog} {source : Text}
    {c : Conversion} (converted : convert settings catalog source = .ok c) :
    ∀ k ∈ c.consistency, k.IsPrintable := by
  unfold convert at converted
  split at converted
  · cases converted
    exact fun _ => nofun
  · obtain ⟨rule, -, converted⟩ := bind_eq_ok converted
    unfold ofRule at converted
    obtain ⟨f, -, converted⟩ := bind_eq_ok converted
    obtain ⟨consistency, checked, converted⟩ := bind_eq_ok converted
    cases converted
    exact isPrintable_of_consistencyOf (mapError_eq_ok checked)

end Conversion

/-! ### Summaries -/

namespace Summary

theorem isPlain_ofComparison (c : Comparison) : (ofComparison c).IsPlain := by
  refine @Data.IsPlain.mapping [("reference".toList, .text c.reference),
    ("operator".toList, .text c.operator.symbol), ("threshold".toList, .real c.threshold),
    ("threshold_text".toList, .text c.thresholdText)] (by simp only [List.map]; decide) ?_
  simp only [List.forall_mem_cons]
  exact ⟨.text _, .text _, .real _, .text _, fun _ => nofun⟩

theorem isPlain_ofDecomposition (d : Decomposition) : (ofDecomposition d).IsPlain := by
  refine @Data.IsPlain.mapping [
    ("combinator".toList, .text (Conversion.combinatorName d.combinator)),
    ("comparisons".toList, .list (d.comparisons.map ofComparison))]
    (by simp only [List.map]; decide) ?_
  simp only [List.forall_mem_cons]
  refine ⟨.text _, .list fun item inside => ?_, fun _ => nofun⟩
  obtain ⟨c, -, rfl⟩ := List.mem_map.1 inside
  exact isPlain_ofComparison c

theorem isPlain_ofWitness {values : List (Text × Binary64)}
    (once : (values.map Prod.fst).Nodup) : (ofWitness values).IsPlain := by
  have plain : ∀ e ∈ values.map fun e => (e.1, Data.real e.2), e.2.IsPlain := by
    intro e inside
    obtain ⟨e, -, rfl⟩ := List.mem_map.1 inside
    exact .real _
  have keys : ((values.map fun e => (e.1, Data.real e.2)).map Prod.fst).Nodup := by
    rwa [List.map_map]
  have mapping := Data.IsPlain.mapping keys plain
  rwa [List.map_map] at mapping

theorem isPlain_ofConsistency {k : Consistency} (printable : k.IsPrintable) :
    (ofConsistency k).IsPlain := by
  refine @Data.IsPlain.mapping [("satisfiable".toList, .bool k.satisfiable),
    ("witness".toList, (k.witness.map ofWitness).getD .null)] (by simp only [List.map]; decide) ?_
  simp only [List.forall_mem_cons]
  refine ⟨.bool _, ?_, fun _ => nofun⟩
  cases found : k.witness with
  | none => exact .null
  | some values => exact isPlain_ofWitness (printable values found).1

theorem isPlain_ofConversion {c : Conversion} (printable : ∀ k ∈ c.consistency, k.IsPrintable) :
    (ofConversion c).IsPlain := by
  refine @Data.IsPlain.mapping [("source".toList, .text c.source), ("rule".toList, .text c.rule),
    ("formula".toList, .text c.formula), ("interpretation".toList, .text c.interpretation),
    ("decomposed".toList, ofDecomposition c.decomposition),
    ("warnings".toList, .list (c.warnings.map .text)),
    ("consistency".toList, (c.consistency.map ofConsistency).getD .null),
    ("convertible".toList, .bool c.convertible)] (by simp only [List.map]; decide) ?_
  simp only [List.forall_mem_cons]
  refine ⟨.text _, .text _, .text _, .text _, isPlain_ofDecomposition _,
    .list fun item inside => ?_, ?_, .bool _, fun _ => nofun⟩
  · obtain ⟨t, -, rfl⟩ := List.mem_map.1 inside
    exact .text t
  · cases found : c.consistency with
    | none => exact .null
    | some k => exact isPlain_ofConsistency (printable k found)

theorem allFinite_ofConsistency {k : Consistency} (printable : k.IsPrintable) :
    (ofConsistency k).AllFinite := by
  cases found : k.witness with
  | none => simp [ofConsistency, entry, found]
  | some values =>
    have finite : (ofWitness values).AllFinite := by
      refine .mapping fun e inside => ?_
      obtain ⟨e, listed, rfl⟩ := List.mem_map.1 inside
      exact Data.allFinite_real.2 ((printable values found).2 e listed)
    simp [ofConsistency, entry, found, finite]

theorem allFinite_ofConversion {c : Conversion} (printable : ∀ k ∈ c.consistency, k.IsPrintable) :
    (ofConversion c).AllFinite ↔
      ∀ comparison ∈ c.decomposition.comparisons, comparison.threshold.isFinite = true := by
  have checked : ((c.consistency.map ofConsistency).getD .null).AllFinite := by
    cases found : c.consistency with
    | none => exact .null
    | some k => exact allFinite_ofConsistency (printable k found)
  simp [ofConversion, entry, checked, ofDecomposition, ofComparison]

end Summary

/-! ### Runs -/

namespace CommandLine

open Consistency (bind_eq_ok)

variable {readYaml : Text → Except ReadError Data} {readFile : Text → Option Text}
  {program : Program} {arguments : List Text} {request : Request} {outcome : Outcome}

theorem run_eq (asked : program.request arguments = .read request) :
    run (m := Id) readYaml readFile program arguments =
      report program ((load (m := Id) readYaml readFile program request).bind fun env =>
        perform program env request.command) := by
  unfold run
  rw [asked]
  rfl

/-- Only a request that was performed ends with exit code 0. -/
theorem report_eq_ok {result : Except Failure Outcome} (h : report program result = .ok outcome)
    (completed : outcome.exitCode = 0) : result = .ok outcome := by
  cases result with
  | ok o => exact h
  | error failure =>
    cases failure with
    | missingFile name =>
      cases program <;>
      · cases h
        cases completed
    | _ => cases h

theorem exists_of_perform_forward {env : Environment} {source : Text}
    (performed : perform program env (.forward source) = .ok outcome) :
    ∃ c, convert env.settings.settings env.catalog source = .ok c ∧
      outcome.output = Json.render 0 (Summary.ofConversion c) ++ [Text.newline] := by
  obtain ⟨c, converted, performed⟩ := bind_eq_ok performed
  obtain ⟨-, -, performed⟩ := bind_eq_ok performed
  cases performed
  exact ⟨c, mapError_eq_ok converted, rfl⟩

theorem prints_of_convert {settings : Settings} {catalog : Catalog} {source : Text} {c : Conversion}
    (converted : convert settings catalog source = .ok c) :
    Json.read (Json.render 0 (Summary.ofConversion c) ++ [Text.newline]) =
        .ok (Summary.ofConversion c) ∧
      (Json.IsDocument (Json.render 0 (Summary.ofConversion c) ++ [Text.newline]) ↔
        ∀ comparison ∈ c.decomposition.comparisons, comparison.threshold.isFinite = true) := by
  have printable := Conversion.isPrintable_of_convert converted
  have plain := Summary.isPlain_ofConversion printable
  refine ⟨Json.read_render plain, (Json.isDocument_render plain).trans ?_⟩
  exact Summary.allFinite_ofConversion printable

/-- A run of the command prints the summary of the conversion, which is read back from it. The
output is a standard document exactly if all thresholds are finite. -/
theorem run_forward (asked : program.request arguments = .read request) {source : Text}
    (command : request.command = .forward source)
    (ran : run (m := Id) readYaml readFile program arguments = .ok outcome)
    (completed : outcome.exitCode = 0) :
    ∃ env c, load (m := Id) readYaml readFile program request = .ok env ∧
      convert env.settings.settings env.catalog source = .ok c ∧
      Json.read outcome.output = .ok (Summary.ofConversion c) ∧
      (Json.IsDocument outcome.output ↔
        ∀ comparison ∈ c.decomposition.comparisons, comparison.threshold.isFinite = true) := by
  rw [run_eq asked] at ran
  obtain ⟨env, loaded, performed⟩ := bind_eq_ok (report_eq_ok ran completed)
  rw [command] at performed
  obtain ⟨c, converted, output⟩ := exists_of_perform_forward performed
  rw [output]
  exact ⟨env, c, loaded, converted, prints_of_convert converted⟩

theorem exists_run_forward {source : Text} (finite : List Bool)
    (asked : program.request arguments = .read ⟨.forward source, none, none⟩)
    (computed : (convert SettingsFile.default.settings Catalog.default source).toOption.map
      (fun c => c.decomposition.comparisons.map (·.threshold.isFinite)) = some finite) :
    ∃ outcome c, run (m := Id) readYaml (fun _ => none) program arguments = .ok outcome ∧
      outcome.exitCode = 0 ∧
      outcome.output = Json.render 0 (Summary.ofConversion c) ++ [Text.newline] ∧
      convert SettingsFile.default.settings Catalog.default source = .ok c ∧
      c.decomposition.comparisons.map (·.threshold.isFinite) = finite := by
  cases converted : convert SettingsFile.default.settings Catalog.default source with
  | error e =>
    rw [converted] at computed
    cases computed
  | ok c =>
    rw [converted] at computed
    have performed : perform program ⟨.default, .default, []⟩ (.forward source) =
        .ok (.done (Json.render 0 (Summary.ofConversion c))
          ([] ++ conversionLog program SettingsFile.default.settings .default c)) := by
      have separator : checkSeparator .default source = .ok () := by
        simp [checkSeparator, SettingsFile.text?, SettingsFile.default]
      simp only [perform, converted, separator]
      rfl
    refine ⟨_, c, (run_eq asked).trans (congrArg (report program) performed), rfl, rfl, rfl, ?_⟩
    exact Option.some.inj computed

end CommandLine

namespace Sample

def forwarding (source : Text) : List Text := ["forward".toList, source]

def halfway : Text := "progressField >= 0.5".toList

def vast : Text := "progressField >= 1".toList ++ List.replicate 309 '0'

end Sample

namespace CommandLine

open Sample

theorem run_forward_half : ∃ outcome c,
    run (m := Id) Yaml.read (fun _ => none) .commands (forwarding halfway) = .ok outcome ∧
    outcome.exitCode = 0 ∧
    convert SettingsFile.default.settings Catalog.default halfway = .ok c ∧
    Json.read outcome.output = .ok (Summary.ofConversion c) ∧ Json.IsDocument outcome.output := by
  have asked : Program.commands.request (forwarding halfway) =
      .read ⟨.forward halfway, none, none⟩ := by
    decide +kernel
  obtain ⟨outcome, c, ran, completed, -, converted, finite⟩ := exists_run_forward [true] asked
    (by decide +kernel)
  obtain ⟨env, c', loaded, converted', read, document⟩ := run_forward asked rfl ran completed
  cases loaded
  rw [converted] at converted'
  cases converted'
  refine ⟨outcome, c, ran, completed, converted, read, document.2 fun comparison member => ?_⟩
  have inside := List.mem_map_of_mem (f := (·.threshold.isFinite)) member
  rw [finite] at inside
  exact List.mem_singleton.1 inside

/-- A completed run whose output is no standard document. -/
theorem run_forward_vast : ∃ outcome,
    run (m := Id) Yaml.read (fun _ => none) .commands (forwarding vast) = .ok outcome ∧
    outcome.exitCode = 0 ∧ ¬Json.IsDocument outcome.output := by
  have asked : Program.commands.request (forwarding vast) = .read ⟨.forward vast, none, none⟩ := by
    decide +kernel
  obtain ⟨outcome, c, ran, completed, output, converted, infinite⟩ :=
    exists_run_forward [false] asked (by decide +kernel)
  refine ⟨outcome, ran, completed, fun document => ?_⟩
  rw [output] at document
  have finite := (prints_of_convert converted).2.1 document
  have all : ∀ b ∈ c.decomposition.comparisons.map (·.threshold.isFinite), b = true :=
    List.forall_mem_map.2 finite
  rw [infinite] at all
  exact absurd (all false List.mem_cons_self) Bool.false_ne_true

end CommandLine

end ProgressRules
