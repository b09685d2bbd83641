import Mathlib.Tactic.Common
import StyleGuide.CommandLine.Request

/-!
# Reading the arguments of a compilation

The arguments that ask for a compilation are read as the request they are written for, whenever the
texts behind the options can be their values. A text that is empty or looks like an option cannot,
and then the arguments are refused.

## Main definitions

* `CommandLine.arguments`: the arguments `[--config C] compile [--output F] [--resolve]`.
* `CommandLine.IsValue`: a text can be the value of an option.

## Main results

* `CommandLine.ofArguments_arguments`: what such arguments ask for.
* `CommandLine.exists_ofArguments_eq_error`: when they are refused.
-/

namespace StyleGuide.CommandLine

/-- The text is read as an option. A single dash is not. -/
def LooksLikeOption (s : String) : Prop := s.toList.head? = some '-' ∧ s.toList ≠ ['-']

/-- The text can be the value of an option. -/
def IsValue (s : String) : Prop := s ≠ "" ∧ ¬ LooksLikeOption s

instance (s : String) : Decidable (LooksLikeOption s) := inferInstanceAs (Decidable (_ ∧ _))

instance (s : String) : Decidable (IsValue s) := inferInstanceAs (Decidable (_ ∧ _))

/-- The options of a compilation. -/
def ownArguments (output : Option String) (resolve : Bool) : List String :=
  (output.elim [] fun f => ["--output", f]) ++ if resolve then ["--resolve"] else []

/-- The arguments `[--config C] compile [--output F] [--resolve]`. -/
def arguments (config output : Option String) (resolve : Bool) : List String :=
  (config.elim [] fun c => ["--config", c]) ++ "compile" :: ownArguments output resolve

/-- The request that such arguments are written for. -/
def requestFor (config output : Option String) (resolve : Bool) : CompileRequest where
  config := .ofString (config.getD defaultConfig)
  output := output.map .ofString
  resolve := resolve

variable {table : List OptionSpec} {commands rest : List String} {g : Given} {arg name v : String}

/-! ## One argument -/

/-- The argument behind an option is its value, whatever the option is. -/
lemma readOptions_value (hlast : g.last = some (name, none)) (hv : ¬ LooksLikeOption v) :
    readOptions table commands g (v :: rest) =
      readOptions table commands { g with last := some (name, some v) } rest := by
  rw [readOptions, hlast]
  exact if_neg hv

lemma readOptions_missingValue (hlast : g.last = some (name, none)) (hv : LooksLikeOption v) :
    readOptions table commands g (v :: rest) = .error .missingValue := by
  rw [readOptions, hlast]
  exact if_pos hv

/-- What a long option does, which is looked up by the text behind its dashes. -/
lemma readOptions_long (hlast : ∀ name, g.last ≠ some (name, none)) {cs : List Char}
    (harg : arg.toList = '-' :: '-' :: cs) (hcs : cs ≠ []) :
    readOptions table commands g (arg :: rest) =
      match g.addLong table cs with
      | .ok (.inr g) => readOptions table commands g rest
      | .ok (.inl q) => .ok (.asked q)
      | .error e => .error e := by
  rw [readOptions, harg]
  split <;> grind

/-- The name of a subcommand ends the options. -/
lemma readOptions_command (hlast : ∀ name, g.last ≠ some (name, none))
    (harg : arg.toList.head? ≠ some '-') (hcommand : commands.contains arg = true) :
    readOptions table commands g (arg :: rest) = .ok (.command arg g rest) := by
  rw [readOptions]
  split
  · exact absurd ‹_› (hlast _)
  · simp_all
  · simp_all
  · simp_all
  · exact if_pos hcommand

/-- A value that was read is checked when the next option follows, or at the end. -/
lemma settle_eq (name : String) :
    (v ≠ "" → Given.settle ⟨[], [], some (name, some v)⟩ = .ok ⟨[], [(name, v)], none⟩) ∧
    Given.settle ⟨[], [], some (name, some "")⟩ = .error .emptyValue := by
  refine ⟨fun hv => ?_, rfl⟩
  have hempty : v.isEmpty = false := by simpa using hv
  simp [Given.settle, Given.setValue, hempty]

/-! ## The options of a compilation -/

/-- The first option takes the argument behind it as its value, or it is refused. -/
lemma readOptions_first (commands rest : List String) (v : String) {cs : List Char}
    (harg : arg.toList = '-' :: '-' :: cs) (hcs : cs ≠ [])
    (hadd : Given.nothing.addLong table cs = .ok (.inr ⟨[], [], some (name, none)⟩)) :
    (¬ LooksLikeOption v → readOptions table commands .nothing (arg :: v :: rest) =
      readOptions table commands ⟨[], [], some (name, some v)⟩ rest) ∧
    (LooksLikeOption v →
      readOptions table commands .nothing (arg :: v :: rest) = .error .missingValue) := by
  rw [readOptions_long (by simp [Given.nothing]) harg hcs, hadd]
  exact ⟨readOptions_value rfl, readOptions_missingValue rfl⟩

/-- Behind the value of the output there is nothing left, or the flag. -/
lemma readOptions_behindOutput (f : String) (resolve : Bool) :
    readOptions compileOptions [] ⟨[], [], some ("output", some f)⟩
        (if resolve then ["--resolve"] else []) =
      (Given.settle ⟨[], [], some ("output", some f)⟩).map fun g =>
        .finished { g with flags := if resolve then ["resolve"] else [] } := by
  have hadd : ∀ g : Given, g.addLong compileOptions "resolve".toList =
      g.add ⟨"resolve", none, .flag⟩ none := fun _ => rfl
  by_cases hf : f = ""
  · subst hf
    cases resolve <;> rfl
  · have hsettle := (settle_eq "output").1 hf
    cases resolve with
    | false =>
      rw [if_neg (by simp), readOptions, hsettle]
      rfl
    | true =>
      have harg : "--resolve".toList = '-' :: '-' :: "resolve".toList := rfl
      rw [if_pos rfl, readOptions_long (by simp) harg (by decide), hadd]
      simp only [Given.add, hsettle]
      rfl

/-- The options of a compilation are read unless the output cannot be a value. -/
lemma readOptions_ownArguments (output : Option String) (resolve : Bool) :
    ((∀ f ∈ output, IsValue f) →
      readOptions compileOptions [] .nothing (ownArguments output resolve) =
        .ok (.finished ⟨if resolve then ["resolve"] else [],
          (output.map fun f => ("output", f)).toList, none⟩)) ∧
    ((∃ f ∈ output, ¬ IsValue f) →
      ∃ e, readOptions compileOptions [] .nothing (ownArguments output resolve) = .error e) := by
  cases output with
  | none => exact ⟨fun _ => by cases resolve <;> rfl, by simp⟩
  | some f =>
    have harg : "--output".toList = '-' :: '-' :: "output".toList := rfl
    have hadd : Given.nothing.addLong compileOptions "output".toList =
        .ok (.inr ⟨[], [], some ("output", none)⟩) := rfl
    have hfirst := readOptions_first [] (if resolve then ["--resolve"] else []) f harg
      (by decide) hadd
    refine ⟨fun h => ?_, fun ⟨f', hf', h⟩ => ?_⟩
    · obtain ⟨hne, hv⟩ := h f rfl
      refine (hfirst.1 hv).trans ?_
      rw [readOptions_behindOutput, (settle_eq "output").1 hne]
      rfl
    · obtain rfl : f = f' := by simpa using hf'
      by_cases hv : LooksLikeOption f
      · exact ⟨_, hfirst.2 hv⟩
      · obtain rfl : f = "" := by simpa [IsValue, hv] using h
        refine ⟨.emptyValue, (hfirst.1 hv).trans ?_⟩
        rw [readOptions_behindOutput]
        rfl

/-- The configuration is named in front of the subcommand. -/
lemma readOptions_arguments (config output : Option String) (resolve : Bool) :
    ((∀ c ∈ config, ¬ LooksLikeOption c) →
      readOptions globalOptions subcommands .nothing (arguments config output resolve) =
        .ok (.command "compile" ⟨[], [], config.map fun c => ("config", some c)⟩
          (ownArguments output resolve))) ∧
    ((∃ c ∈ config, LooksLikeOption c) →
      readOptions globalOptions subcommands .nothing (arguments config output resolve) =
        .error .missingValue) := by
  cases config with
  | none => exact ⟨fun _ => readOptions_command (by simp [Given.nothing]) (by decide) rfl, by simp⟩
  | some c =>
    have harg : "--config".toList = '-' :: '-' :: "config".toList := rfl
    have hadd : Given.nothing.addLong globalOptions "config".toList =
        .ok (.inr ⟨[], [], some ("config", none)⟩) := rfl
    have hfirst := readOptions_first subcommands ("compile" :: ownArguments output resolve) c harg
      (by decide) hadd
    refine ⟨fun h => (hfirst.1 (h c rfl)).trans ?_, fun ⟨c', hc', h⟩ => ?_⟩
    · exact readOptions_command (by simp) (by decide) rfl
    · obtain rfl : c = c' := by simpa using hc'
      exact hfirst.2 h

/-! ## The whole arguments -/

/-- The arguments ask for the compilation that they are written for. -/
theorem ofArguments_arguments {config output : Option String} (resolve : Bool)
    (hconfig : ∀ c ∈ config, IsValue c) (houtput : ∀ f ∈ output, IsValue f) :
    Request.ofArguments (arguments config output resolve) =
      .ok (.compile (requestFor config output resolve)) := by
  have hglobal := (readOptions_arguments config output resolve).1 fun c hc => (hconfig c hc).2
  have hown := (readOptions_ownArguments output resolve).1 houtput
  have hsettle : Given.settle ⟨[], [], config.map fun c => ("config", some c)⟩ =
      .ok ⟨[], (config.map fun c => ("config", c)).toList, none⟩ := by
    cases config with
    | none => rfl
    | some c => exact (settle_eq "config").1 (hconfig c rfl).1
  rw [Request.ofArguments, hglobal]
  change Request.ofCompile _ _ = _
  rw [Request.ofCompile, hown]
  simp only [bind, Except.bind, hsettle]
  cases config <;> cases output <;> cases resolve <;> rfl

/-- Arguments with a text that no option can have as its value are refused. -/
theorem exists_ofArguments_eq_error {config output : Option String} (resolve : Bool)
    (h : (∃ c ∈ config, ¬ IsValue c) ∨ ∃ f ∈ output, ¬ IsValue f) :
    ∃ e, Request.ofArguments (arguments config output resolve) = .error e := by
  by_cases hoption : ∃ c ∈ config, LooksLikeOption c
  · refine ⟨.missingValue, ?_⟩
    rw [Request.ofArguments, (readOptions_arguments config output resolve).2 hoption]
    rfl
  · have hglobal := (readOptions_arguments config output resolve).1
      fun c hc hl => hoption ⟨c, hc, hl⟩
    rw [Request.ofArguments, hglobal]
    change ∃ e, Request.ofCompile _ _ = _
    by_cases houtput : ∃ f ∈ output, ¬ IsValue f
    · obtain ⟨e, he⟩ := (readOptions_ownArguments output resolve).2 houtput
      exact ⟨e, by rw [Request.ofCompile, he]; rfl⟩
    · -- What is left is an empty configuration, which is noticed behind the other options.
      obtain ⟨c, hc, hv⟩ := h.resolve_right houtput
      obtain rfl : c = "" := by
        by_contra hne
        exact hv ⟨hne, fun hl => hoption ⟨c, hc, hl⟩⟩
      have hown := (readOptions_ownArguments output resolve).1 (by simpa using houtput)
      refine ⟨.emptyValue, ?_⟩
      rw [Request.ofCompile, hown, Option.mem_def.1 hc]
      rfl

end StyleGuide.CommandLine
