import Calculator.Proofs.Loading
import Calculator.Proofs.Progress
/-!
Totality. No function of the standard context refuses arguments of the number that it is stored for,
and neither does one of a context that is loaded from a file (`Context.ofFile_meets`); so loading,
reading and evaluating fail only in ways that a report tells of.
-/
namespace Calculator

/-- A failure that a report tells of. -/
def Failure.Reported (failure : Failure) : Prop := ∃ report, failure.report? = some report

/-- The file is read as a value of YAML unless it cannot be opened or its text is malformed. -/
structure FileReader.Plain (read : FileReader) (path : String) : Prop where
  opened : ∀ fault, read path = .error fault → fault ≠ .nullCharacter
  formed : ∀ text fault, read path = .ok text →
    Yaml.Value.ofYaml (String.ofList (universalNewlines text.toList)) = .error fault →
    ∃ what, fault = .malformed what

variable {m : Meaning} {p : Nat → Function → Prop} {aliases : Entries String String}
  {base : Context} {d : Definition} {read : FileReader} {path text : String} {scope : Scope}
  {env : Environment} {f : Formula} {n : Node} {failure : Failure}

section Contexts

/-- Aliases bring no functions but those that other names stand for. -/
theorem Meaning.following_of (hm : ∀ name arity f, m name arity = some f → p arity f)
    (aliases : Entries String String) :
    ∀ name arity f, m.following aliases name arity = some f → p arity f := by
  induction aliases generalizing m with
  | nil => exact hm
  | cons entry rest ih =>
    apply ih
    intro name arity f hf
    rw [withAlias] at hf
    split at hf
    · rcases Option.or_eq_some_iff.1 hf with hf | ⟨_, hf⟩
      · exact hm entry.2 arity f hf
      · exact hm name arity f hf
    · exact hm name arity f hf

theorem total_standard : Standard.functions.Total := by
  intro name arity f hf draw arguments hl
  have hm := Entries.mem_of_get? hf
  rw [Standard.functions, List.mem_append, List.mem_append, List.mem_map, List.mem_map] at hm
  rcases hm with (⟨⟨_, g⟩, _, he⟩ | ⟨⟨_, g⟩, _, he⟩) | hm
  · cases he
    obtain ⟨x, rfl⟩ := List.length_eq_one_iff.1 hl
    exact ⟨_, rfl⟩
  · cases he
    obtain ⟨x, y, rfl⟩ := List.length_eq_two.1 hl
    exact ⟨_, rfl⟩
  · rw [List.mem_cons, List.mem_singleton] at hm
    rcases hm with he | he
    · cases he
      obtain ⟨x, y, z, rfl⟩ := List.length_eq_three.1 hl
      exact ⟨_, rfl⟩
    · cases he
      exact ⟨_, rfl⟩

theorem extend_meets (hd : base.functions.Distinct) (ht : base.functions.Total) :
    Attempt.Meets Failure.Reported (fun c : Context => c.functions.Total) (d.extend base) := by
  cases he : d.extend base with
  | ok c =>
    obtain ⟨_, hfunctions, _⟩ := extend_ok hd he
    intro name arity f hf
    rw [hfunctions] at hf
    exact Meaning.following_of ht d.aliases name arity f hf
  | error failure =>
    obtain ⟨_, _, _, _, _, rfl⟩ := (addAliases_error hd).1 (extend_error.1 he)
    exact ⟨_, rfl⟩

/-- A context from a file has only functions that do not refuse, and a file that is refused has a
report. -/
theorem Context.ofFile_meets (hd : base.functions.Distinct) (ht : base.functions.Total)
    (hr : read.Plain path) :
    Attempt.Meets Failure.Reported (fun c : Context => c.functions.Total)
      (base.ofFile Definition.ofYaml read path) := by
  rw [ofFile]
  cases hread : read path with
  | ok text =>
    simp only [Definition.ofYaml]
    cases hvalue : Yaml.Value.ofYaml (String.ofList (universalNewlines text.toList)) with
    | ok value =>
      cases hdefinition : Definition.ofValue value with
      | ok definition =>
        simp only [hdefinition]
        exact extend_meets hd ht
      | error errors =>
        simp only [hdefinition]
        exact ⟨_, rfl⟩
    | error fault =>
      obtain ⟨what, rfl⟩ := hr.formed text fault hread hvalue
      exact ⟨_, rfl⟩
  | error fault =>
    have hopened := hr.opened fault hread
    cases fault with
    | nullCharacter => exact absurd rfl hopened
    | _ => exact ⟨_, rfl⟩

end Contexts

section Formulas

theorem Failure.LiesIn.reported {cs : List Char} (h : failure.LiesIn cs) : failure.Reported := by
  obtain ⟨fault, position, rfl, _⟩ := h
  exact ⟨_, rfl⟩

theorem ofText_meets (scope : Scope) (text : String) :
    Attempt.Meets Failure.Reported (fun f => f = .mk scope [] ∨ f.Parsed scope)
      (Formula.ofText scope text) := by
  cases hf : Formula.ofText scope text with
  | ok f =>
    cases hb : text.toList.all Text.isBlank with
    | true =>
      have hblank : (Formula.parse scope text).result = .ok (.mk scope []) := parse_blank hb
      rw [Formula.parse_result, hf] at hblank
      exact .inl (Except.ok.inj hblank)
    | false => exact .inr (parsed_of_ofText hb hf)
  | error failure =>
    have hlies := parse_meets scope text
    rw [Formula.parse_result, hf] at hlies
    exact Failure.LiesIn.reported hlies

theorem Node.Names.reported (h : n.Names env scope failure) : failure.Reported := by
  cases n with
  | «variable» name =>
    cases h
    exact ⟨_, rfl⟩
  | call name arity =>
    obtain ⟨arguments, _, rfl⟩ := h
    exact ⟨_, rfl⟩

theorem evaluate_meets (hm : (env.mapping scope.mapping).Numeric)
    (ht : (env.context scope.context).functions.Total) (h : f = .mk scope [] ∨ f.Parsed scope) :
    Attempt.Meets Failure.Reported (fun _ => True) (f.evaluate env).result := by
  rcases h with rfl | hp
  · rw [Formula.evaluate]
    exact ⟨_, rfl⟩
  · have hdecides := hp.decides hm ht
    rw [Decides] at hdecides
    split at hdecides
    · obtain ⟨x, hx, _⟩ := hdecides
      rw [hx]
      trivial
    · obtain ⟨failure, hfail, hnames⟩ := hdecides
      rw [hfail]
      exact hnames.reported

end Formulas

end Calculator
