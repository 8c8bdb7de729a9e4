import Calculator.Proofs.Assignments
import Calculator.Proofs.Totality
/-!
Reports of the command line. A request is carried out in stages: the context is loaded, the
expression is read, the formula is evaluated. The outcome tells the value, or the failure of the
first stage that fails, and the elements as soon as they are read (`outcome_tells`); only a request
whose assignments include a separator breaks down.
-/
namespace Calculator.CommandLine

namespace Request

/-- The context from the file of the arguments, or else from that of the settings, or else the base,
where an empty name in the settings stands for none. -/
def loaded (r : Request) (s : Settings) (base : Context) (read : FileReader) :
    Except Failure Context :=
  match r.context, s.contextFile with
  | some path, _ => base.ofFile Definition.ofYaml read (Path.ofText path).text
  | none, some path => if path = "" then .ok base else base.ofFile Definition.ofYaml read path
  | none, none => .ok base

/-- The context and the formula in it, once both are there. -/
def reading (r : Request) (s : Settings) (base : Context) (read : FileReader) :
    Except Failure (Context × Formula) := do
  let context ← r.loaded s base read
  let formula ← Formula.ofText ⟨0, 0⟩ r.expression
  .ok (context, formula)

/-- The value of the expression, or the failure of the first stage that fails. -/
def result (r : Request) (s : Settings) (base : Context) (draws : Draws) (read : FileReader) :
    Except Failure Float := do
  let (context, formula) ← r.reading s base read
  (formula.evaluate (r.environment context draws)).result

/-- The lines of the elements, if they are asked for and there. -/
def shown (r : Request) (s : Settings) (base : Context) (read : FileReader) : List String :=
  match r.tree, r.reading s base read with
  | true, .ok (_, formula) => formula.elements.map Element.describe
  | _, _ => []

/-- The file that the context is read from can be read, or fails in a way that is reported. -/
def PlainContext (r : Request) (s : Settings) (read : FileReader) : Prop :=
  ∀ path, r.contextPath s = some path → read.Plain path

end Request

def exitCode : Except Failure Float → Nat
  | .ok _ => 0
  | .error _ => 1

def valueLines : Except Failure Float → List String
  | .ok x => [Decimal.text x]
  | .error _ => []

/-- The report of a failure, unless it is to be quiet. -/
def reportLines (quiet : Bool) : Except Failure Float → List String
  | .ok _ => []
  | .error f => if quiet then [] else ["error: " ++ f.message]

/-- The outcome tells the lines shown and the value behind them, or reports the failure; besides it
writes only records of the log. -/
structure Outcome.Tells (o : Outcome) (setup : Log.Setup) (quiet : Bool) (shown : List String)
    (result : Except Failure Float) : Prop where
  ready : o.setup = some setup
  code : o.code = exitCode result
  output : o.output = shown ++ valueLines result
  errorLines : ∀ line, o.errorLines line = o.records.map (line setup) ++ reportLines quiet result
  reported : ∀ f, result = .error f → f.Reported

variable {r : Request} {s : Settings} {base context : Context} {read : FileReader}
  {access : FileAccess} {setup : Log.Setup} {arguments : List String} {events : List Event}
  {draws : Draws} {lines : List String} {formula : Formula} {failure : Failure} {o : Outcome}

section Stages

/-- Records and behind them notices are written in this order. -/
theorem Outcome.errorLines_eq {notices : List String} (records : List Log.Record)
    (hs : o.setup = some setup)
    (hd : o.diagnostics = records.map .record ++ notices.map .notice)
    (line : Log.Setup → Log.Record → String) :
    o.errorLines line = o.records.map (line setup) ++ notices := by
  have hrecord (record : Log.Record) :
      ((some setup).filter (·.admits record)).map (line · record) =
        (if (some setup).any (·.admits record) then some record else none).map (line setup) := by
    cases h : setup.admits record <;> simp [Option.filter, h]
  rw [Outcome.errorLines, Outcome.records, hd, hs]
  simp only [List.filterMap_append, List.filterMap_map, List.map_filterMap,
    Function.comp_def, hrecord, List.filterMap_none, List.filterMap_some, List.append_nil]

/-- The attempt leaves an outcome that tells all this once the log is set up. -/
def Told (r : Request) (setup : Log.Setup) (lines : List String) (result : Except Failure Float)
    (attempt : Except Breakdown Outcome) : Prop :=
  ∃ o, attempt = .ok o ∧ Outcome.Tells { o with setup := some setup } setup r.quiet lines result

theorem failed_told (h : failure.Reported) (r : Request) (setup : Log.Setup) (events : List Event)
    (lines : List String) :
    Told r setup lines (.error failure) (r.failed events lines failure) := by
  obtain ⟨report, hreport⟩ := h
  have hmessage : failure.message = report.text := by rw [Failure.message.eq_def, hreport]
  refine ⟨_, by rw [Request.failed, hreport], rfl, rfl, (List.append_nil lines).symm, ?_, ?_⟩
  · apply Outcome.errorLines_eq (events.map Event.record ++ [report.record r.expression]) rfl
    rw [reportLines, hmessage]
    cases r.quiet <;> simp
  · intro f hf
    cases hf
    exact ⟨report, hreport⟩

theorem evaluate_told
    (h : Attempt.Meets Failure.Reported (fun _ => True)
      (formula.evaluate (r.environment context draws)).result) (setup : Log.Setup)
    (events : List Event) :
    Told r setup (r.treeLines formula) (formula.evaluate (r.environment context draws)).result
      (r.evaluate context draws events formula) := by
  simp only [Request.evaluate]
  cases hx : (formula.evaluate (r.environment context draws)).result with
  | error failure =>
    rw [hx] at h
    exact failed_told h r setup _ _
  | ok x =>
    refine ⟨_, rfl, rfl, rfl, rfl, ?_, fun f hf => nomatch hf⟩
    apply Outcome.errorLines_eq
      ((events ++ (formula.evaluate (r.environment context draws)).events).map Event.record) rfl
    simp [reportLines, Function.comp_def]

theorem numeric_mapping (r : Request) : r.mapping.Numeric := by
  intro name value hg
  rw [r.mapping_get?] at hg
  obtain ⟨entry, _, rfl⟩ := Option.map_eq_some_iff.1 hg
  exact ⟨entry.2, rfl⟩

theorem loaded_of_path {path : String} (h : r.contextPath s = some path) :
    r.loaded s base read = base.ofFile Definition.ofYaml read path := by
  rw [Request.contextPath] at h
  rw [Request.loaded]
  cases hr : r.context with
  | some given =>
    rw [hr] at h
    cases h
    rfl
  | none =>
    rw [hr] at h
    obtain ⟨hs, hne⟩ := Option.filter_eq_some_iff.1 h
    have hpath : path ≠ "" := by simpa using hne
    simp only [hs, if_neg hpath]

theorem loaded_of_none (h : r.contextPath s = none) : r.loaded s base read = .ok base := by
  rw [Request.contextPath] at h
  rw [Request.loaded]
  cases hr : r.context with
  | some given =>
    rw [hr] at h
    cases h
  | none =>
    rw [hr] at h
    cases hs : s.contextFile with
    | none => rfl
    | some path =>
      have hpath : path = "" := by simpa using Option.filter_eq_none_iff.1 h path hs
      simp only [if_pos hpath]

theorem loaded_meets (hd : base.functions.Distinct) (ht : base.functions.Total)
    (hp : r.PlainContext s read) :
    Attempt.Meets Failure.Reported (fun c : Context => c.functions.Total)
      (r.loaded s base read) := by
  cases hpath : r.contextPath s with
  | some path =>
    rw [loaded_of_path hpath]
    exact Context.ofFile_meets hd ht (hp path hpath)
  | none =>
    rw [loaded_of_none hpath]
    exact ht

theorem perform_error (h : r.loaded s base read = .error failure) :
    r.perform base draws read s = r.failed [] [] failure := by
  rw [Request.perform]
  cases hpath : r.contextPath s with
  | some path =>
    rw [loaded_of_path hpath] at h
    simp only [h]
  | none =>
    rw [loaded_of_none hpath] at h
    cases h

theorem perform_ok (h : r.loaded s base read = .ok context) :
    r.perform base draws read s = r.calculate context draws := by
  rw [Request.perform]
  cases hpath : r.contextPath s with
  | some path =>
    rw [loaded_of_path hpath] at h
    simp only [h]
  | none =>
    rw [loaded_of_none hpath] at h
    cases h
    rfl

theorem shown_error (h : r.reading s base read = .error failure) : r.shown s base read = [] := by
  rw [Request.shown, h]
  cases r.tree <;> rfl

theorem shown_ok (h : r.reading s base read = .ok (context, formula)) :
    r.shown s base read = r.treeLines formula := by
  rw [Request.shown, h, Request.treeLines]
  cases r.tree <;> rfl

theorem result_error (h : r.reading s base read = .error failure) :
    r.result s base draws read = .error failure := by
  rw [Request.result, h]
  rfl

theorem result_ok (h : r.reading s base read = .ok (context, formula)) :
    r.result s base draws read = (formula.evaluate (r.environment context draws)).result := by
  rw [Request.result, h]
  rfl

theorem perform_told (hd : base.functions.Distinct) (ht : base.functions.Total)
    (hp : r.PlainContext s read)
    (hh : r.hollow = false ∨ ∃ f, r.reading s base read = .error f) (setup : Log.Setup) :
    Told r setup (r.shown s base read) (r.result s base draws read)
      (r.perform base draws read s) := by
  have hloaded := loaded_meets hd ht hp
  have hread := ofText_meets ⟨0, 0⟩ r.expression
  cases hl : r.loaded s base read with
  | error failure =>
    rw [hl] at hloaded
    have hreading : r.reading s base read = .error failure := by rw [Request.reading, hl]; rfl
    rw [shown_error hreading, result_error hreading, perform_error hl]
    exact failed_told hloaded r setup [] []
  | ok context =>
    rw [hl] at hloaded
    rw [perform_ok hl]
    simp only [Request.calculate, Formula.parse_result]
    cases hf : Formula.ofText ⟨0, 0⟩ r.expression with
    | error failure =>
      rw [hf] at hread
      have hreading : r.reading s base read = .error failure := by
        rw [Request.reading, hl, hf]
        rfl
      rw [shown_error hreading, result_error hreading]
      exact failed_told hread r setup _ []
    | ok formula =>
      rw [hf] at hread
      have hreading : r.reading s base read = .ok (context, formula) := by
        rw [Request.reading, hl, hf]
        rfl
      -- The assignments matter from here on, where the expression has been read.
      have hhollow : r.hollow = false := by
        rcases hh with hh | ⟨f, hf⟩
        · exact hh
        · rw [hreading] at hf
          cases hf
      rw [shown_ok hreading, result_ok hreading, hhollow]
      exact evaluate_told (evaluate_meets (numeric_mapping r) hloaded hread) setup _

theorem perform_hollow (hh : r.hollow = true) {found : Context × Formula}
    (h : r.reading s base read = .ok found) :
    r.perform base draws read s = .error .hollowAssignment := by
  obtain ⟨context, hl, hrest⟩ := exists_of_bind_ok h
  obtain ⟨formula, hf, _⟩ := exists_of_bind_ok hrest
  rw [perform_ok hl]
  simp only [Request.calculate, Formula.parse_result, hf, hh, if_true]

end Stages

/-- A request is what its arguments do. If it can be carried out, with a log that can be set up, it
has an outcome: the code is zero if and only if the context is loaded, the expression read and the
formula evaluated, and the outcome tells the value or the failure of the first stage that fails. The
variables are those of the last assignments to their names. Only where a separator stands for an
assignment and the expression is read is there no outcome. -/
theorem outcome_tells (draws : Draws) (ha : Request.ofArguments arguments = .ok r)
    (hl : prepareLog access s = .ok (setup, read)) (hp : r.PlainContext s read) :
    r.AskedBy arguments ∧
      (∀ name, r.mapping.get? name =
        (r.assignments.filter fun entry => entry.1 = name).getLast?.map fun entry =>
          .number entry.2) ∧
      ((r.hollow = false ∨ ∃ f, r.reading s Standard.context read = .error f) →
        ∃ o, outcome Standard.context draws access s arguments = .ok o ∧
          o.Tells setup r.quiet (r.shown s Standard.context read)
            (r.result s Standard.context draws read)) ∧
      (r.hollow = true → ∀ found, r.reading s Standard.context read = .ok found →
        outcome Standard.context draws access s arguments = .error .hollowAssignment) := by
  have houtcome : outcome Standard.context draws access s arguments =
      (r.perform Standard.context draws read s >>= fun o =>
        .ok { o with setup := some setup }) := by
    rw [outcome, ha]
    simp only [hl]
    rfl
  refine ⟨Request.ofArguments_asked ha, r.mapping_get?, fun hh => ?_, fun hh found hf => ?_⟩
  · obtain ⟨o, hperform, htells⟩ :=
      perform_told distinct_standard total_standard hp hh setup
    exact ⟨_, by rw [houtcome, hperform]; rfl, htells⟩
  · rw [houtcome, perform_hollow hh hf]
    rfl

def noFiles : FileAccess := ⟨fun _ => .error .absent, fun path => .error ⟨path, .absent⟩⟩

def assignedTwice : List String := ["x", "--show-tree", "-v", " x =3", "-v", "x=4"]

def assignedSeparator : List String := ["x", "-v", "x=4", "--var=--"]

theorem ofText_x : Formula.ofText ⟨0, 0⟩ "x" = .ok (.mk ⟨0, 0⟩ [.variable "x"]) := by
  have hb : "x".toList.all Text.isBlank = false := by decide
  have hs : scan "x".toList = .ok ([⟨.identifier, ['x'], 0⟩] ++ [.atEnd 1]) := by decide +kernel
  have hf : IsFormula ⟨0, 0⟩ false [⟨.identifier, ['x'], 0⟩] [.variable "x"] :=
    .start .nil (.variable rfl)
  have hp := hf.parse hb hs
  rwa [Formula.parse_result] at hp

theorem reading_x (hc : r.context = none) (he : r.expression = "x") : r.reading {} base read =
    .ok (base, .mk ⟨0, 0⟩ [.variable "x"]) := by
  rw [Request.reading, Request.loaded, hc, he, ofText_x]
  rfl

theorem result_x {x : Float} (hc : r.context = none) (he : r.expression = "x")
    (hx : r.mapping.get? "x" = some (.number x)) : r.result {} base draws read = .ok x := by
  have hs : structureFailure [.variable "x"] = none := rfl
  rw [result_ok (reading_x hc he), Formula.evaluate, hs]
  simp only [firstOperand, Element.evaluate, Environment.value, Request.environment,
    Environment.inside, Environment.withDraws, hx, nextOperands]
  rfl

theorem plainContext_of_none (hc : r.context = none) : r.PlainContext {} read := by
  intro path hp
  rw [Request.contextPath, hc] at hp
  cases hp

/-- Of two assignments to `x` the last one counts, and a separator in the place of a third is a
breakdown. -/
theorem outcome_tells_assigned :
    (∃ o x, outcome Standard.context (fun _ => 0) noFiles {} assignedTwice = .ok o ∧ o.code = 0 ∧
      o.output = ["Variable('x')", Decimal.text x] ∧ Double.rank x = Double.rank 4) ∧
    outcome Standard.context (fun _ => 0) noFiles {} assignedSeparator =
      .error .hollowAssignment := by
  have hl : prepareLog noFiles {} = .ok (⟨20, .plain, none⟩, noFiles.read) := rfl
  constructor
  · have htwice : (Request.ofArguments assignedTwice).toOption.map (fun r =>
        ((r.expression, r.context, r.tree, r.hollow),
          r.assignments.map fun entry => (entry.1, Double.rank entry.2))) =
        some (("x", none, true, false), [("x", Double.rank 3), ("x", Double.rank 4)]) := by
      decide +kernel
    obtain ⟨r, hr, hview⟩ := exists_of_toOption htwice
    obtain ⟨hfields, hassignments⟩ := Prod.mk.inj hview
    obtain ⟨he, hfields⟩ := Prod.mk.inj hfields
    obtain ⟨hc, hfields⟩ := Prod.mk.inj hfields
    obtain ⟨ht, hh⟩ := Prod.mk.inj hfields
    obtain ⟨⟨_, three⟩, _, hcons, hfirst, hrest⟩ := List.map_eq_cons_iff.1 hassignments
    obtain ⟨⟨_, four⟩, rfl, hlast⟩ := List.map_eq_singleton_iff.1 hrest
    obtain ⟨rfl, _⟩ := Prod.mk.inj hfirst
    obtain ⟨rfl, hfour⟩ := Prod.mk.inj hlast
    obtain ⟨_, hmapping, htells, _⟩ := outcome_tells (fun _ => 0) hr hl (plainContext_of_none hc)
    obtain ⟨o, ho, htells⟩ := htells (.inl hh)
    have hx : r.mapping.get? "x" = some (.number four) := by
      rw [hmapping, hcons]
      rfl
    refine ⟨o, four, ho, ?_, ?_, hfour⟩
    · rw [htells.code, result_x hc he hx]
      rfl
    · rw [htells.output, result_x hc he hx, shown_ok (reading_x hc he), Request.treeLines, ht]
      rfl
  · have hseparator : (Request.ofArguments assignedSeparator).toOption.map (fun r =>
        (r.expression, r.context, r.hollow)) = some ("x", none, true) := by decide +kernel
    obtain ⟨r, hr, hview⟩ := exists_of_toOption hseparator
    obtain ⟨he, hfields⟩ := Prod.mk.inj hview
    obtain ⟨hc, hh⟩ := Prod.mk.inj hfields
    obtain ⟨_, _, _, hbreaks⟩ := outcome_tells (fun _ => 0) hr hl (plainContext_of_none hc)
    exact hbreaks hh _ (reading_x hc he)

end Calculator.CommandLine
