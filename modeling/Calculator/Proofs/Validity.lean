import Calculator.Proofs.Precedence
import Calculator.Proofs.Progress
import Calculator.Proofs.Stopping
/-!
Validity. A formula is valid if no formula within it has a violation (`Formula.isValid_iff_within`).
If its names resolve, it has a value if and only if it is valid and has no bare group at any depth
(`evaluate_iff_isValid`): bare groups are let through by the rules of adjacency, and a reader puts a
multiplication in front of them, but an evaluation refuses them.
-/
namespace Calculator

variable {scope : Scope} {env : Environment} {e : Element} {f g part : Formula}
  {fs : List Formula} {elements rest : List Element} {index : Nat} {p : Formula → Prop}

/-- The formulas that an element owns. -/
def Element.parts : Element → List Formula
  | .group inner => [inner]
  | .call _ arguments => arguments
  | _ => []

def Element.Resolves (env : Environment) (scope : Scope) : Element → Prop
  | .variable name => ∃ x, env.value scope name = .ok x
  | .call name arguments =>
    ((env.context scope.context).functions.lookup name arguments.length).isSome = true
  | _ => True

/-- All variables and calls, at any depth, are found in the scope of the formula they stand in. -/
def Formula.Resolves (env : Environment) (f : Formula) : Prop :=
  ∀ g : Formula, g.Within f → ∀ e ∈ g.elements, e.Resolves env g.scope

/-- Whatever is drawn, the formula has a value if and only if the condition holds. -/
def Formula.HasValueIff (env : Environment) (condition : Prop) (f : Formula) : Prop :=
  ∀ draws, (∃ x, (f.evaluate (env.withDraws draws)).result = .ok x) ↔ condition

def Failure.IsInvalid (failure : Failure) : Prop :=
  ∃ violation position, failure = .invalid violation position

/-- If the run fails, it does so with a violation. -/
def Run.OnlyInvalid {α : Type} (r : Run α) : Prop :=
  ∀ failure, r.result = .error failure → failure.IsInvalid

/-- The run has a result only if all operands have values, and otherwise it fails with a violation
or as an element does; the first element stands at the index. -/
def Gathers {α : Type} (env : Environment) (scope : Scope) (index : Nat) (elements : List Element)
    (r : Run α) : Prop :=
  match r.result with
  | .ok _ => Valued env scope index elements
  | .error failure =>
    failure.IsInvalid ∨
      ∃ e ∈ elements, ∃ i, (e.evaluate (env.inside i) scope).result = .error failure

section Depth

theorem sizeOf_parts (hp : part ∈ e.parts) : sizeOf part < sizeOf e := by
  cases e with
  | group inner =>
    rw [List.mem_singleton.1 hp]
    simp
  | call name arguments =>
    have hlt := List.sizeOf_lt_of_mem hp
    simp only [Element.parts, Element.call.sizeOf_spec] at hlt ⊢
    omega
  | _ => cases hp

/-- Induction over formulas: the statement may be taken to hold of all formulas that the elements
own. -/
theorem Formula.induct {motive : Formula → Prop}
    (h : ∀ f : Formula, (∀ e ∈ f.elements, ∀ part ∈ e.parts, motive part) → motive f)
    (f : Formula) : motive f :=
  h f fun e he part hp =>
    have hlt : sizeOf part < sizeOf f := by
      obtain ⟨scope, elements⟩ := f
      have hpart := sizeOf_parts hp
      have helement := List.sizeOf_lt_of_mem he
      simp only [Formula.elements, Formula.mk.sizeOf_spec] at helement ⊢
      omega
    Formula.induct h part
termination_by sizeOf f

theorem Formula.Within.of_part (he : e ∈ f.elements) (hp : part ∈ e.parts) (hg : g.Within part) :
    g.Within f := by
  cases e with
  | group inner =>
    rw [List.mem_singleton.1 hp] at hg
    exact .group he hg
  | call name arguments => exact .argument he hp hg
  | _ => cases hp

theorem Formula.forall_within {p : Formula → Prop} :
    (∀ g : Formula, g.Within f → p g) ↔
      p f ∧ ∀ e ∈ f.elements, ∀ part ∈ e.parts, ∀ g : Formula, g.Within part → p g := by
  constructor
  · intro h
    exact ⟨h f .refl, fun e he part hp g hg => h g (.of_part he hp hg)⟩
  · rintro ⟨hf, hparts⟩ g hg
    cases hg with
    | refl => exact hf
    | group hm hg => exact hparts _ hm _ List.mem_cons_self g hg
    | argument hm ha hg => exact hparts _ hm _ ha g hg

theorem Formula.Resolves.of_part (h : f.Resolves env) (he : e ∈ f.elements) (hp : part ∈ e.parts) :
    part.Resolves env :=
  fun g hg => h g (.of_part he hp hg)

theorem Formula.resolves_mk : (Formula.mk scope elements).Resolves env ↔
    (∀ e ∈ elements, e.Resolves env scope) ∧ ∀ e ∈ elements, ∀ part ∈ e.parts, part.Resolves env :=
  Formula.forall_within

theorem allValid_iff : allValid fs = true ↔ ∀ f ∈ fs, f.isValid = true := by
  induction fs with
  | nil => simp [allValid]
  | cons f fs ih => simp [allValid, ih]

theorem Element.partsValid_iff : e.partsValid = true ↔ ∀ part ∈ e.parts, part.isValid = true := by
  cases e with
  | call name arguments => rw [Element.partsValid, allValid_iff, Element.parts]
  | _ => simp [Element.partsValid, Element.parts]

theorem allPartsValid_iff :
    allPartsValid elements = true ↔ ∀ e ∈ elements, e.partsValid = true := by
  induction elements with
  | nil => simp [allPartsValid]
  | cons e rest ih => simp [allPartsValid, ih]

theorem Formula.isValid_iff : f.isValid = true ↔
    findViolation f.elements = none ∧ ∀ e ∈ f.elements, ∀ part ∈ e.parts, part.isValid = true := by
  obtain ⟨scope, elements⟩ := f
  rw [Formula.isValid, Bool.and_eq_true, Option.isNone_iff_eq_none, allPartsValid_iff]
  simp only [Element.partsValid_iff, Formula.elements]

/-- A formula is valid if and only if no formula within it has a violation. -/
theorem Formula.isValid_iff_within :
    f.isValid = true ↔ ∀ g : Formula, g.Within f → findViolation g.elements = none := by
  induction f using Formula.induct with
  | h f ih =>
    rw [Formula.isValid_iff, Formula.forall_within (p := fun g => findViolation g.elements = none)]
    refine and_congr_right fun _ => ?_
    exact forall₂_congr fun e he => forall₂_congr fun part hp => ih e he part hp

end Depth

section Values

theorem structureFailure_eq_none : structureFailure elements = none ↔
    findViolation elements = none := by
  cases elements with
  | nil => simp [structureFailure, findViolation]
  | cons e rest => rw [structureFailure, Option.map_eq_none_iff]

theorem Valued.operator (op : Operator) (h : Valued env scope (index + 1) rest) :
    Valued env scope index (.operator op :: rest) := by
  refine ⟨fun ho => ?_, h⟩
  cases ho

theorem Valued.exists_evaluates (h : Valued env scope index elements)
    (hk : ∀ e ∈ elements, e.kind ≠ .comma) :
    ∃ numbers, Evaluates env scope index elements numbers := by
  induction elements generalizing index with
  | nil => exact ⟨[], .nil⟩
  | cons e rest ih =>
    obtain ⟨hkind, hkinds⟩ := List.forall_mem_cons.1 hk
    obtain ⟨numbers, hrest⟩ := ih h.2 hkinds
    rcases isOperand_or_operator hkind with ho | ⟨op, rfl⟩
    · obtain ⟨x, hx⟩ := h.1 ho
      exact ⟨.number x :: numbers, .operand ho hx hrest⟩
    · exact ⟨.operator op :: numbers, .operator op hrest⟩

section Gathering

variable {α β : Type} {r : Run α}

theorem gathers_fault (violation : Violation) (position : Option Nat) :
    Gathers env scope index elements (fault violation position : Run α) :=
  .inl ⟨violation, position, rfl⟩

theorem Gathers.operator (op : Operator) (h : Gathers env scope (index + 1) rest r) :
    Gathers env scope index (.operator op :: rest) r := by
  rw [Gathers] at h ⊢
  cases hr : r.result with
  | ok a =>
    rw [hr] at h
    exact h.operator op
  | error failure =>
    rw [hr] at h
    apply h.imp_right
    rintro ⟨e, hm, he⟩
    exact ⟨e, List.mem_cons_of_mem _ hm, he⟩

theorem Gathers.map (convert : α → β) (h : Gathers env scope index elements r) :
    Gathers env scope index elements (r >>= fun a => pure (convert a)) := by
  rw [Gathers] at h ⊢
  cases hr : r.result with
  | ok a =>
    rw [hr] at h
    rw [Run.bind_ok hr]
    exact h
  | error failure =>
    rw [hr] at h
    rw [Run.bind_error hr]
    exact h

theorem Gathers.operand {next : Float → Run α}
    (h : ∀ x, Gathers env scope (index + 1) rest (next x)) :
    Gathers env scope index (e :: rest) (e.evaluate (env.inside index) scope >>= next) := by
  rw [Gathers]
  cases he : (e.evaluate (env.inside index) scope).result with
  | error failure =>
    rw [Run.bind_error he]
    exact .inr ⟨e, List.mem_cons_self, index, he⟩
  | ok x =>
    have hx := h x
    rw [Gathers] at hx
    rw [Run.bind_ok he]
    cases hr : (next x).result with
    | ok a =>
      rw [hr] at hx
      exact ⟨fun _ => ⟨x, he⟩, hx⟩
    | error failure =>
      rw [hr] at hx
      apply hx.imp_right
      rintro ⟨e', hm, he'⟩
      exact ⟨e', List.mem_cons_of_mem e hm, he'⟩

theorem gathers_nextOperands (env : Environment) (scope : Scope) (place : Nat)
    (run : List Operator) (rest : List Element) :
    Gathers env scope place rest (nextOperands env scope place run rest) := by
  induction rest generalizing place run with
  | nil =>
    rw [nextOperands]
    split
    · exact trivial
    · exact gathers_fault _ _
  | cons e rest ih =>
    cases e with
    | comma =>
      rw [nextOperands]
      exact gathers_fault _ _
    | operator op =>
      cases run with
      | nil =>
        rw [nextOperands]
        exact (ih _ _).operator op
      | cons first signs =>
        rw [nextOperands]
        split
        · exact (ih _ _).operator op
        · exact gathers_fault _ _
    | _ =>
      cases run with
      | nil =>
        rw [nextOperands_missing rfl]
        exact gathers_fault _ _
      | cons combiner signs =>
        rw [nextOperands_operand env scope rfl]
        exact .operand fun x => (ih _ _).map _

theorem gathers_firstOperand (env : Environment) (scope : Scope) (place : Nat)
    (run : List Operator) (hne : run = [] → rest ≠ []) :
    Gathers env scope place rest (firstOperand env scope place run rest) := by
  induction rest generalizing place run with
  | nil =>
    rw [firstOperand]
    split
    · next hl => exact absurd rfl (hne (List.getLast?_eq_none_iff.1 hl))
    · exact gathers_fault _ _
  | cons e rest ih =>
    cases e with
    | comma =>
      rw [firstOperand]
      exact gathers_fault _ _
    | operator op =>
      rw [firstOperand]
      split
      · exact (ih _ _ (by simp)).operator op
      · exact gathers_fault _ _
    | _ =>
      rw [firstOperand_operand env scope rfl]
      exact .operand fun x => (gathers_nextOperands env scope _ [] rest).map _

end Gathering

theorem evaluateAll_length {values : List Float}
    (h : (evaluateAll env index fs).result = .ok values) : values.length = fs.length := by
  induction fs generalizing index values with
  | nil =>
    rw [evaluateAll] at h
    cases h
    rfl
  | cons f fs ih =>
    rw [evaluateAll] at h
    obtain ⟨x, _, h⟩ := Run.bind_eq_ok.1 h
    obtain ⟨tail, ht, h⟩ := Run.bind_eq_ok.1 h
    cases h
    rw [List.length_cons, List.length_cons, ih ht]

theorem evaluateAll_iff
    (hp : ∀ f ∈ fs, ∀ i, (∃ x, (f.evaluate (env.inside i)).result = .ok x) ↔ p f) :
    (∃ values, (evaluateAll env index fs).result = .ok values) ↔ ∀ f ∈ fs, p f := by
  induction fs generalizing index with
  | nil => exact ⟨fun _ => List.forall_mem_nil _, fun _ => ⟨[], rfl⟩⟩
  | cons f fs ih =>
    obtain ⟨hf, hfs⟩ := List.forall_mem_cons.1 hp
    rw [List.forall_mem_cons, ← hf index, ← ih hfs, evaluateAll]
    constructor
    · rintro ⟨values, h⟩
      obtain ⟨x, hx, h⟩ := Run.bind_eq_ok.1 h
      obtain ⟨tail, ht, _⟩ := Run.bind_eq_ok.1 h
      exact ⟨⟨x, hx⟩, tail, ht⟩
    · rintro ⟨⟨x, hx⟩, tail, ht⟩
      rw [Run.bind_ok hx, Run.bind_ok ht]
      exact ⟨x :: tail, rfl⟩

theorem Environment.call_valued {name : String} {arguments : List Float}
    (ht : (env.context scope.context).functions.Total)
    (hs : ((env.context scope.context).functions.lookup name arguments.length).isSome = true) :
    ∃ x, (env.call scope name arguments).result = .ok x := by
  obtain ⟨f, hf⟩ := Option.isSome_iff_exists.1 hs
  obtain ⟨x, hx⟩ := ht name _ f hf (env.draws []) arguments rfl
  refine ⟨x, ?_⟩
  simp only [Environment.call, hf, hx]
  rfl

/-- An operand that resolves has a value if and only if the condition for a value holds of the
formulas that it owns. -/
theorem Element.value_iff (ht : (env.context scope.context).functions.Total)
    (hr : e.Resolves env scope) (ho : e.isOperand = true)
    (hp : ∀ part ∈ e.parts, part.HasValueIff env (p part)) :
    (∃ x, (e.evaluate env scope).result = .ok x) ↔ ∀ part ∈ e.parts, p part := by
  cases e with
  | number value =>
    rw [Element.evaluate]
    exact ⟨fun _ => List.forall_mem_nil _, fun _ => ⟨value, rfl⟩⟩
  | «variable» name =>
    rw [Element.evaluate]
    exact ⟨fun _ => List.forall_mem_nil _, fun _ => hr⟩
  | group inner =>
    rw [Element.evaluate, Element.parts, List.forall_mem_singleton]
    exact hp inner List.mem_cons_self env.draws
  | call name arguments =>
    have harguments : (∃ values, (evaluateAll env 0 arguments).result = .ok values) ↔
        ∀ part ∈ arguments, p part := evaluateAll_iff fun part hm i => hp part hm _
    rw [Element.evaluate, Element.parts, ← harguments]
    constructor
    · rintro ⟨x, h⟩
      obtain ⟨values, hv, _⟩ := Run.bind_eq_ok.1 h
      exact ⟨values, hv⟩
    · rintro ⟨values, hv⟩
      rw [Run.bind_ok hv]
      rw [Element.Resolves, ← evaluateAll_length hv] at hr
      exact Environment.call_valued ht hr
  | operator op => cases ho
  | comma => cases ho

theorem forall_parts_iff (ht : (env.context scope.context).functions.Total)
    (hr : ∀ e ∈ elements, e.Resolves env scope)
    (hp : ∀ e ∈ elements, ∀ part ∈ e.parts, part.HasValueIff env (p part)) :
    Valued env scope index elements ↔ ∀ e ∈ elements, ∀ part ∈ e.parts, p part := by
  induction elements generalizing index with
  | nil => exact ⟨fun _ => List.forall_mem_nil _, fun _ => trivial⟩
  | cons e rest ih =>
    obtain ⟨hre, hrrest⟩ := List.forall_mem_cons.1 hr
    obtain ⟨hpe, hprest⟩ := List.forall_mem_cons.1 hp
    rw [List.forall_mem_cons, ← ih hrrest hprest]
    refine and_congr_left fun _ => ?_
    by_cases ho : e.isOperand = true
    · have hvalue : (∃ x, (e.evaluate (env.inside index) scope).result = .ok x) ↔
          ∀ part ∈ e.parts, p part := Element.value_iff ht hre ho hpe
      rw [← hvalue]
      exact ⟨fun h => h ho, fun h _ => h⟩
    · refine ⟨fun _ part hm => ?_, fun _ h => absurd h ho⟩
      cases e with
      | operator op => cases hm
      | comma => cases hm
      | _ => exact absurd rfl ho

/-- A row is found if and only if there is neither a violation nor a bare group and all operands
have values. -/
theorem firstOperand_iff : (∃ row, (firstOperand env scope 0 [] elements).result = .ok row) ↔
    (findViolation elements = none ∧ NoBareGroup elements) ∧ Valued env scope 0 elements := by
  constructor
  · rintro ⟨row, hrow⟩
    have hne : elements ≠ [] := by
      rintro rfl
      rw [firstOperand] at hrow
      cases hrow
    have hv := gathers_firstOperand env scope 0 [] fun _ => hne
    rw [Gathers, hrow] at hv
    have hs := firstOperand_stopsAt hv hne
    refine ⟨?_, hv⟩
    cases hm : Option.merge min ((findViolation elements).map (·.1)) (firstBareGroup elements) with
    | none =>
      obtain ⟨hviolation, hbare⟩ := Option.merge_eq_none_iff.1 hm
      exact ⟨Option.map_eq_none_iff.1 hviolation, noBareGroup_iff.2 hbare⟩
    | some i =>
      rw [hm] at hs
      obtain ⟨violation, hfail⟩ := hs
      rw [hrow] at hfail
      cases hfail
  · rintro ⟨⟨hviolation, hbare⟩, hv⟩
    have hplain := Plain.of_findViolation hviolation hbare
    obtain ⟨numbers, he⟩ := hv.exists_evaluates hplain.kind_ne_comma
    obtain ⟨x, tail, hrow, _⟩ := hplain.row he
    exact ⟨_, hrow⟩

/-- The reduction of a row that was found succeeds. -/
theorem firstOperand_value {row : Row Float}
    (h : (firstOperand env scope 0 [] elements).result = .ok row) :
    ∃ x, row.value.result = .ok x := by
  obtain ⟨⟨hviolation, hbare⟩, hv⟩ := firstOperand_iff.1 ⟨row, h⟩
  have hplain := Plain.of_findViolation hviolation hbare
  obtain ⟨numbers, he⟩ := hv.exists_evaluates hplain.kind_ne_comma
  obtain ⟨y, tail, hrow, _⟩ := hplain.row he
  rw [h] at hrow
  cases hrow
  obtain ⟨x, hx⟩ := Row.value_zip y tail
  exact ⟨x, by rw [hx]; rfl⟩

/-- A formula without a violation is evaluated as its elements are. -/
theorem Formula.evaluate_eq (h : findViolation f.elements = none) :
    f.evaluate env = evaluateElements env f.scope f.elements := by
  obtain ⟨scope, elements⟩ := f
  have hs : structureFailure elements = none := structureFailure_eq_none.2 h
  rw [Formula.evaluate, hs]
  rfl

theorem Formula.findViolation_of_value {x : Float} (h : (f.evaluate env).result = .ok x) :
    findViolation f.elements = none := by
  obtain ⟨scope, elements⟩ := f
  rw [← structureFailure_eq_none]
  rw [Formula.evaluate] at h
  split at h
  · cases h
  · assumption

theorem Formula.value_iff (ht : (env.context f.scope.context).functions.Total)
    (hr : ∀ e ∈ f.elements, e.Resolves env f.scope)
    (hp : ∀ e ∈ f.elements, ∀ part ∈ e.parts, part.HasValueIff env (p part)) :
    (∃ x, (f.evaluate env).result = .ok x) ↔
      (findViolation f.elements = none ∧ NoBareGroup f.elements) ∧
        ∀ e ∈ f.elements, ∀ part ∈ e.parts, p part := by
  rw [← forall_parts_iff ht hr hp, ← firstOperand_iff]
  constructor
  · rintro ⟨x, h⟩
    rw [Formula.evaluate_eq (Formula.findViolation_of_value h)] at h
    obtain ⟨row, hrow, _⟩ := Run.bind_eq_ok.1 h
    exact ⟨row, hrow⟩
  · rintro ⟨row, hrow⟩
    obtain ⟨⟨hviolation, _⟩, _⟩ := firstOperand_iff.1 ⟨row, hrow⟩
    obtain ⟨x, hx⟩ := firstOperand_value hrow
    rw [Formula.evaluate_eq hviolation, evaluateElements, Run.bind_ok hrow]
    exact ⟨x, hx⟩

/-- A formula whose names resolve has a value if and only if there is neither a violation nor a bare
group at any depth. -/
theorem Formula.Resolves.value_iff (hr : f.Resolves env)
    (ht : ∀ context, (env.context context).functions.Total) :
    (∃ x, (f.evaluate env).result = .ok x) ↔ ∀ g : Formula, g.Within f →
      findViolation g.elements = none ∧ NoBareGroup g.elements := by
  induction f using Formula.induct generalizing env with
  | h f ih =>
    have hparts : ∀ e ∈ f.elements, ∀ part ∈ e.parts, part.HasValueIff env _ :=
      fun e he part hp draws => @ih e he part hp (env.withDraws draws) (hr.of_part he hp) ht
    rw [Formula.value_iff (ht _) (hr f .refl) hparts, Formula.forall_within
      (p := fun g => findViolation g.elements = none ∧ NoBareGroup g.elements)]

end Values

section Refusals

variable {α β : Type} {r : Run α} {next : α → Run β}

theorem Run.OnlyInvalid.of_ok {a : α} (h : r.result = .ok a) : r.OnlyInvalid := by
  intro failure hf
  rw [h] at hf
  cases hf

theorem onlyInvalid_fault (violation : Violation) (position : Option Nat) :
    (fault violation position : Run α).OnlyInvalid := by
  intro failure hf
  cases hf
  exact ⟨violation, position, rfl⟩

theorem Run.OnlyInvalid.bind (h : r.OnlyInvalid)
    (hn : ∀ a, r.result = .ok a → (next a).OnlyInvalid) : (r >>= next).OnlyInvalid := by
  intro failure hf
  cases hr : r.result with
  | ok a =>
    rw [Run.bind_ok hr] at hf
    exact hn a hr failure hf
  | error =>
    rw [Run.bind_error hr] at hf
    cases hf
    exact h _ hr

theorem Run.OnlyInvalid.map {convert : α → β} (h : r.OnlyInvalid) :
    (r >>= fun a => pure (convert a)).OnlyInvalid :=
  h.bind fun _ _ => .of_ok rfl

theorem onlyInvalid_evaluateAll (h : ∀ f ∈ fs, ∀ i, (f.evaluate (env.inside i)).OnlyInvalid)
    (index : Nat) : (evaluateAll env index fs).OnlyInvalid := by
  induction fs generalizing index with
  | nil => exact .of_ok rfl
  | cons f fs ih =>
    rw [evaluateAll]
    have hrest := ih (fun g hg => h g (List.mem_cons_of_mem f hg)) (index + 1)
    exact (h f List.mem_cons_self index).bind fun x _ => hrest.map

theorem Element.onlyInvalid (ht : (env.context scope.context).functions.Total)
    (hr : e.Resolves env scope)
    (hp : ∀ part ∈ e.parts, ∀ draws, (part.evaluate (env.withDraws draws)).OnlyInvalid) :
    (e.evaluate env scope).OnlyInvalid := by
  cases e with
  | number value =>
    rw [Element.evaluate]
    exact .of_ok rfl
  | «variable» name =>
    obtain ⟨x, hx⟩ := hr
    rw [Element.evaluate]
    exact .of_ok hx
  | group inner =>
    rw [Element.evaluate]
    exact hp inner List.mem_cons_self env.draws
  | call name arguments =>
    rw [Element.evaluate]
    have harguments : (evaluateAll env 0 arguments).OnlyInvalid :=
      onlyInvalid_evaluateAll (fun part hm i => hp part hm _) 0
    refine harguments.bind fun values hv => ?_
    rw [Element.Resolves, ← evaluateAll_length hv] at hr
    obtain ⟨x, hx⟩ := Environment.call_valued ht hr
    exact .of_ok hx
  | operator op =>
    rw [Element.evaluate]
    exact onlyInvalid_fault _ _
  | comma =>
    rw [Element.evaluate]
    exact onlyInvalid_fault _ _

theorem Gathers.onlyInvalid (h : Gathers env scope index elements r)
    (he : ∀ e ∈ elements, ∀ i, (e.evaluate (env.inside i) scope).OnlyInvalid) :
    r.OnlyInvalid := by
  intro failure hf
  rw [Gathers, hf] at h
  rcases h with h | ⟨e, hm, i, hfail⟩
  · exact h
  · exact he e hm i failure hfail

/-- A valid formula whose names resolve fails with a violation if at all. -/
theorem Formula.Resolves.onlyInvalid (hr : f.Resolves env)
    (ht : ∀ context, (env.context context).functions.Total) (hv : f.isValid = true) :
    (f.evaluate env).OnlyInvalid := by
  induction f using Formula.induct generalizing env with
  | h f ih =>
    obtain ⟨hviolation, hparts⟩ := Formula.isValid_iff.1 hv
    have helements : ∀ e ∈ f.elements, ∀ i, (e.evaluate (env.inside i) f.scope).OnlyInvalid :=
      fun e he i => Element.onlyInvalid (ht _) (hr f .refl e he) fun part hp draws =>
        ih e he part hp (hr.of_part he hp) ht (hparts e he part hp)
    have hne : f.elements ≠ [] := by
      intro hnil
      rw [hnil] at hviolation
      cases hviolation
    rw [Formula.evaluate_eq hviolation]
    have hrun := (gathers_firstOperand env f.scope 0 [] fun _ => hne).onlyInvalid helements
    refine hrun.bind fun row hrow => ?_
    obtain ⟨x, hx⟩ := firstOperand_value hrow
    exact .of_ok hx

end Refusals

/-- A formula whose names resolve has a value if and only if it is valid and has no bare group at
any depth. A valid one that has a bare group at some depth is refused with a violation. -/
theorem evaluate_iff_isValid (hr : f.Resolves env)
    (ht : ∀ context, (env.context context).functions.Total) :
    ((∃ x, (f.evaluate env).result = .ok x) ↔
        f.isValid = true ∧ ∀ g : Formula, g.Within f → NoBareGroup g.elements) ∧
      (f.isValid = true → ∀ g : Formula, g.Within f → ¬ NoBareGroup g.elements →
        ∃ violation position, (f.evaluate env).result = .error (.invalid violation position)) := by
  have hiff := hr.value_iff ht
  refine ⟨?_, fun hv g hg hb => ?_⟩
  · rw [hiff, Formula.isValid_iff_within]
    exact ⟨fun h => ⟨fun g hg => (h g hg).1, fun g hg => (h g hg).2⟩,
      fun h g hg => ⟨h.1 g hg, h.2 g hg⟩⟩
  · cases he : (f.evaluate env).result with
    | ok x => exact absurd (hiff.1 ⟨x, he⟩ g hg).2 hb
    | error failure =>
      obtain ⟨violation, position, rfl⟩ := hr.onlyInvalid ht hv failure he
      exact ⟨violation, position, rfl⟩

/-- The formula `2 (3)`, which is valid although its group is bare. -/
def groupBehindNumber : Formula := .mk ⟨0, 0⟩ [.number 2, .group (.mk ⟨0, 0⟩ [.number 3])]

theorem not_isValid_iff_value : ¬ ∀ (env : Environment) (f : Formula), f.Resolves env →
    (∀ context, (env.context context).functions.Total) →
    (f.isValid = true ↔ ∃ x, (f.evaluate env).result = .ok x) := by
  intro h
  have hr : groupBehindNumber.Resolves .empty := by
    simp [Formula.resolves_mk, groupBehindNumber, Element.Resolves, Element.parts]
  have ht : ∀ context, (Environment.empty.context context).functions.Total := by
    intro context name arity f hl
    cases hl
  obtain ⟨x, hx⟩ := (h .empty groupBehindNumber hr ht).1 rfl
  have hstop : (evaluateElements .empty ⟨0, 0⟩ groupBehindNumber.elements).result =
      .error (.invalid (.missingOperator (.group (.mk ⟨0, 0⟩ [.number 3]))) (some 1)) := by
    rw [evaluateElements, groupBehindNumber, Formula.elements, firstOperand_operand _ _ rfl,
      Element.evaluate, nextOperands_missing rfl]
    rfl
  rw [Formula.evaluate_eq rfl] at hx
  rw [groupBehindNumber] at hstop
  cases hstop.symm.trans hx

/-- The formula `-g(x)`. -/
def negatedCall : Formula :=
  .mk ⟨0, 0⟩ [.operator .subtract, .call "g" [.mk ⟨0, 0⟩ [.variable "x"]]]

/-- The formula `x - g(2 (3))`, whose only bare group stands in an argument. -/
def groupInArgument : Formula :=
  .mk ⟨0, 0⟩ [.variable "x", .operator .subtract, .call "g" [groupBehindNumber]]

theorem evaluate_iff_isValid_inside :
    (∃ x, (negatedCall.evaluate onlyX).result = .ok x) ∧ groupInArgument.isValid = true ∧
      ∃ violation position,
        (groupInArgument.evaluate onlyX).result = .error (.invalid violation position) := by
  have hg : ((onlyX.context 0).functions.lookup "g" 1).isSome = true := rfl
  have hx : onlyX.value ⟨0, 0⟩ "x" = .ok 1 := rfl
  have hcall : negatedCall.Resolves onlyX := by
    simp [Formula.resolves_mk, negatedCall, Element.Resolves, Element.parts, hg, hx]
  have hgroup : groupInArgument.Resolves onlyX := by
    simp [Formula.resolves_mk, groupInArgument, groupBehindNumber, Element.Resolves, Element.parts,
      hg, hx]
  have hargument : ∀ g : Formula, g.Within (.mk ⟨0, 0⟩ [.variable "x"]) →
      NoBareGroup g.elements := by
    rw [Formula.forall_within (p := fun g => NoBareGroup g.elements)]
    exact ⟨List.isChain_singleton _, by simp [Formula.elements, Element.parts]⟩
  have hplain : ∀ g : Formula, g.Within negatedCall → NoBareGroup g.elements := by
    rw [Formula.forall_within (p := fun g => NoBareGroup g.elements)]
    refine ⟨by simp [negatedCall, NoBareGroup, Formula.elements, Element.kind], ?_⟩
    simpa [negatedCall, Formula.elements, Element.parts] using hargument
  have hbare : ¬ NoBareGroup groupBehindNumber.elements := by
    simp [NoBareGroup, groupBehindNumber, Formula.elements, Element.kind]
  have hm : .call "g" [groupBehindNumber] ∈ groupInArgument.elements := by
    simp [groupInArgument, Formula.elements]
  have hin : groupBehindNumber.Within groupInArgument := .argument hm List.mem_cons_self .refl
  exact ⟨(evaluate_iff_isValid hcall total_onlyX).1.2 ⟨rfl, hplain⟩, rfl,
    (evaluate_iff_isValid hgroup total_onlyX).2 rfl _ hin hbare⟩

end Calculator
