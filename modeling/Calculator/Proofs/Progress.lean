import Calculator.Evaluation
import Calculator.Proofs.Parsed
import Calculator.Proofs.Reduction
/-!
Progress. A parsed formula whose names all resolve has a value, and otherwise the evaluation fails
with the first name that does not (`parse_progress`); nothing is wrong with its structure.
-/
namespace Calculator

/-- What a formula looks up: variables, and functions with a number of arguments. -/
inductive Node where
  | variable (name : String)
  | call (name : String) (arity : Nat)
  deriving DecidableEq, Repr

mutual
/-- The nodes of an element from left to right, a call behind those of its arguments. -/
def Element.nodes : Element → List Node
  | .group inner => inner.nodes
  | .call name arguments => nodesOfArguments arguments ++ [.call name arguments.length]
  | .variable name => [.variable name]
  | _ => []

def Formula.nodes : Formula → List Node
  | .mk _ elements => nodesOfElements elements

def nodesOfArguments : List Formula → List Node
  | [] => []
  | f :: rest => f.nodes ++ nodesOfArguments rest

def nodesOfElements : List Element → List Node
  | [] => []
  | e :: rest => e.nodes ++ nodesOfElements rest
end

/-- A variable resolves in the mapping or as a constant, a call in the table of functions. -/
def Node.resolves (env : Environment) (scope : Scope) : Node → Bool
  | .variable name => (env.mapping scope.mapping).contains name ||
      (env.context scope.context).constants.contains name
  | .call name arity => ((env.context scope.context).functions.lookup name arity).isSome

def Node.Names (env : Environment) (scope : Scope) (failure : Failure) : Node → Prop
  | .variable name => failure = .unknownVariable name (env.mapping scope.mapping).keys
  | .call name arity =>
    ∃ arguments, arguments.length = arity ∧ failure = .unknownFunction name arity arguments

def VariableMap.Numeric (m : VariableMap) : Prop :=
  ∀ name value, m.get? name = some value → ∃ x, value = .number x

/-- No function refuses arguments of the number it is stored for. -/
def FunctionTable.Total (t : FunctionTable) : Prop :=
  ∀ name arity f, t.lookup name arity = some f →
    ∀ draw (arguments : List Float), arguments.length = arity → ∃ x, f draw arguments = .ok x

section Decides

variable {α β : Type} {env : Environment} {scope : Scope} {nodes more : List Node}
  {good : α → Prop} {good' : β → Prop} {r : Run α} {next : α → Run β}

/-- The run has a good result if all nodes resolve; otherwise it fails with the first one that does
not. -/
def Decides (env : Environment) (scope : Scope) (nodes : List Node) (good : α → Prop)
    (r : Run α) : Prop :=
  match nodes.find? fun n => !n.resolves env scope with
  | none => ∃ a, r.result = .ok a ∧ good a
  | some n => ∃ failure, r.result = .error failure ∧ n.Names env scope failure

/-- Which names resolve does not depend on what is drawn. -/
theorem Decides.inside {i : Nat} (h : Decides (env.inside i) scope nodes good r) :
    Decides env scope nodes good r := h

theorem Decides.pure {a : α} (h : good a) : Decides env scope [] good (Pure.pure a) :=
  ⟨a, rfl, h⟩

/-- What is evaluated first decides first. -/
theorem Decides.bind (h : Decides env scope nodes good r)
    (hn : ∀ a, good a → Decides env scope more good' (next a)) :
    Decides env scope (nodes ++ more) good' (r >>= next) := by
  simp only [Decides, List.find?_append] at h ⊢
  cases hf : nodes.find? fun n => !n.resolves env scope with
  | none =>
    rw [hf] at h
    obtain ⟨a, ha, hg⟩ := h
    simp only [Option.none_or, Run.bind_ok ha]
    exact hn a hg
  | some n =>
    rw [hf] at h
    obtain ⟨failure, hfail, hnames⟩ := h
    simp only [Option.some_or]
    exact ⟨failure, Run.bind_error hfail next, hnames⟩

theorem Decides.map {f : α → β} (h : Decides env scope nodes good r)
    (hf : ∀ a, good a → good' (f a)) :
    Decides env scope nodes good' (r >>= fun a => Pure.pure (f a)) := by
  have hb : Decides env scope (nodes ++ []) good' (r >>= fun a => Pure.pure (f a)) :=
    h.bind fun a hg => Decides.pure (hf a hg)
  rwa [List.append_nil] at hb

theorem Decides.one {n : Node} (hr : n.resolves env scope = true → ∃ a, r.result = .ok a ∧ good a)
    (hn : n.resolves env scope = false →
      ∃ failure, r.result = .error failure ∧ n.Names env scope failure) :
    Decides env scope [n] good r := by
  cases h : n.resolves env scope with
  | true =>
    have hf : [n].find? (fun n => !n.resolves env scope) = none := by simp [h]
    rw [Decides, hf]
    exact hr h
  | false =>
    have hf : [n].find? (fun n => !n.resolves env scope) = some n := by simp [h]
    rw [Decides, hf]
    exact hn h

theorem decides_variable (hm : (env.mapping scope.mapping).Numeric) (name : String) :
    Decides env scope [.variable name] (fun _ => True) (Run.ofExcept (env.value scope name)) := by
  cases hg : (env.mapping scope.mapping).get? name with
  | some value =>
    obtain ⟨x, rfl⟩ := hm name value hg
    refine .one (fun _ => ⟨x, by simp [Run.ofExcept, Environment.value, hg, Datum.toDouble], trivial⟩)
      fun hn => ?_
    simp [Node.resolves, VariableMap.contains, hg] at hn
  | none =>
    cases hc : (env.context scope.context).constants.lookup name with
    | some x =>
      refine .one (fun _ => ⟨x, by simp [Run.ofExcept, Environment.value, hg, hc], trivial⟩)
        fun hn => ?_
      simp [Node.resolves, ConstantTable.contains, hc] at hn
    | none =>
      refine .one (fun hr => ?_)
        fun _ => ⟨_, by simp [Run.ofExcept, Environment.value, hg, hc], rfl⟩
      simp [Node.resolves, VariableMap.contains, ConstantTable.contains, hg, hc] at hr

theorem decides_call (ht : (env.context scope.context).functions.Total) (name : String)
    {arity : Nat} {arguments : List Float} (ha : arguments.length = arity) :
    Decides env scope [.call name arity] (fun _ => True) (env.call scope name arguments) := by
  subst ha
  cases hf : (env.context scope.context).functions.lookup name arguments.length with
  | some f =>
    obtain ⟨x, hx⟩ := ht name arguments.length f hf (env.draws []) arguments rfl
    have hcall : (env.call scope name arguments).result = .ok x := by
      simp only [Environment.call, hf, hx]
      rfl
    refine .one (fun _ => ⟨x, hcall, trivial⟩) fun hn => ?_
    simp [Node.resolves, hf] at hn
  | none =>
    refine .one (fun hr => ?_)
      fun _ => ⟨_, by simp only [Environment.call, hf, Run.result_fail], arguments, rfl, rfl⟩
    simp [Node.resolves, hf] at hr

end Decides

section Sequences

variable {env : Environment} {scope : Scope} {e : Element} {f : Formula} {fs : List Formula}
  {rest elements : List Element}

theorem nodesOfElements_signs (signs : List Operator) (elements : List Element) :
    nodesOfElements (signs.map .operator ++ elements) = nodesOfElements elements := by
  induction signs with
  | nil => rfl
  | cons s signs ih => exact ih

/-- The operands behind gaps, each with the sign of the signs in front of it. -/
def Row.IsTail (row : Row Float) : Prop :=
  ∃ tail : List (Operator × Signed Float),
    row = ⟨tail.map (·.2.value), tail.map (·.2.sign), tail.map (·.1)⟩

def Decided (env : Environment) (scope : Scope) (e : Element) : Prop :=
  e.isOperand = true → Decides env scope e.nodes (fun _ => True) (e.evaluate env scope)

theorem Terms.decides (h : Terms rest) (he : ∀ e ∈ rest, ∀ i, Decided (env.inside i) scope e)
    (i : Nat) :
    Decides env scope (nodesOfElements rest) Row.IsTail (nextOperands env scope i [] rest) := by
  induction h generalizing i with
  | nil => exact .pure ⟨[], rfl⟩
  | @cons signs e rest op hs ho ht ih =>
    have hn : nodesOfElements (.operator op :: (signs.map .operator ++ e :: rest)) =
        e.nodes ++ nodesOfElements rest := nodesOfElements_signs signs (e :: rest)
    rw [hn, nextOperands_term env scope hs ho]
    apply (he e (by simp) _ ho).inside.bind
    intro x _
    apply (ih (fun e' hm => he e' (by simp [hm])) _).map
    rintro _ ⟨tail, rfl⟩
    exact ⟨(op, ⟨Operator.runSign signs, x⟩) :: tail, rfl⟩

theorem Row.value_zip (x : Signed Float) (tail : List (Operator × Signed Float)) :
    ∃ value, (Row.zip [] x tail).value = pure value := by
  refine ⟨(fireAll Float.neg Operator.combine (x, tail)).1.resolve Float.neg, ?_⟩
  rw [Row.value, Row.reduce_zip (fireAll_nil (x, tail))]

theorem Plain.decides (h : Plain elements)
    (he : ∀ e ∈ elements, ∀ i, Decided (env.inside i) scope e) :
    Decides env scope (nodesOfElements elements) (fun _ => True) (do
      let row ← firstOperand env scope 0 [] elements
      row.value) := by
  cases h with
  | @mk signs e rest hs ho ht =>
    have hrow : Decides env scope (nodesOfElements (signs.map .operator ++ e :: rest))
        (fun row => ∃ x tail, row = Row.zip [] x tail)
        (firstOperand env scope 0 [] (signs.map .operator ++ e :: rest)) := by
      have hn : nodesOfElements (signs.map .operator ++ e :: rest) =
          e.nodes ++ nodesOfElements rest := nodesOfElements_signs signs (e :: rest)
      rw [hn, firstOperand_plain env scope hs ho]
      apply (he e (by simp) _ ho).inside.bind
      intro x _
      apply (ht.decides (fun e' hm => he e' (by simp [hm])) _).map
      rintro _ ⟨tail, rfl⟩
      exact ⟨⟨Operator.runSign signs, x⟩, tail, rfl⟩
    rw [← List.append_nil (nodesOfElements _)]
    apply hrow.bind
    rintro _ ⟨x, tail, rfl⟩
    obtain ⟨value, hv⟩ := Row.value_zip x tail
    rw [hv]
    exact .pure trivial

theorem Plain.structureFailure (h : Plain elements) : structureFailure elements = none := by
  have hv := h.findViolation
  cases elements with
  | nil => cases hv
  | cons e rest => rw [Calculator.structureFailure, hv, Option.map_none]

theorem Formula.Parsed.decides_of (h : f.Parsed scope)
    (he : ∀ e ∈ f.elements, ∀ i, Decided (env.inside i) scope e) :
    Decides env scope f.nodes (fun _ => True) (f.evaluate env) := by
  obtain ⟨scope', elements⟩ := f
  cases h.scope_eq
  have hs : Calculator.structureFailure elements = none := h.plain.structureFailure
  rw [Formula.evaluate, Formula.nodes, hs]
  exact h.plain.decides he

theorem decides_evaluateAll (h : ∀ f ∈ fs, ∀ i,
      Decides (env.inside i) scope f.nodes (fun _ => True) (f.evaluate (env.inside i)))
    (index : Nat) :
    Decides env scope (nodesOfArguments fs) (fun values => values.length = fs.length)
      (evaluateAll env index fs) := by
  induction fs generalizing index with
  | nil => exact .pure rfl
  | cons f fs ih =>
    rw [evaluateAll, nodesOfArguments]
    apply (h f List.mem_cons_self index).inside.bind
    intro value _
    apply (ih (fun g hg => h g (List.mem_cons_of_mem f hg)) (index + 1)).map
    intro values hl
    rw [List.length_cons, List.length_cons, hl]

theorem Element.Parsed.decided (hm : (env.mapping scope.mapping).Numeric)
    (ht : (env.context scope.context).functions.Total) (h : e.Parsed scope) :
    Decided env scope e := by
  induction h generalizing env with
  | @number x hx =>
    intro _
    simp only [Element.evaluate, Element.nodes]
    exact .pure trivial
  | operator op => exact fun ho => nomatch ho
  | @name name hn =>
    intro _
    rw [Element.evaluate, Element.nodes]
    exact decides_variable hm name
  | @call name fs hn hs hp he ih =>
    intro _
    rw [Element.evaluate, Element.nodes]
    have hargs : Decides env scope _ _ (evaluateAll env 0 fs) :=
      decides_evaluateAll (fun f hf i => Formula.Parsed.decides_of ⟨hs f hf, hp f hf, he f hf⟩
        fun e he _ => ih f hf e he hm ht) 0
    exact hargs.bind fun values hl => decides_call ht name hl
  | @group inner hs hp he ih =>
    intro _
    rw [Element.evaluate, Element.nodes]
    exact Formula.Parsed.decides_of ⟨hs, hp, he⟩ fun e he _ => ih e he hm ht

theorem Formula.Parsed.decides (hm : (env.mapping scope.mapping).Numeric)
    (ht : (env.context scope.context).functions.Total) (h : f.Parsed scope) :
    Decides env scope f.nodes (fun _ => True) (f.evaluate env) :=
  h.decides_of fun e he _ => (h.elements e he).decided hm ht

end Sequences

section Outcome

variable {env : Environment} {scope : Scope} {f : Formula} {text : String}

def onlyX : Environment where
  mapping _ := ⟨[("x", .number 1)]⟩
  context _ := { name := "g", functions := ⟨[(("g", 1), fun _ _ => .ok 0)]⟩ }
  draws _ := 0

theorem eq_of_onlyX_lookup {context : Nat} {name : String} {arity : Nat} {f : Function}
    (h : (onlyX.context context).functions.lookup name arity = some f) : f = fun _ _ => .ok 0 := by
  simp [onlyX, FunctionTable.lookup, Entries.get?] at h
  exact h.2.symm

theorem total_onlyX (context : Nat) : (onlyX.context context).functions.Total := by
  intro name arity f hf draw arguments _
  rw [eq_of_onlyX_lookup hf]
  exact ⟨0, rfl⟩

end Outcome

end Calculator
