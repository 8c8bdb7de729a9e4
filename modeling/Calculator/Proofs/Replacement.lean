import Calculator.Proofs.Operands
import Calculator.Proofs.Sharing
import Calculator.Proofs.Tables
import Calculator.Proofs.Validity
/-!
Replacement of equals. An operand of a parsed formula, at whatever depth, may be replaced by one
that is evaluated alike, and the names by their values (`parse_replaces`): the formula stays valid
and its outcome is the same.
-/
namespace Calculator

/-- A failure without the names that were known, which the report of it lists in its text only. -/
def Failure.unlisted : Failure → Failure
  | .unknownVariable name _ => .unknownVariable name []
  | failure => failure

/-- What a run comes to, whatever names were known when it failed. -/
def Run.outcome {α : Type} (r : Run α) : Except Failure α := r.result.mapError Failure.unlisted

/-- The second formula is valid, and in its environment it comes to what the first one comes to if
the same is drawn for both. -/
structure Formula.Alike (env env' : Environment) (f f' : Formula) : Prop where
  isValid : f'.isValid = true
  outcome : ∀ draws, (f'.evaluate (env'.withDraws draws)).outcome =
    (f.evaluate (env.withDraws draws)).outcome

/-- The same operator, or operands that come to the same, the second one with valid formulas. -/
inductive Element.Alike (env env' : Environment) (scope : Scope) : Element → Element → Prop
  | operator (op : Operator) : Element.Alike env env' scope (.operator op) (.operator op)
  | operand {e e' : Element} (he : e.isOperand = true) (he' : e'.isOperand = true)
      (hv : e'.partsValid = true)
      (ho : ∀ draws, (e'.evaluate (env'.withDraws draws) scope).outcome =
        (e.evaluate (env.withDraws draws) scope).outcome) :
      Element.Alike env env' scope e e'

/-- The second formula is the first one with `e'` in the place of one `e`, at whatever depth. -/
inductive Replaced (e e' : Element) : Formula → Formula → Prop
  | here (scope : Scope) (before behind : List Element) :
      Replaced e e' (.mk scope (before ++ e :: behind)) (.mk scope (before ++ e' :: behind))
  | group (scope : Scope) (before behind : List Element) {inner inner' : Formula}
      (h : Replaced e e' inner inner') :
      Replaced e e' (.mk scope (before ++ .group inner :: behind))
        (.mk scope (before ++ .group inner' :: behind))
  | argument (scope : Scope) (before behind : List Element) (name : String) (fs gs : List Formula)
      {f f' : Formula} (h : Replaced e e' f f') :
      Replaced e e' (.mk scope (before ++ .call name (fs ++ f :: gs) :: behind))
        (.mk scope (before ++ .call name (fs ++ f' :: gs) :: behind))

mutual
/-- An element with `σ name` in the place of every variable. -/
def Element.substitute (σ : String → Element) : Element → Element
  | .number x => .number x
  | .operator op => .operator op
  | .group inner => .group (inner.substitute σ)
  | .call name arguments => .call name (substituteArguments σ arguments)
  | .variable name => σ name
  | .comma => .comma

def Formula.substitute (σ : String → Element) : Formula → Formula
  | .mk scope elements => .mk scope (substituteElements σ elements)

def substituteArguments (σ : String → Element) : List Formula → List Formula
  | [] => []
  | f :: rest => f.substitute σ :: substituteArguments σ rest

def substituteElements (σ : String → Element) : List Element → List Element
  | [] => []
  | e :: rest => e.substitute σ :: substituteElements σ rest
end

/-- What is looked up in the place of a node once the variables are substituted. -/
def Node.substitute (σ : String → Element) : Node → List Node
  | .variable name => (σ name).nodes
  | .call name arity => [.call name arity]

/-- A formula with a number in the place of every variable of the given name. -/
def Formula.withNumber (name : String) (x : Float) (f : Formula) : Formula :=
  f.substitute (Function.update Element.variable name (.number x))

variable {env env' : Environment} {scope : Scope} {e e' : Element} {f f' g : Formula}
  {fs fs' : List Formula} {elements elements' before behind : List Element} {name : String}
  {x : Float} {text : String} {draws : Draws}

section Outcomes

variable {α β : Type} {r r' : Run α} {a : α}

theorem Run.outcome_of_ok (h : r.result = .ok a) : r.outcome = .ok a := by
  rw [Run.outcome, h]
  rfl

theorem Run.outcome_bind {next next' : α → Run β} (h : r'.outcome = r.outcome)
    (hn : ∀ a, (next' a).outcome = (next a).outcome) :
    (r' >>= next').outcome = (r >>= next).outcome := by
  obtain ⟨events, result⟩ := r
  obtain ⟨events', result'⟩ := r'
  cases result with
  | ok a =>
    cases result' with
    | ok a' =>
      cases h
      exact hn a
    | error failure => cases h
  | error failure =>
    cases result' with
    | ok a' => cases h
    | error failure' =>
      have hfailure : failure'.unlisted = failure.unlisted := Except.error.inj h
      change Except.error failure'.unlisted = Except.error failure.unlisted
      rw [hfailure]

theorem Run.outcome_map (convert : α → β) (h : r'.outcome = r.outcome) :
    (r' >>= fun a => pure (convert a)).outcome = (r >>= fun a => pure (convert a)).outcome :=
  Run.outcome_bind h fun _ => rfl

end Outcomes

section Congruence

theorem Element.Alike.parallel (h : Element.Alike env env' scope e e') : e.Parallel e' := by
  cases h with
  | operator op => exact .operator op
  | operand he he' hv ho => exact .operand he he'

theorem Element.Alike.partsValid (h : Element.Alike env env' scope e e') :
    e'.partsValid = true := by
  cases h with
  | operator op => simp only [Element.partsValid]
  | operand he he' hv ho => exact hv

theorem outcome_evaluateOperands
    (h : List.Forall₂ (Element.Alike env env' scope) elements elements') (draws : Draws)
    (index : Nat) :
    (evaluateOperands (env'.withDraws draws) scope index elements').outcome =
      (evaluateOperands (env.withDraws draws) scope index elements).outcome := by
  induction h generalizing index with
  | nil => rfl
  | cons ha hr ih =>
    cases ha with
    | operator op => exact ih (index + 1)
    | operand he he' hv ho =>
      rw [evaluateOperands_operand he, evaluateOperands_operand he']
      apply Run.outcome_bind (ho fun place => draws (index :: place))
      intro x
      exact Run.outcome_map (x :: ·) (ih (index + 1))

/-- A plain sequence may be replaced operand by operand. -/
theorem Plain.alike (hp : Plain elements)
    (h : List.Forall₂ (Element.Alike env env' scope) elements elements') :
    Formula.Alike env env' (.mk scope elements) (.mk scope elements') where
  isValid := by
    have hparallel : List.Forall₂ Element.Parallel elements elements' :=
      h.imp fun _ _ ha => ha.parallel
    have hparts : ∀ e ∈ elements', e.partsValid = true := by
      clear hp hparallel
      induction h with
      | nil => exact List.forall_mem_nil _
      | cons ha hr ih => exact List.forall_mem_cons.2 ⟨ha.partsValid, ih⟩
    rw [Formula.isValid, (hp.parallel hparallel).findViolation, allPartsValid_iff.2 hparts]
    rfl
  outcome := by
    obtain ⟨reading, hreading⟩ := hp.exists_reading
    have hparallel : List.Forall₂ Element.Parallel elements elements' :=
      h.imp fun _ _ ha => ha.parallel
    -- One reading of the values serves both sequences, so only the operands have to be compared.
    intro draws
    rw [hreading elements hp.parallel_self, hreading elements' hparallel]
    exact Run.outcome_map reading (outcome_evaluateOperands h draws 0)

theorem Formula.Alike.group {inner inner' : Formula} (h : Formula.Alike env env' inner inner') :
    Element.Alike env env' scope (.group inner) (.group inner') := by
  apply Element.Alike.operand rfl rfl
  · rw [Element.partsValid]
    exact h.isValid
  · intro draws
    rw [Element.evaluate, Element.evaluate]
    exact h.outcome draws

theorem outcome_evaluateAll (h : List.Forall₂ (Formula.Alike env env') fs fs') (draws : Draws)
    (index : Nat) :
    (evaluateAll (env'.withDraws draws) index fs').outcome =
      (evaluateAll (env.withDraws draws) index fs).outcome := by
  induction h generalizing index with
  | nil => rfl
  | cons ha hr ih =>
    rw [evaluateAll, evaluateAll]
    apply Run.outcome_bind (ha.outcome fun place => draws (index :: place))
    intro x
    exact Run.outcome_map (x :: ·) (ih (index + 1))

theorem Formula.Alike.call (hc : env'.context scope.context = env.context scope.context)
    (h : List.Forall₂ (Formula.Alike env env') fs fs') :
    Element.Alike env env' scope (.call name fs) (.call name fs') := by
  apply Element.Alike.operand rfl rfl
  · rw [Element.partsValid, allValid_iff]
    induction h with
    | nil => exact List.forall_mem_nil _
    | cons ha hr ih => exact List.forall_mem_cons.2 ⟨ha.isValid, ih⟩
  · intro draws
    rw [Element.evaluate, Element.evaluate]
    apply Run.outcome_bind (outcome_evaluateAll h draws 0)
    intro values
    have hcall : (env'.withDraws draws).context scope.context =
        (env.withDraws draws).context scope.context := hc
    rw [Environment.call, Environment.call, hcall]
    rfl

theorem Formula.Parsed.isValid (h : f.Parsed scope) : f.isValid = true := by
  apply Formula.isValid_iff_within.2
  intro g hg
  exact (h.within hg).plain.findViolation

theorem Formula.Parsed.alike_self (h : f.Parsed scope) : Formula.Alike env env f f :=
  ⟨h.isValid, fun _ => rfl⟩

theorem Element.Parsed.alike_self (h : e.Parsed scope) : Element.Alike env env scope e e := by
  cases h with
  | number hx => exact .operand rfl rfl (by simp only [Element.partsValid]) fun _ => rfl
  | operator op => exact .operator op
  | name hn => exact .operand rfl rfl (by simp only [Element.partsValid]) fun _ => rfl
  | call hn hs hp he =>
    apply Formula.Alike.call rfl
    apply List.forall₂_same.2
    intro f hf
    exact Formula.Parsed.alike_self ⟨hs f hf, hp f hf, he f hf⟩
  | group hs hp he => exact (Formula.Parsed.alike_self ⟨hs, hp, he⟩).group

end Congruence

section Single

/-- Every element can be replaced, wherever it stands. -/
theorem Formula.Within.exists_replaced (h : g.Within f) (he : e ∈ g.elements) (e' : Element) :
    ∃ f', Replaced e e' f f' := by
  induction h with
  | refl =>
    obtain ⟨scope, elements⟩ := g
    obtain ⟨before, behind, rfl⟩ := List.append_of_mem he
    exact ⟨_, .here scope before behind⟩
  | @group f inner hm hg ih =>
    obtain ⟨scope, elements⟩ := f
    obtain ⟨before, behind, rfl⟩ := List.append_of_mem hm
    obtain ⟨inner', hr⟩ := ih
    exact ⟨_, .group scope before behind hr⟩
  | @argument f argument name arguments hm ha hg ih =>
    obtain ⟨scope, elements⟩ := f
    obtain ⟨before, behind, rfl⟩ := List.append_of_mem hm
    obtain ⟨fs, gs, rfl⟩ := List.append_of_mem ha
    obtain ⟨f', hr⟩ := ih
    exact ⟨_, .argument scope before behind name fs gs hr⟩

theorem Formula.Parsed.alike_middle (h : (Formula.mk scope (before ++ e :: behind)).Parsed scope)
    (ha : Element.Alike env env scope e e') :
    Formula.Alike env env (.mk scope (before ++ e :: behind))
      (.mk scope (before ++ e' :: behind)) := by
  apply h.plain.alike
  have hself (part : List Element) (hm : part ⊆ before ++ e :: behind) :
      List.Forall₂ (Element.Alike env env scope) part part :=
    List.forall₂_same.2 fun e he => (h.elements e (hm he)).alike_self
  have hbefore := hself before (List.subset_append_left _ _)
  have hbehind := hself behind fun e he =>
    List.mem_append_right before (List.mem_cons_of_mem _ he)
  exact List.rel_append hbefore (.cons ha hbehind)

/-- What comes to the same takes the place of an operand, whatever stands around it. -/
theorem Replaced.alike (h : Replaced e e' f f') (hf : f.Parsed scope)
    (ha : e.Parsed scope → Element.Alike env env scope e e') : Formula.Alike env env f f' := by
  induction h with
  | here scope' before behind =>
    cases hf.scope_eq
    exact hf.alike_middle (ha (hf.elements e (by simp [Formula.elements])))
  | @group scope' before behind inner inner' hr ih =>
    cases hf.scope_eq
    have hinner : inner.Parsed scope' := (hf.elements _ (by simp [Formula.elements])).inner
    exact hf.alike_middle (ih hinner).group
  | @argument scope' before behind name fs gs f f' hr ih =>
    cases hf.scope_eq
    have hargument (g : Formula) (hg : g ∈ fs ++ f :: gs) : g.Parsed scope' :=
      (hf.elements (.call name (fs ++ f :: gs)) (by simp [Formula.elements])).argument hg
    have hself (part : List Formula) (hm : part ⊆ fs ++ f :: gs) :
        List.Forall₂ (Formula.Alike env env) part part :=
      List.forall₂_same.2 fun g hg => (hargument g (hm hg)).alike_self
    have hfs := hself fs (List.subset_append_left _ _)
    have hgs := hself gs fun g hg => List.mem_append_right fs (List.mem_cons_of_mem _ hg)
    apply hf.alike_middle
    apply Formula.Alike.call rfl
    exact List.rel_append hfs (.cons (ih (hargument f (by simp))) hgs)

/-- Where no function heeds what is drawn, an operand has its value whatever this is. -/
theorem Element.Parsed.result_withDraws (h : e.Parsed scope)
    (hp : (env.context scope.context).functions.Pure)
    (hx : (e.evaluate env scope).result = .ok x) (draws : Draws) :
    (e.evaluate (env.withDraws draws) scope).result = .ok x := by
  have hagree : Environment.Agree scope (env.withDraws draws) env := ⟨rfl, rfl, .inl hp⟩
  rw [h.evaluate_congr hagree, hx]

theorem alike_number (he : e.isOperand = true)
    (hx : ∀ draws, (e.evaluate (env.withDraws draws) scope).result = .ok x) :
    Element.Alike env env' scope e (.number x) := by
  apply Element.Alike.operand he rfl (by simp only [Element.partsValid])
  intro draws
  rw [Element.evaluate, Run.outcome_of_ok (hx draws)]
  rfl

theorem evaluate_singleton (he : e.isOperand = true)
    (hx : (e.evaluate (env.inside 0) scope).result = .ok x) :
    ((Formula.mk scope [e]).evaluate env).result = .ok x := by
  have hp : Plain [e] := .mk .nil he .nil
  rw [Formula.evaluate, hp.structureFailure]
  simp only
  rw [firstOperand_operand env scope he, Run.bind_assoc, Run.bind_ok hx]
  rfl

theorem Element.Parsed.alike_group (h : e.Parsed scope) (he : e.isOperand = true)
    (hx : ∀ draws, (e.evaluate (env.withDraws draws) scope).result = .ok x) :
    Element.Alike env env scope e (.group (.mk scope [e])) := by
  have hp : (Formula.mk scope [e]).Parsed scope :=
    ⟨rfl, .mk .nil he .nil, List.forall_mem_singleton.2 h⟩
  apply Element.Alike.operand he rfl
  · rw [Element.partsValid]
    exact hp.isValid
  · intro draws
    have hinner : (e.evaluate ((env.withDraws draws).inside 0) scope).result = .ok x := hx _
    rw [Element.evaluate, Run.outcome_of_ok (hx draws),
      Run.outcome_of_ok (evaluate_singleton he hinner)]

end Single

section Substitution

variable {σ : String → Element}

theorem substituteElements_eq_map (σ : String → Element) (elements : List Element) :
    substituteElements σ elements = elements.map (Element.substitute σ) := by
  induction elements with
  | nil => rfl
  | cons e rest ih => rw [substituteElements, ih, List.map_cons]

theorem substituteArguments_eq_map (σ : String → Element) (fs : List Formula) :
    substituteArguments σ fs = fs.map (Formula.substitute σ) := by
  induction fs with
  | nil => rfl
  | cons f rest ih => rw [substituteArguments, ih, List.map_cons]

theorem nodesOfElements_eq_flatMap (elements : List Element) :
    nodesOfElements elements = elements.flatMap Element.nodes := by
  induction elements with
  | nil => rfl
  | cons e rest ih => rw [nodesOfElements, ih, List.flatMap_cons]

theorem nodesOfArguments_eq_flatMap (fs : List Formula) :
    nodesOfArguments fs = fs.flatMap Formula.nodes := by
  induction fs with
  | nil => rfl
  | cons f rest ih => rw [nodesOfArguments, ih, List.flatMap_cons]

theorem Formula.nodes_eq_flatMap (f : Formula) : f.nodes = f.elements.flatMap Element.nodes := by
  obtain ⟨scope, elements⟩ := f
  rw [Formula.nodes, nodesOfElements_eq_flatMap]
  rfl

theorem Formula.Parsed.alike_substitute_of (h : f.Parsed scope)
    (he : ∀ e ∈ f.elements, Element.Alike env env' scope e (e.substitute σ)) :
    Formula.Alike env env' f (f.substitute σ) := by
  obtain ⟨scope', elements⟩ := f
  cases h.scope_eq
  rw [Formula.substitute, substituteElements_eq_map]
  apply h.plain.alike
  apply List.forall₂_map_right_iff.2
  exact List.forall₂_same.2 he

/-- Variables may be replaced by operands that come to the same. -/
theorem Element.Parsed.alike_substitute (h : e.Parsed scope)
    (hc : env'.context scope.context = env.context scope.context)
    (hσ : ∀ name, .variable name ∈ e.nodes →
      Element.Alike env env' scope (.variable name) (σ name)) :
    Element.Alike env env' scope e (e.substitute σ) := by
  induction h with
  | number hx =>
    rw [Element.substitute]
    exact .operand rfl rfl (by simp only [Element.partsValid]) fun _ => rfl
  | operator op =>
    rw [Element.substitute]
    exact .operator op
  | @name name hn =>
    rw [Element.substitute]
    apply hσ
    rw [Element.nodes]
    exact List.mem_singleton_self _
  | @call name fs hn hs hp he ih =>
    rw [Element.substitute, substituteArguments_eq_map]
    rw [Element.nodes, nodesOfArguments_eq_flatMap] at hσ
    apply Formula.Alike.call hc
    apply List.forall₂_map_right_iff.2
    apply List.forall₂_same.2
    intro f hf
    apply Formula.Parsed.alike_substitute_of ⟨hs f hf, hp f hf, he f hf⟩
    intro e hm
    apply ih f hf e hm
    intro name hnode
    have hformula : .variable name ∈ f.nodes := by
      rw [Formula.nodes_eq_flatMap]
      exact List.mem_flatMap_of_mem hm hnode
    exact hσ name (List.mem_append_left _ (List.mem_flatMap_of_mem hf hformula))
  | @group inner hs hp he ih =>
    rw [Element.substitute]
    rw [Element.nodes, Formula.nodes_eq_flatMap] at hσ
    apply Formula.Alike.group
    apply Formula.Parsed.alike_substitute_of ⟨hs, hp, he⟩
    intro e hm
    apply ih e hm
    intro name hnode
    exact hσ name (List.mem_flatMap_of_mem hm hnode)

theorem Formula.Parsed.alike_substitute (h : f.Parsed scope)
    (hc : env'.context scope.context = env.context scope.context)
    (hσ : ∀ name, .variable name ∈ f.nodes →
      Element.Alike env env' scope (.variable name) (σ name)) :
    Formula.Alike env env' f (f.substitute σ) := by
  rw [Formula.nodes_eq_flatMap] at hσ
  apply h.alike_substitute_of
  intro e hm
  apply (h.elements e hm).alike_substitute hc
  intro name hnode
  exact hσ name (List.mem_flatMap_of_mem hm hnode)

/-- Variables that stand for themselves change nothing. -/
theorem Formula.substitute_variable (f : Formula) : f.substitute .variable = f := by
  induction f using Formula.induct with
  | h f ih =>
    obtain ⟨scope, elements⟩ := f
    have helement (e : Element) (he : e ∈ elements) : e.substitute .variable = e := by
      cases e with
      | group inner => rw [Element.substitute, ih _ he inner List.mem_cons_self]
      | call name fs =>
        have hparts : ∀ part ∈ fs, part.substitute .variable = part := ih _ he
        rw [Element.substitute, substituteArguments_eq_map, List.map_congr_left hparts, List.map_id']
      | _ => rw [Element.substitute]
    rw [Formula.substitute, substituteElements_eq_map, List.map_congr_left helement, List.map_id']

theorem Formula.nodes_substitute (σ : String → Element) (f : Formula) :
    (f.substitute σ).nodes = f.nodes.flatMap (Node.substitute σ) := by
  induction f using Formula.induct with
  | h f ih =>
    obtain ⟨scope, elements⟩ := f
    rw [Formula.substitute, substituteElements_eq_map, Formula.nodes_eq_flatMap,
      Formula.nodes_eq_flatMap, Formula.elements, Formula.elements, List.flatMap_map,
      List.flatMap_assoc]
    apply List.flatMap_congr
    intro e he
    cases e with
    | «variable» name => simp [Element.substitute, Element.nodes, Node.substitute]
    | group inner =>
      have hinner := ih _ he inner List.mem_cons_self
      simp only [Element.substitute, Element.nodes, hinner]
    | call name fs =>
      have hparts : ∀ part ∈ fs, (part.substitute σ).nodes =
          part.nodes.flatMap (Node.substitute σ) := ih _ he
      simp [Element.substitute, Element.nodes, Node.substitute, substituteArguments_eq_map,
        nodesOfArguments_eq_flatMap, List.flatMap_map, List.flatMap_assoc,
        List.flatMap_congr hparts]
    | _ => simp only [Element.substitute, Element.nodes, List.flatMap_nil]

/-- All nodes stay but the variables of the name: a function of that name is called as before. -/
theorem Formula.nodes_withNumber (name : String) (x : Float) (f : Formula) :
    (f.withNumber name x).nodes = f.nodes.filter (· ≠ .variable name) := by
  rw [Formula.withNumber, Formula.nodes_substitute]
  induction f.nodes with
  | nil => rfl
  | cons n rest ih =>
    rw [List.flatMap_cons, ih]
    cases n with
    | call callee arity => simp [Node.substitute]
    | «variable» y =>
      by_cases hy : y = name
      · simp [Node.substitute, hy, Element.nodes]
      · simp [Node.substitute, hy, Element.nodes]

theorem VariableMap.get?_erase {y : String} (h : y ≠ name) (m : VariableMap) :
    (m.erase name).get? y = m.get? y :=
  Entries.get?_filter fun _ => by simp [h]

theorem VariableMap.get?_set {y : String} (h : y ≠ name) (m : VariableMap) (value : Datum) :
    (m.set name value).get? y = m.get? y := by
  rw [VariableMap.get?, VariableMap.set, Entries.get?_put, if_neg h.symm]
  rfl

/-- A variable comes to the same where the mapping has the same for it. -/
theorem alike_variable (hc : env'.context scope.context = env.context scope.context)
    (hm : (env'.mapping scope.mapping).get? name = (env.mapping scope.mapping).get? name) :
    Element.Alike env env' scope (.variable name) (.variable name) := by
  apply Element.Alike.operand rfl rfl (by simp only [Element.partsValid])
  intro draws
  have hmapping : ((env'.withDraws draws).mapping scope.mapping).get? name =
      ((env.withDraws draws).mapping scope.mapping).get? name := hm
  have hcontext : (env'.withDraws draws).context scope.context =
      (env.withDraws draws).context scope.context := hc
  rw [Element.evaluate, Element.evaluate, Environment.value, Environment.value, hmapping, hcontext]
  split
  · split <;> rfl
  · split <;> rfl

end Substitution

section Outcome

/-- The mapping of the scope is the one of `env` without the name, or with another value for it. -/
def Rebound (env env' : Environment) (scope : Scope) (name : String) : Prop :=
  env'.mapping scope.mapping = (env.mapping scope.mapping).erase name ∨
    ∃ value, env'.mapping scope.mapping = (env.mapping scope.mapping).set name value

theorem Rebound.get? (h : Rebound env env' scope name) {y : String} (hy : y ≠ name) :
    (env'.mapping scope.mapping).get? y = (env.mapping scope.mapping).get? y := by
  rcases h with h | ⟨value, h⟩
  · rw [h, VariableMap.get?_erase hy]
  · rw [h, VariableMap.get?_set hy]

theorem Formula.Parsed.alike_withNumber (h : f.Parsed scope)
    (hv : env.value scope name = .ok x)
    (hc : env'.context scope.context = env.context scope.context)
    (hm : Rebound env env' scope name) : Formula.Alike env env' f (f.withNumber name x) := by
  apply h.alike_substitute hc
  intro y _
  by_cases hy : y = name
  · subst hy
    rw [Function.update_self]
    apply alike_number rfl
    intro draws
    rw [Element.evaluate]
    exact hv
  · rw [Function.update_of_ne hy]
    exact alike_variable hc (hm.get? hy)

/-- What may be replaced in a formula without a change of what it comes to: any operand that has a
value, by the number or by parentheses around it, if no function heeds what is drawn; all variables
of a name that has one, whatever the mapping has for the name then; and the mapping, by one with the
same for the names of the formula. -/
structure Replaces (env : Environment) (scope : Scope) (f : Formula) : Prop where
  single {e e' : Element} {x : Float} {f' : Formula} (he : e.isOperand = true)
    (hpure : (env.context scope.context).functions.Pure)
    (hx : (e.evaluate env scope).result = .ok x)
    (he' : e' = .number x ∨ e' = .group (.mk scope [e])) (hr : Replaced e e' f f') :
    Formula.Alike env env f f'
  everywhere {g : Formula} (hg : g.Within f) (e : Element) (he : e ∈ g.elements) (e' : Element) :
    ∃ f', Replaced e e' f f'
  name {name : String} {x : Float} {env' : Environment} (hv : env.value scope name = .ok x)
    (hc : env'.context scope.context = env.context scope.context)
    (hm : Rebound env env' scope name) :
    Formula.Alike env env' f (f.withNumber name x) ∧
      (f.withNumber name x).nodes = f.nodes.filter (· ≠ .variable name)
  mapping {env' : Environment} (hc : env'.context scope.context = env.context scope.context)
    (hm : ∀ name, .variable name ∈ f.nodes →
      (env'.mapping scope.mapping).get? name = (env.mapping scope.mapping).get? name)
    (draws : Draws) :
    (f.evaluate (env'.withDraws draws)).outcome = (f.evaluate (env.withDraws draws)).outcome

/-- In a formula that a text is read as, equals may be replaced by equals. -/
theorem parse_replaces (hb : text.toList.all Text.isBlank = false)
    (hp : (Formula.parse scope text).result = .ok f) (env : Environment) :
    Replaces env scope f := by
  have h : f.Parsed scope := parsed_of_parse hb hp
  constructor
  case single =>
    intro e e' x f' he hpure hx he' hr
    apply hr.alike h
    intro hparsed
    have hdraws := hparsed.result_withDraws hpure hx
    rcases he' with rfl | rfl
    · exact alike_number he hdraws
    · exact hparsed.alike_group he hdraws
  case everywhere =>
    intro g hg e he e'
    exact hg.exists_replaced he e'
  case name =>
    intro name x env' hv hc hm
    exact ⟨h.alike_withNumber hv hc hm, f.nodes_withNumber name x⟩
  case mapping =>
    intro env' hc hm draws
    -- The other mapping serves for the formula with each variable in its own place.
    have halike : Formula.Alike env env' f (f.substitute .variable) := by
      apply h.alike_substitute hc
      intro name hname
      exact alike_variable hc (hm name hname)
    rw [← halike.outcome draws, f.substitute_variable]

def squareOfArgument : List Token :=
  [⟨.identifier, ['g'], 0⟩, ⟨.opening, ['('], 1⟩, ⟨.identifier, ['x'], 2⟩, ⟨.operator, ['*'], 3⟩,
    ⟨.identifier, ['x'], 4⟩, ⟨.closing, [')'], 5⟩]

def withoutX : Environment := { onlyX with mapping _ := .empty }

/-- In `g(x*x)` either `x` may be put in parentheses, and both may be replaced by their value, which
then need not be in the mapping. -/
theorem parse_replaces_square :
    ∃ f, (Formula.parse ⟨0, 0⟩ "g(x*x)").result = .ok f ∧
      Formula.Alike onlyX onlyX f (.mk ⟨0, 0⟩ [.call "g" [.mk ⟨0, 0⟩
        [.variable "x", .operator .multiply, .group (.mk ⟨0, 0⟩ [.variable "x"])]]]) ∧
      Formula.Alike onlyX withoutX f (.mk ⟨0, 0⟩ [.call "g" [.mk ⟨0, 0⟩
        [.number 1, .operator .multiply, .number 1]]]) := by
  have hb : "g(x*x)".toList.all Text.isBlank = false := by decide
  have hs : scan "g(x*x)".toList = .ok (squareOfArgument ++ [.atEnd 6]) := by decide +kernel
  have hx : IsFormula ⟨0, 0⟩ false [⟨.identifier, ['x'], 2⟩] [.variable "x"] :=
    .start .nil (.variable rfl)
  have hsquare : IsFormula ⟨0, 0⟩ false
      [⟨.identifier, ['x'], 2⟩, ⟨.operator, ['*'], 3⟩, ⟨.identifier, ['x'], 4⟩]
      [.variable "x", .operator .multiply, .variable "x"] :=
    .term hx ⟨rfl, rfl⟩ .nil (.variable rfl)
  have hf : IsFormula ⟨0, 0⟩ false squareOfArgument
      [.call "g" [.mk ⟨0, 0⟩ [.variable "x", .operator .multiply, .variable "x"]]] :=
    .start .nil (.call rfl rfl (.one hsquare) rfl)
  have hp := hf.parse hb hs
  have hv : onlyX.value ⟨0, 0⟩ "x" = .ok 1 := rfl
  have hvariable : ((Element.variable "x").evaluate onlyX ⟨0, 0⟩).result = .ok 1 := by
    rw [Element.evaluate]
    exact hv
  have hlast : Replaced (.variable "x") (.group (.mk ⟨0, 0⟩ [.variable "x"]))
      (.mk ⟨0, 0⟩ [.variable "x", .operator .multiply, .variable "x"])
      (.mk ⟨0, 0⟩ [.variable "x", .operator .multiply, .group (.mk ⟨0, 0⟩ [.variable "x"])]) :=
    .here ⟨0, 0⟩ [.variable "x", .operator .multiply] []
  have hm : Rebound onlyX withoutX ⟨0, 0⟩ "x" := by
    left
    simp [withoutX, onlyX, VariableMap.erase, VariableMap.empty, Entries.erase]
  have hc : withoutX.context 0 = onlyX.context 0 := rfl
  have hpure : (onlyX.context 0).functions.Pure := by
    intro name arity f hf draw draw' arguments
    rw [eq_of_onlyX_lookup hf]
  have hreplaces := parse_replaces hb hp onlyX
  have hsingle := hreplaces.single rfl hpure hvariable (.inr rfl)
    (.argument ⟨0, 0⟩ [] [] "g" [] [] hlast)
  have hname := (hreplaces.name hv hc hm).1
  simp only [Formula.withNumber, Formula.substitute, substituteElements, Element.substitute,
    substituteArguments, Function.update_self] at hname
  exact ⟨_, hp, hsingle, hname⟩

end Outcome

end Calculator
