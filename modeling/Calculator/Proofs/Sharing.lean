import Calculator.Proofs.Parsed
/-!
Sharing. All formulas within a parsed one have its scope, so its evaluation reads one mapping and
one context (`Formula.Shared.evaluate_congr`).
-/
namespace Calculator

variable {scope : Scope} {e : Element} {f g : Formula} {elements : List Element}
  {fs : List Formula} {env env' : Environment} {text : String}

/-- The formula and what stands in it are of one scope. A formula without elements is, too. -/
structure Formula.Shared (scope : Scope) (f : Formula) : Prop where
  scope_eq : f.scope = scope
  elements : ∀ e ∈ f.elements, e.Parsed scope

theorem Formula.Parsed.shared (h : f.Parsed scope) : f.Shared scope := ⟨h.scope_eq, h.elements⟩

theorem Formula.Shared.within (h : f.Shared scope) (hg : g.Within f) : g.Shared scope := by
  induction hg with
  | refl => exact h
  | group hm hg ih => exact ih (h.elements _ hm).inner.shared
  | argument hm ha hg ih => exact ih ((h.elements _ hm).argument ha).shared

theorem shared_of_ofText (h : Formula.ofText scope text = .ok f) : f.Shared scope := by
  by_cases hb : text.toList.all Text.isBlank = true
  · obtain ⟨elements, hr, rfl⟩ := Formula.ofText_ok.1 h
    rw [readElements, if_pos hb] at hr
    cases hr
    exact ⟨rfl, List.forall_mem_nil _⟩
  · exact (parsed_of_ofText (Bool.eq_false_iff.2 hb) h).shared

/-- No function heeds the random number that it is given. -/
def FunctionTable.Pure (t : FunctionTable) : Prop :=
  ∀ name arity f, t.lookup name arity = some f →
    ∀ (draw draw' : Float) (arguments : List Float), f draw arguments = f draw' arguments

/-- The environments are the same as far as the scope goes; what is drawn is the same, too, if there
are functions that heed it. -/
structure Environment.Agree (scope : Scope) (env env' : Environment) : Prop where
  mapping : env.mapping scope.mapping = env'.mapping scope.mapping
  context : env.context scope.context = env'.context scope.context
  draws : (env'.context scope.context).functions.Pure ∨ env.draws = env'.draws

section Congruence

theorem Environment.Agree.inside (h : Environment.Agree scope env env') (i : Nat) :
    Environment.Agree scope (env.inside i) (env'.inside i) :=
  ⟨h.mapping, h.context,
    h.draws.imp_right (congrArg fun (draws : Draws) place => draws (i :: place))⟩

theorem Environment.Agree.value (h : Environment.Agree scope env env') (name : String) :
    env.value scope name = env'.value scope name := by
  rw [Environment.value, Environment.value, h.mapping, h.context]

theorem Environment.Agree.call (h : Environment.Agree scope env env') (name : String) :
    env.call scope name = env'.call scope name := by
  funext arguments
  rw [Environment.call, Environment.call, h.context]
  split
  · rfl
  · next f hf =>
    have happly : f (env.draws []) arguments = f (env'.draws []) arguments := by
      rcases h.draws with hp | hd
      · exact hp name _ f hf _ _ arguments
      · rw [hd]
    rw [happly]

theorem nextOperands_congr (h : ∀ e ∈ elements, ∀ i,
      e.evaluate (env.inside i) scope = e.evaluate (env'.inside i) scope)
    (i : Nat) (run : List Operator) :
    nextOperands env scope i run elements = nextOperands env' scope i run elements := by
  induction elements generalizing i run with
  | nil => rw [nextOperands, nextOperands]
  | cons e rest ih =>
    have hrest := ih fun e' he => h e' (List.mem_cons_of_mem e he)
    have he := h e List.mem_cons_self i
    cases e with
    | comma => rw [nextOperands, nextOperands]
    | operator op =>
      cases run with
      | nil => rw [nextOperands, nextOperands, hrest]
      | cons first signs => rw [nextOperands, nextOperands, hrest]
    | _ =>
      cases run with
      | nil => simp only [nextOperands]
      | cons combiner signs => rw [nextOperands_operand env scope rfl,
          nextOperands_operand env' scope rfl, he, hrest]

theorem firstOperand_congr (h : ∀ e ∈ elements, ∀ i,
      e.evaluate (env.inside i) scope = e.evaluate (env'.inside i) scope)
    (i : Nat) (run : List Operator) :
    firstOperand env scope i run elements = firstOperand env' scope i run elements := by
  induction elements generalizing i run with
  | nil => rw [firstOperand, firstOperand]
  | cons e rest ih =>
    have hrest : ∀ e' ∈ rest, ∀ i,
        e'.evaluate (env.inside i) scope = e'.evaluate (env'.inside i) scope :=
      fun e' he => h e' (List.mem_cons_of_mem e he)
    have he := h e List.mem_cons_self i
    cases e with
    | comma => rw [firstOperand, firstOperand]
    | operator op => rw [firstOperand, firstOperand, ih hrest]
    | _ => rw [firstOperand_operand env scope rfl, firstOperand_operand env' scope rfl, he,
        nextOperands_congr hrest]

theorem Formula.evaluate_congr (hs : f.scope = scope) (h : ∀ e ∈ f.elements, ∀ i,
      e.evaluate (env.inside i) scope = e.evaluate (env'.inside i) scope) :
    f.evaluate env = f.evaluate env' := by
  cases f with
  | mk scope' elements =>
    obtain rfl : scope' = scope := hs
    change ∀ e ∈ elements, ∀ i,
      e.evaluate (env.inside i) scope' = e.evaluate (env'.inside i) scope' at h
    rw [Formula.evaluate, Formula.evaluate, firstOperand_congr h]

theorem evaluateAll_congr
    (h : ∀ f ∈ fs, ∀ i, f.evaluate (env.inside i) = f.evaluate (env'.inside i)) (index : Nat) :
    evaluateAll env index fs = evaluateAll env' index fs := by
  induction fs generalizing index with
  | nil => rw [evaluateAll, evaluateAll]
  | cons f fs ih =>
    rw [evaluateAll, evaluateAll, h f List.mem_cons_self,
      ih fun g hg => h g (List.mem_cons_of_mem f hg)]

theorem Element.Parsed.evaluate_congr (h : e.Parsed scope) (ha : Environment.Agree scope env env') :
    e.evaluate env scope = e.evaluate env' scope := by
  induction h generalizing env env' with
  | number hx => rw [Element.evaluate, Element.evaluate]
  | operator op => rw [Element.evaluate, Element.evaluate]
  | name hn => rw [Element.evaluate, Element.evaluate, ha.value]
  | call hn hs hp he ih =>
    have hargs := evaluateAll_congr (fun f hf i => Formula.evaluate_congr (hs f hf) fun e hm j =>
      ih f hf e hm ((ha.inside i).inside j)) 0
    rw [Element.evaluate, Element.evaluate, hargs, ha.call]
  | group hs hp he ih =>
    have hinner := Formula.evaluate_congr hs fun e hm i => ih e hm (ha.inside i)
    rw [Element.evaluate, Element.evaluate, hinner]

/-- Whatever else the environments hold, the evaluation of a shared formula is the same. -/
theorem Formula.Shared.evaluate_congr (h : f.Shared scope) (ha : Environment.Agree scope env env') :
    f.evaluate env = f.evaluate env' :=
  Formula.evaluate_congr h.scope_eq fun e he i => (h.elements e he).evaluate_congr (ha.inside i)

end Congruence

end Calculator
