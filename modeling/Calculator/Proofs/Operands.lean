import Calculator.Proofs.Progress
import Mathlib.Data.List.Forall2
/-!
Operands in turn. A plain sequence evaluates its operands from left to right, each of them once, and
only then combines their values, in a way that the operators alone decide (`Plain.exists_reading`).
-/
namespace Calculator

theorem Run.bind_assoc {α β γ : Type} (r : Run α) (f : α → Run β) (g : β → Run γ) :
    r >>= f >>= g = r >>= fun a => f a >>= g := by
  obtain ⟨events, result⟩ := r
  change Run.bind (Run.bind _ f) g = Run.bind _ fun a => Run.bind (f a) g
  cases result with
  | error failure => rfl
  | ok a =>
    simp only [Run.bind]
    cases (f a).result with
    | error failure => rfl
    | ok b => simp only [List.append_assoc]

theorem Run.pure_bind {α β : Type} (a : α) (f : α → Run β) : (pure a : Run α) >>= f = f a := rfl

/-- The values of the operands of a sequence, one after the other; its first element stands at the
index. -/
def evaluateOperands (env : Environment) (scope : Scope) (index : Nat) :
    List Element → Run (List Float)
  | [] => pure []
  | e :: rest =>
    if e.isOperand then do
      let x ← e.evaluate (env.inside index) scope
      let xs ← evaluateOperands env scope (index + 1) rest
      pure (x :: xs)
    else evaluateOperands env scope (index + 1) rest

/-- The same operator, or two operands. -/
inductive Element.Parallel : Element → Element → Prop
  | operator (op : Operator) : Element.Parallel (.operator op) (.operator op)
  | operand {e e' : Element} (he : e.isOperand = true) (he' : e'.isOperand = true) :
      Element.Parallel e e'

variable {env : Environment} {scope : Scope} {index : Nat} {e e' : Element} {op : Operator}
  {signs : List Operator} {elements elements' rest rest' : List Element}

section Parallels

theorem evaluateOperands_signs (env : Environment) (scope : Scope) (index : Nat)
    (signs : List Operator) (rest : List Element) :
    evaluateOperands env scope index (signs.map .operator ++ rest) =
      evaluateOperands env scope (index + signs.length) rest := by
  induction signs generalizing index with
  | nil => rfl
  | cons s signs ih =>
    have hlength : index + 1 + signs.length = index + (s :: signs).length :=
      Nat.add_right_comm index 1 signs.length
    exact hlength ▸ ih (index + 1)

theorem evaluateOperands_operand (he : e.isOperand = true) :
    evaluateOperands env scope index (e :: rest) = (do
      let x ← e.evaluate (env.inside index) scope
      let xs ← evaluateOperands env scope (index + 1) rest
      pure (x :: xs)) := by
  rw [evaluateOperands, if_pos he]

theorem Element.Parallel.refl (he : e.kind ≠ .comma) : e.Parallel e := by
  cases e with
  | operator op => exact .operator op
  | comma => exact absurd rfl he
  | _ => exact .operand rfl rfl

theorem forall₂_parallel_signs (h : List.Forall₂ Element.Parallel
    (signs.map .operator ++ elements) elements') : ∃ rest, elements' = signs.map .operator ++ rest ∧
      List.Forall₂ Element.Parallel elements rest := by
  induction signs generalizing elements' with
  | nil => exact ⟨elements', rfl, h⟩
  | cons s signs ih =>
    obtain ⟨e', more, hp, hmore, rfl⟩ := List.forall₂_cons_left_iff.1 h
    obtain ⟨rest, rfl, hrest⟩ := ih hmore
    cases hp with
    | operator => exact ⟨rest, rfl, hrest⟩
    | operand he => cases he

/-- What is parallel to signs and an operand begins with the same signs and with an operand. -/
theorem exists_operand_of_parallel (he : e.isOperand = true)
    (h : List.Forall₂ Element.Parallel (signs.map .operator ++ e :: rest) elements') :
    ∃ e' rest', elements' = signs.map .operator ++ e' :: rest' ∧ e'.isOperand = true ∧
      List.Forall₂ Element.Parallel rest rest' := by
  obtain ⟨more, rfl, hmore⟩ := forall₂_parallel_signs h
  obtain ⟨e', rest', hp, hrest, rfl⟩ := List.forall₂_cons_left_iff.1 hmore
  cases hp with
  | operator => cases he
  | operand _ he' => exact ⟨e', rest', rfl, he', hrest⟩

theorem exists_term_of_parallel (he : e.isOperand = true)
    (h : List.Forall₂ Element.Parallel (.operator op :: (signs.map .operator ++ e :: rest))
      elements') :
    ∃ e' rest', elements' = .operator op :: (signs.map .operator ++ e' :: rest') ∧
      e'.isOperand = true ∧ List.Forall₂ Element.Parallel rest rest' := by
  have hsigns : List.Forall₂ Element.Parallel ((op :: signs).map .operator ++ e :: rest) elements' :=
    h
  exact exists_operand_of_parallel he hsigns

theorem Terms.parallel (h : Terms rest) (hp : List.Forall₂ Element.Parallel rest rest') :
    Terms rest' := by
  induction h generalizing rest' with
  | nil =>
    cases hp
    exact .nil
  | cons op hs he ht ih =>
    obtain ⟨e', more, rfl, he', hp⟩ := exists_term_of_parallel he hp
    exact .cons op hs he' (ih hp)

theorem Plain.parallel (h : Plain elements)
    (hp : List.Forall₂ Element.Parallel elements elements') : Plain elements' := by
  cases h with
  | mk hs he ht =>
    obtain ⟨e', more, rfl, he', hp⟩ := exists_operand_of_parallel he hp
    exact .mk hs he' (ht.parallel hp)

theorem Plain.parallel_self (h : Plain elements) :
    List.Forall₂ Element.Parallel elements elements := by
  apply List.forall₂_same.2
  intro e he
  exact .refl (h.kind_ne_comma e he)

end Parallels

section Readings

/-- The operands behind gaps, with their values in turn. -/
theorem Terms.exists_tail (h : Terms rest) :
    ∃ tail : List Float → List (Operator × Signed Float),
      ∀ rest', List.Forall₂ Element.Parallel rest rest' → ∀ env scope i,
        nextOperands env scope i [] rest' = (do
          let xs ← evaluateOperands env scope i rest'
          pure ⟨(tail xs).map (·.2.value), (tail xs).map (·.2.sign), (tail xs).map (·.1)⟩) := by
  induction h with
  | nil =>
    refine ⟨fun _ => [], ?_⟩
    intro rest' hp env scope i
    cases hp
    rfl
  | @cons signs e rest op hs he ht ih =>
    obtain ⟨tail, htail⟩ := ih
    -- The operand of the term has the first of the values, the other terms have the rest of them.
    refine ⟨fun xs => (op, ⟨Operator.runSign signs, xs.headD 0⟩) :: tail xs.tail, ?_⟩
    intro rest' hp env scope i
    obtain ⟨e', more, rfl, he', hp⟩ := exists_term_of_parallel he hp
    have hoperands := evaluateOperands_signs env scope i (op :: signs) (e' :: more)
    have hlength : i + 1 + signs.length = i + (op :: signs).length :=
      Nat.add_right_comm i 1 signs.length
    rw [List.map_cons, List.cons_append, ← hlength] at hoperands
    rw [nextOperands_term env scope hs he', htail more hp, hoperands, evaluateOperands_operand he']
    simp only [Run.bind_assoc, Run.pure_bind]
    rfl

/-- The value of a plain sequence follows from those of its operands, evaluated in turn, in the same
way for all sequences that are parallel to it. -/
theorem Plain.exists_reading (h : Plain elements) :
    ∃ reading : List Float → Float,
      ∀ elements', List.Forall₂ Element.Parallel elements elements' → ∀ env scope,
        (Formula.mk scope elements').evaluate env = (do
          let xs ← evaluateOperands env scope 0 elements'
          pure (reading xs)) := by
  cases h with
  | @mk signs e rest hs he ht =>
    obtain ⟨tail, htail⟩ := ht.exists_tail
    choose value hvalue using Row.value_zip
    refine ⟨fun xs => value ⟨Operator.runSign signs, xs.headD 0⟩ (tail xs.tail), ?_⟩
    intro elements' hp env scope
    have hplain : Plain elements' := (Plain.mk hs he ht).parallel hp
    obtain ⟨e', more, rfl, he', hp⟩ := exists_operand_of_parallel he hp
    have hoperands := evaluateOperands_signs env scope 0 signs (e' :: more)
    rw [Formula.evaluate, hplain.structureFailure]
    simp only
    rw [firstOperand_plain env scope hs he', htail more hp, hoperands, evaluateOperands_operand he']
    simp only [Run.bind_assoc, Run.pure_bind]
    have hzip (x : Float) (xs : List Float) : Row.value
        ⟨x :: (tail xs).map (·.2.value), Operator.runSign signs :: (tail xs).map (·.2.sign),
          (tail xs).map (·.1)⟩ = pure (value ⟨Operator.runSign signs, x⟩ (tail xs)) :=
      hvalue ⟨Operator.runSign signs, x⟩ (tail xs)
    simp only [hzip]
    rfl

end Readings

end Calculator
