import Calculator.Evaluation
import Mathlib.Data.List.Chain
/-!
Sequences of elements without implicit products: signs and an operand, then terms that each begin
with an operator. `Plain.of_findViolation` finds the shape in a sequence that keeps the rules of
adjacency, and the equations of `firstOperand` and `nextOperands` follow it.
-/
namespace Calculator

variable {elements rest : List Element} {e previous : Element} {op : Operator}
  {run signs : List Operator} {i : Nat}

theorem Operator.isSign_iff : op.isSign = true ↔ op = .add ∨ op = .subtract := by
  cases op <;> simp [isSign, sign?]

/-- The signs are `+` and `-`. -/
def AllSigns (run : List Operator) : Prop := ∀ op ∈ run, op = .add ∨ op = .subtract

theorem AllSigns.nil : AllSigns [] := by
  intro op hm
  cases hm

theorem AllSigns.cons (hs : op.isSign = true) (h : AllSigns run) : AllSigns (op :: run) := by
  intro op' hm
  rcases List.mem_cons.1 hm with hm | hm
  · rw [hm]; exact Operator.isSign_iff.1 hs
  · exact h op' hm

theorem AllSigns.head (h : AllSigns (op :: run)) : op.isSign = true :=
  Operator.isSign_iff.2 (h op List.mem_cons_self)

theorem AllSigns.tail (h : AllSigns (op :: run)) : AllSigns run :=
  fun op' hm => h op' (List.mem_cons_of_mem op hm)

/-- Operands, each behind an operator and the signs that follow the operator. -/
inductive Terms : List Element → Prop
  | nil : Terms []
  | cons {signs : List Operator} {e : Element} {rest : List Element} (op : Operator)
      (hs : AllSigns signs) (he : e.isOperand = true) (ht : Terms rest) :
      Terms (.operator op :: (signs.map .operator ++ e :: rest))

/-- Signs and an operand in front of terms. -/
inductive Plain : List Element → Prop
  | mk {signs : List Operator} {e : Element} {rest : List Element} (hs : AllSigns signs)
      (he : e.isOperand = true) (ht : Terms rest) : Plain (signs.map .operator ++ e :: rest)

def NoBareGroup (elements : List Element) : Prop :=
  elements.IsChain fun e next => next.kind = .group → e.kind ≠ .number ∧ e.kind ≠ .group

theorem Plain.ne_nil (h : Plain elements) : elements ≠ [] := by
  cases h with
  | mk hs he ht => simp

theorem Plain.sign (hs : op.isSign = true) (h : Plain elements) :
    Plain (.operator op :: elements) := by
  cases h with
  | mk hs' he ht => exact .mk (hs'.cons hs) he ht

theorem Plain.terms (op : Operator) (h : Plain elements) : Terms (.operator op :: elements) := by
  cases h with
  | mk hs he ht => exact .cons op hs he ht

theorem Terms.append_term (op : Operator) (hs : AllSigns signs) (he : e.isOperand = true)
    (h : Terms rest) : Terms (rest ++ .operator op :: (signs.map .operator ++ [e])) := by
  induction h with
  | nil => exact .cons op hs he .nil
  | cons op' hs' he' ht ih => simpa using Terms.cons op' hs' he' ih

theorem Plain.append_term (op : Operator) (hs : AllSigns signs) (he : e.isOperand = true)
    (h : Plain elements) : Plain (elements ++ .operator op :: (signs.map .operator ++ [e])) := by
  cases h with
  | mk hs' he' ht => simpa using Plain.mk hs' he' (ht.append_term op hs he)

theorem kind_ne_comma_of_isOperand (he : e.isOperand = true) : e.kind ≠ .comma := by
  cases e with
  | comma => cases he
  | _ => exact (nomatch ·)

theorem Terms.kind_ne_comma (h : Terms rest) : ∀ e ∈ rest, e.kind ≠ .comma := by
  induction h with
  | nil => exact List.forall_mem_nil _
  | cons op hs he ht ih =>
    intro e' hm
    simp only [List.mem_cons, List.mem_append, List.mem_map] at hm
    rcases hm with rfl | ⟨op', _, rfl⟩ | rfl | hm
    · exact (nomatch ·)
    · exact (nomatch ·)
    · exact kind_ne_comma_of_isOperand he
    · exact ih e' hm

theorem Plain.kind_ne_comma (h : Plain elements) : ∀ e ∈ elements, e.kind ≠ .comma := by
  intro e hm
  exact (h.terms .add).kind_ne_comma e (List.mem_cons_of_mem _ hm)

/-- Between two operands that may be neighbours stands a group behind a number or a group. -/
theorem allows_operand (hp : previous.isOperand = true) (he : e.isOperand = true)
    (ha : previous.allows e = true) :
    e.kind = .group ∧ (previous.kind = .number ∨ previous.kind = .group) := by
  cases previous <;> cases e <;>
    simp [Element.isOperand, Element.allows, Element.kind, Kind.successors] at hp he ha ⊢

theorem allows_of_canStart (hp : previous.kind = .operator ∨ previous.kind = .comma)
    (he : e.canStart = true) : previous.allows e = true := by
  rcases hp with hp | hp <;> cases previous <;> cases e <;>
    simp_all [Element.allows, Element.kind, Kind.successors, Element.canStart]

theorem canStart_of_isOperand (he : e.isOperand = true) : e.canStart = true := by
  cases e with
  | operator => cases he
  | comma => cases he
  | _ => rfl

theorem allows_behind_operand (hp : previous.isOperand = true)
    (he : e.kind = .operator ∨ e.kind = .comma) : previous.allows e = true := by
  cases previous <;> cases e <;>
    simp_all [Element.allows, Element.kind, Kind.successors, Element.isOperand]

theorem findViolationAfter_cons (h : findViolationAfter previous i (e :: rest) = none) :
    e.kind ≠ .comma ∧ previous.allows e = true ∧ findViolationAfter e (i + 1) rest = none := by
  cases e with
  | comma => cases h
  | _ =>
    simp only [findViolationAfter] at h
    split at h
    · next ha => exact ⟨by simp [Element.kind], ha, h⟩
    · cases h

theorem isOperand_or_operator (he : e.kind ≠ .comma) :
    e.isOperand = true ∨ ∃ op, e = .operator op := by
  cases e with
  | operator op => exact .inr ⟨op, rfl⟩
  | comma => exact absurd rfl he
  | _ => exact .inl rfl

theorem exists_operator_of_kind (h : e.kind = .operator) : ∃ op, e = .operator op := by
  cases e with
  | operator op => exact ⟨op, rfl⟩
  | _ => cases h

/-- What may follow without a violation: terms behind an operand, and the rest of a plain sequence
behind an operator. -/
theorem plain_of_findViolationAfter (h : findViolationAfter previous i rest = none)
    (hb : NoBareGroup (previous :: rest)) :
    (previous.isOperand = true → Terms rest) ∧ (previous.kind = .operator → Plain rest) := by
  induction rest generalizing previous i with
  | nil =>
    refine ⟨fun _ => .nil, fun hk => ?_⟩
    obtain ⟨op, hp⟩ := exists_operator_of_kind hk
    rw [hp] at h
    cases h
  | cons e rest ih =>
    obtain ⟨hc, ha, hr⟩ := findViolationAfter_cons h
    obtain ⟨hbe, hbr⟩ := List.isChain_cons_cons.1 hb
    obtain ⟨iht, ihp⟩ := ih hr hbr
    refine ⟨fun hp => ?_, fun hk => ?_⟩
    · cases e with
      | operator op => exact (ihp rfl).terms op
      | comma => exact absurd rfl hc
      | _ =>
        obtain ⟨hg, hn⟩ := allows_operand hp rfl ha
        rcases hn with hn | hn
        · exact absurd hn (hbe hg).1
        · exact absurd hn (hbe hg).2
    · cases e with
      | operator op =>
        obtain ⟨op', hp⟩ := exists_operator_of_kind hk
        rw [hp] at ha
        exact (ihp rfl).sign ha
      | comma => exact absurd rfl hc
      | _ => exact .mk .nil rfl (iht rfl)

/-- A sequence that keeps the rules of adjacency and has no bare group is plain. -/
theorem Plain.of_findViolation (h : findViolation elements = none)
    (hb : NoBareGroup elements) : Plain elements := by
  cases elements with
  | nil => cases h
  | cons e rest =>
    simp only [findViolation] at h
    split at h
    · next hc =>
      obtain ⟨ht, hp⟩ := plain_of_findViolationAfter h hb
      cases e with
      | operator op => exact (hp rfl).sign hc
      | comma => cases hc
      | _ => exact .mk .nil rfl (ht rfl)
    · cases h

theorem findViolationAfter_of_allows (he : e.kind ≠ .comma) (ha : previous.allows e = true) :
    findViolationAfter previous i (e :: rest) = findViolationAfter e (i + 1) rest := by
  cases e with
  | comma => exact absurd rfl he
  | _ => simp only [findViolationAfter, ha, ↓reduceIte]

theorem findViolationAfter_signs (hs : AllSigns signs) (he : e.isOperand = true)
    (hr : ∀ i, findViolationAfter e i rest = none) :
    findViolationAfter (.operator op) i (signs.map .operator ++ e :: rest) = none := by
  induction signs generalizing op i with
  | nil =>
    have ha : (Element.operator op).allows e = true :=
      allows_of_canStart (.inl rfl) (canStart_of_isOperand he)
    rw [List.map_nil, List.nil_append,
      findViolationAfter_of_allows (kind_ne_comma_of_isOperand he) ha, hr]
  | cons s signs ih =>
    have ha : (Element.operator op).allows (.operator s) = true := hs.head
    rw [List.map_cons, List.cons_append, findViolationAfter_of_allows (by simp [Element.kind]) ha]
    exact ih hs.tail

theorem Terms.findViolationAfter (h : Terms rest) (he : e.isOperand = true) (i : Nat) :
    findViolationAfter e i rest = none := by
  induction h generalizing e i with
  | nil =>
    rw [Calculator.findViolationAfter, Element.isComplete, he]
    rfl
  | cons op hs he' ht ih =>
    have ha : e.allows (.operator op) = true := allows_behind_operand he (.inl rfl)
    rw [findViolationAfter_of_allows (by simp [Element.kind]) ha]
    exact findViolationAfter_signs hs he' fun i => ih he' i

theorem Plain.findViolation (h : Plain elements) : findViolation elements = none := by
  cases h with
  | @mk signs e rest hs he ht =>
    have hr (i : Nat) := ht.findViolationAfter he i
    cases signs with
    | nil =>
      rw [List.map_nil, List.nil_append, Calculator.findViolation,
        if_pos (canStart_of_isOperand he), hr]
    | cons s signs =>
      have hc : (Element.operator s).canStart = true := hs.head
      rw [List.map_cons, List.cons_append, Calculator.findViolation, if_pos hc]
      exact findViolationAfter_signs hs.tail he hr

/-- An environment with nothing in it. -/
def Environment.empty : Environment := ⟨fun _ => {}, fun _ => ⟨"", {}, {}⟩, fun _ => 0⟩

section Operands

variable (env : Environment) (scope : Scope)

theorem firstOperand_signs (hs : AllSigns signs) :
    firstOperand env scope i run (signs.map .operator ++ rest) =
      firstOperand env scope (i + signs.length) (run ++ signs) rest := by
  induction signs generalizing i run with
  | nil => simp
  | cons op signs ih =>
    simp only [List.map_cons, List.cons_append, firstOperand, hs.head, ↓reduceIte]
    rw [ih hs.tail]
    simp only [List.length_cons, List.append_assoc, List.singleton_append]
    congr 1
    omega

theorem firstOperand_operand (he : e.isOperand = true) :
    firstOperand env scope i run (e :: rest) = (do
      let value ← e.evaluate (env.inside i) scope
      let tail ← nextOperands env scope (i + 1) [] rest
      pure ⟨value :: tail.values, Operator.runSign run :: tail.signs, tail.gaps⟩) := by
  cases e with
  | operator => cases he
  | comma => cases he
  | _ => simp only [firstOperand]

theorem nextOperands_signs (hs : AllSigns signs) :
    nextOperands env scope i (op :: run) (signs.map .operator ++ rest) =
      nextOperands env scope (i + signs.length) (op :: (run ++ signs)) rest := by
  induction signs generalizing i run with
  | nil => simp
  | cons s signs ih =>
    simp only [List.map_cons, List.cons_append, nextOperands, hs.head, ↓reduceIte]
    rw [ih hs.tail]
    simp only [List.length_cons, List.append_assoc, List.singleton_append]
    congr 1
    omega

theorem nextOperands_operand (he : e.isOperand = true) :
    nextOperands env scope i (op :: run) (e :: rest) = (do
      let value ← e.evaluate (env.inside i) scope
      let tail ← nextOperands env scope (i + 1) [] rest
      pure ⟨value :: tail.values, Operator.runSign run :: tail.signs, op :: tail.gaps⟩) := by
  cases e with
  | operator => cases he
  | comma => cases he
  | _ => simp only [nextOperands]

/-- The signs in front of the first operand count for it. -/
theorem firstOperand_plain (hs : AllSigns signs) (he : e.isOperand = true) :
    firstOperand env scope i [] (signs.map .operator ++ e :: rest) = (do
      let value ← e.evaluate (env.inside (i + signs.length)) scope
      let tail ← nextOperands env scope (i + signs.length + 1) [] rest
      pure ⟨value :: tail.values, Operator.runSign signs :: tail.signs, tail.gaps⟩) := by
  rw [firstOperand_signs env scope hs, firstOperand_operand env scope he]
  rfl

/-- The operator of a term fills a gap, and the signs behind it count for the operand. -/
theorem nextOperands_term (hs : AllSigns signs) (he : e.isOperand = true) :
    nextOperands env scope i [] (.operator op :: (signs.map .operator ++ e :: rest)) = (do
      let value ← e.evaluate (env.inside (i + 1 + signs.length)) scope
      let tail ← nextOperands env scope (i + 1 + signs.length + 1) [] rest
      pure ⟨value :: tail.values, Operator.runSign signs :: tail.signs, op :: tail.gaps⟩) := by
  simp only [nextOperands]
  rw [nextOperands_signs env scope hs, nextOperands_operand env scope he]
  rfl

end Operands

end Calculator
