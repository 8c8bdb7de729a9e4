import Calculator.Proofs.Sequence
/-!
Stopping. An evaluation has a rule of its own for what may stand next to each other, and it differs
from the rules of adjacency in bare groups only. So a sequence whose operands have values stops its
evaluation at the first violation or at the first bare group (`evaluateElements_stops`).
-/
namespace Calculator

variable {previous e next : Element} {elements rest : List Element} {run : List Operator}
  {i j index place : Nat} {env : Environment} {scope : Scope} {violation : Violation}

/-- A group directly behind a number or a group. -/
def Element.isBareGroup (previous e : Element) : Bool :=
  e.kind = .group && (previous.kind = .number || previous.kind = .group)

def firstBareGroup : List Element → Option Nat
  | e :: next :: rest =>
    if Element.isBareGroup e next then some 1 else (firstBareGroup (next :: rest)).map (· + 1)
  | _ => none

/-- Behind an operand an evaluation goes on with an operator, and behind an operator with what may
begin a sequence. -/
def Element.admits (previous e : Element) : Bool :=
  if previous.isOperand then e.kind = .operator else e.canStart

/-- Where an evaluation stops at what stands behind `previous`, from `place` on. -/
def stopBehind (previous : Element) (place : Nat) : List Element → Option Nat
  | [] => if previous.isOperand then none else some (place - 1)
  | e :: rest => if previous.admits e then stopBehind e (place + 1) rest else some place

/-- The run fails with a violation at the place if there is one, and otherwise has a result. -/
def Run.StopsAt {α : Type} (r : Run α) : Option Nat → Prop
  | none => ∃ a, r.result = .ok a
  | some i => ∃ violation, r.result = .error (.invalid violation (some i))

/-- Every operand has a value; the first element stands at the index. -/
def Valued (env : Environment) (scope : Scope) (index : Nat) : List Element → Prop
  | [] => True
  | e :: rest =>
    (e.isOperand = true → ∃ x, (e.evaluate (env.inside index) scope).result = .ok x) ∧
      Valued env scope (index + 1) rest

section Places

theorem noBareGroup_iff : NoBareGroup elements ↔ firstBareGroup elements = none := by
  have hbare (e next : Element) : (next.kind = .group → e.kind ≠ .number ∧ e.kind ≠ .group) ↔
      Element.isBareGroup e next = false := by
    cases e <;> cases next <;> simp [Element.isBareGroup, Element.kind]
  induction elements with
  | nil => simp [NoBareGroup, firstBareGroup]
  | cons e rest ih =>
    cases rest with
    | nil => simp [NoBareGroup, firstBareGroup]
    | cons next rest =>
      rw [NoBareGroup, List.isChain_cons_cons, hbare, firstBareGroup]
      cases hb : Element.isBareGroup e next with
      | true => simp
      | false => simpa [NoBareGroup] using ih

theorem firstBareGroup_pos (h : firstBareGroup elements = some i) : 1 ≤ i := by
  unfold firstBareGroup at h
  split at h
  · split at h
    · exact (Option.some.inj h).le
    · obtain ⟨k, _, rfl⟩ := Option.map_eq_some_iff.1 h
      omega
  · cases h

theorem admits_behind_operand (hp : previous.isOperand = true) :
    previous.admits e = decide (e.kind = .operator) := if_pos hp

theorem admits_behind_operator (hp : ¬ previous.isOperand = true) :
    previous.admits e = e.canStart := if_neg hp

theorem stopBehind_go (ha : previous.admits e = true) :
    stopBehind previous place (e :: rest) = stopBehind e (place + 1) rest := if_pos ha

theorem stopBehind_stop (ha : previous.admits e = false) :
    stopBehind previous place (e :: rest) = some place := if_neg (ne_true_of_eq_false ha)

theorem admits_iff (hp : previous.kind ≠ .comma) :
    previous.admits e = true ↔
      e.kind ≠ .comma ∧ previous.allows e = true ∧ previous.isBareGroup e = false := by
  cases previous <;> cases e <;>
    simp_all [Element.admits, Element.isOperand, Element.kind, Element.canStart, Element.allows,
      Kind.successors, Element.isBareGroup]

theorem findViolationAfter_refused (h : e.kind = .comma ∨ previous.allows e = false) (index : Nat)
    (rest : List Element) :
    ∃ violation, findViolationAfter previous index (e :: rest) = some (index + 1, violation) := by
  cases e with
  | comma => exact ⟨_, rfl⟩
  | _ =>
    rcases h with hk | ha
    · cases hk
    · exact ⟨_, by simp only [findViolationAfter, ha]; rfl⟩

theorem le_of_findViolationAfter
    (h : findViolationAfter previous index rest = some (i, violation)) : index ≤ i := by
  induction rest generalizing previous index with
  | nil =>
    rw [findViolationAfter] at h
    split at h
    · cases h
    · cases h
      exact le_rfl
  | cons e rest ih =>
    by_cases hr : e.kind = .comma ∨ previous.allows e = false
    · obtain ⟨violation', hv⟩ := findViolationAfter_refused hr index rest
      rw [hv] at h
      cases h
      exact Nat.le_succ index
    · rw [not_or, Bool.not_eq_false] at hr
      rw [findViolationAfter_of_allows hr.1 hr.2] at h
      exact Nat.le_of_succ_le (ih h)

/-- An element that stops an evaluation is a violation or a bare group. -/
theorem refused_or_bareGroup (hp : previous.kind ≠ .comma) (ha : previous.admits e = false) :
    (e.kind = .comma ∨ previous.allows e = false) ∨
      (e.kind ≠ .comma ∧ previous.allows e = true ∧ previous.isBareGroup e = true) := by
  by_cases hr : e.kind = .comma ∨ previous.allows e = false
  · exact .inl hr
  · rw [not_or, Bool.not_eq_false] at hr
    refine .inr ⟨hr.1, hr.2, ?_⟩
    by_contra hb
    have had := (admits_iff hp).2 ⟨hr.1, hr.2, Bool.eq_false_iff.2 hb⟩
    rw [ha] at had
    cases had

theorem merge_min_of_le {a : Option Nat} (h : ∀ j, a = some j → i ≤ j) :
    Option.merge min (some i) a = some i ∧ Option.merge min a (some i) = some i := by
  cases a with
  | none => exact ⟨rfl, rfl⟩
  | some j =>
    have hj := h j rfl
    exact ⟨congrArg some (Nat.min_eq_left hj), congrArg some (Nat.min_eq_right hj)⟩

/-- Behind an operand or an operator an evaluation stops at the first violation or at the first bare
group, whichever comes first. -/
theorem stopBehind_eq (hp : previous.kind ≠ .comma) :
    stopBehind previous (index + 1) rest =
      Option.merge min ((findViolationAfter previous index rest).map (·.1))
        ((firstBareGroup (previous :: rest)).map (· + index)) := by
  induction rest generalizing previous index with
  | nil =>
    have hnone : firstBareGroup [previous] = none := rfl
    rw [stopBehind, findViolationAfter, hnone, Element.isComplete]
    cases previous.isOperand <;> rfl
  | cons e rest ih =>
    cases ha : previous.admits e with
    | true =>
      obtain ⟨hc, hal, hb⟩ := (admits_iff hp).1 ha
      rw [stopBehind_go ha, ih hc, findViolationAfter_of_allows hc hal, firstBareGroup, hb]
      simp [Function.comp_def, Nat.add_assoc, Nat.add_comm 1]
    | false =>
      rw [stopBehind_stop ha]
      symm
      rcases refused_or_bareGroup hp ha with hr | ⟨hc, hal, hb⟩
      · obtain ⟨violation, hv⟩ := findViolationAfter_refused hr index rest
        rw [hv]
        apply (merge_min_of_le _).1
        intro j hj
        obtain ⟨k, hk, rfl⟩ := Option.map_eq_some_iff.1 hj
        have hpos := firstBareGroup_pos hk
        change index + 1 ≤ k + index
        omega
      · rw [firstBareGroup, if_pos hb, Option.map_some, Nat.add_comm 1,
          findViolationAfter_of_allows hc hal]
        apply (merge_min_of_le _).2
        intro j hj
        obtain ⟨⟨k, violation⟩, hk, rfl⟩ := Option.map_eq_some_iff.1 hj
        exact le_of_findViolationAfter hk

/-- At its beginning a sequence is looked at as if it stood behind a sign. -/
theorem stopBehind_start (hne : elements ≠ []) :
    stopBehind (.operator .add) 0 elements =
      Option.merge min ((findViolation elements).map (·.1)) (firstBareGroup elements) := by
  cases elements with
  | nil => exact absurd rfl hne
  | cons e rest =>
    have hadmits : (Element.operator .add).admits e = e.canStart := rfl
    rw [stopBehind, hadmits, findViolation]
    split
    · next hs =>
      have hc : e.kind ≠ .comma := by
        cases e with
        | comma => cases hs
        | _ =>
          intro hk
          cases hk
      rw [stopBehind_eq hc]
      simp
    · exact (merge_min_of_le fun j _ => Nat.zero_le j).1.symm

end Places

section Rows

theorem Run.StopsAt.bind {α β : Type} {r : Run α} {next : α → Run β} {place : Option Nat} {a : α}
    (h : r.result = .ok a) (hn : (next a).StopsAt place) : (r >>= next).StopsAt place := by
  cases place with
  | none =>
    obtain ⟨b, hb⟩ := hn
    exact ⟨b, (Run.bind_ok h next).trans hb⟩
  | some i =>
    obtain ⟨violation, hv⟩ := hn
    exact ⟨violation, (Run.bind_ok h next).trans hv⟩

theorem Run.StopsAt.map {α β : Type} {r : Run α} {place : Option Nat} (f : α → β)
    (h : r.StopsAt place) : (r >>= fun a => pure (f a)).StopsAt place := by
  cases place with
  | none =>
    obtain ⟨a, ha⟩ := h
    exact ⟨f a, Run.bind_ok ha _⟩
  | some i =>
    obtain ⟨violation, hv⟩ := h
    exact ⟨violation, Run.bind_error hv _⟩

theorem nextOperands_missing (he : e.isOperand = true) :
    nextOperands env scope place [] (e :: rest) = fault (.missingOperator e) (some place) := by
  cases e with
  | operator => cases he
  | comma => cases he
  | _ => simp only [nextOperands]

/-- Operators wait in front of an operand as long as none stands directly in front. -/
theorem nextOperands_stops (hv : Valued env scope place rest)
    (hr : run = [] ↔ previous.isOperand = true) :
    (nextOperands env scope place run rest).StopsAt (stopBehind previous place rest) := by
  induction rest generalizing previous place run with
  | nil =>
    rw [nextOperands, stopBehind]
    split
    · next hl =>
      rw [if_pos (hr.1 (List.getLast?_eq_none_iff.1 hl))]
      exact ⟨_, rfl⟩
    · next op hl =>
      have hne : ¬ previous.isOperand = true := by
        rw [← hr]
        rintro rfl
        cases hl
      rw [if_neg hne]
      exact ⟨_, rfl⟩
  | cons e rest ih =>
    have hrest : Valued env scope (place + 1) rest := hv.2
    cases e with
    | comma =>
      have ha : previous.admits .comma = false := by
        by_cases hp : previous.isOperand = true
        · exact admits_behind_operand hp
        · exact admits_behind_operator hp
      rw [nextOperands, stopBehind_stop ha]
      exact ⟨_, rfl⟩
    | operator op =>
      cases run with
      | nil =>
        have ha : previous.admits (.operator op) = true := admits_behind_operand (hr.1 rfl)
        rw [nextOperands, stopBehind_go ha]
        exact ih hrest (by simp [Element.isOperand])
      | cons first signs =>
        have ha : previous.admits (.operator op) = op.isSign :=
          admits_behind_operator (mt hr.2 (List.cons_ne_nil _ _))
        rw [nextOperands]
        split
        · next hs =>
          rw [stopBehind_go (ha.trans hs)]
          exact ih hrest (by simp [Element.isOperand])
        · next hs =>
          rw [stopBehind_stop (ha.trans (Bool.eq_false_iff.2 hs))]
          exact ⟨_, rfl⟩
    | _ =>
      cases run with
      | nil =>
        rw [nextOperands_missing rfl, stopBehind_stop (admits_behind_operand (hr.1 rfl))]
        exact ⟨_, rfl⟩
      | cons combiner signs =>
        have hoperator := mt hr.2 (List.cons_ne_nil combiner signs)
        obtain ⟨x, hx⟩ := hv.1 rfl
        rw [nextOperands_operand env scope rfl, stopBehind_go (admits_behind_operator hoperator)]
        exact .bind hx (.map _ (ih hrest (by simp [Element.isOperand])))

theorem firstOperand_stops (hv : Valued env scope place rest) (hp : previous.isOperand = false)
    (hne : run = [] → rest ≠ []) :
    (firstOperand env scope place run rest).StopsAt (stopBehind previous place rest) := by
  have hoperator : ¬ previous.isOperand = true := ne_true_of_eq_false hp
  induction rest generalizing previous place run with
  | nil =>
    rw [firstOperand, stopBehind, if_neg hoperator]
    split
    · next hl => exact absurd rfl (hne (List.getLast?_eq_none_iff.1 hl))
    · exact ⟨_, rfl⟩
  | cons e rest ih =>
    have ha := admits_behind_operator (e := e) hoperator
    have hrest : Valued env scope (place + 1) rest := hv.2
    cases e with
    | comma =>
      rw [firstOperand, stopBehind_stop ha]
      exact ⟨_, rfl⟩
    | operator op =>
      rw [firstOperand]
      split
      · next hs =>
        rw [stopBehind_go (ha.trans hs)]
        exact ih hrest rfl (by simp) (by simp [Element.isOperand])
      · next hs =>
        rw [stopBehind_stop (ha.trans (Bool.eq_false_iff.2 hs))]
        exact ⟨_, rfl⟩
    | _ =>
      obtain ⟨x, hx⟩ := hv.1 rfl
      rw [firstOperand_operand env scope rfl, stopBehind_go ha]
      exact .bind hx (.map _ (nextOperands_stops hrest (by simp [Element.isOperand])))

/-- The row of a sequence is found up to the first violation or the first bare group. -/
theorem firstOperand_stopsAt (hv : Valued env scope 0 elements) (hne : elements ≠ []) :
    (firstOperand env scope 0 [] elements).StopsAt
      (Option.merge min ((findViolation elements).map (·.1)) (firstBareGroup elements)) := by
  rw [← stopBehind_start hne]
  exact firstOperand_stops hv rfl fun _ => hne

theorem Row.value_ne_invalid (row : Row Float) (violation : Violation) (position : Option Nat) :
    row.value.result ≠ .error (.invalid violation position) := by
  rw [Row.value]
  split
  · intro h
    cases h
  · intro h
    cases h

theorem evaluateElements_invalid_iff (hv : Valued env scope 0 elements) (hne : elements ≠ [])
    (position : Option Nat) :
    (∃ violation, (evaluateElements env scope elements).result =
        .error (.invalid violation position)) ↔
      ∃ i, Option.merge min ((findViolation elements).map (·.1)) (firstBareGroup elements) =
        some i ∧ position = some i := by
  have hs := firstOperand_stopsAt hv hne
  cases hp : Option.merge min ((findViolation elements).map (·.1)) (firstBareGroup elements) with
  | none =>
    rw [hp] at hs
    obtain ⟨row, hrow⟩ := hs
    rw [evaluateElements, Run.bind_ok hrow]
    constructor
    · rintro ⟨violation, he⟩
      exact absurd he (row.value_ne_invalid violation position)
    · rintro ⟨i, hi, _⟩
      cases hi
  | some i =>
    rw [hp] at hs
    obtain ⟨violation, hfail⟩ := hs
    rw [evaluateElements, Run.bind_error hfail]
    constructor
    · rintro ⟨violation', he⟩
      cases he
      exact ⟨i, rfl, rfl⟩
    · rintro ⟨i', hi, rfl⟩
      cases hi
      exact ⟨violation, rfl⟩

end Rows

/-- If all operands of a sequence have values and there is no bare group in it, its evaluation is
refused if and only if there is a violation, and in the place of this. With a bare group it is
refused in any case, at the first violation if this comes before the first bare group, and else at
the bare group. -/
theorem evaluateElements_stops (hv : Valued env scope 0 elements) (hne : elements ≠ []) :
    (NoBareGroup elements → ∀ position, (∃ violation,
        (evaluateElements env scope elements).result = .error (.invalid violation position)) ↔
      ∃ i violation, findViolation elements = some (i, violation) ∧ position = some i) ∧
    ∀ i, firstBareGroup elements = some i → ∃ violation,
      (evaluateElements env scope elements).result = .error (.invalid violation
        (some (match findViolation elements with
          | some (j, _) => if j < i then j else i
          | none => i))) := by
  refine ⟨fun hb position => ?_, fun i hi => ?_⟩
  · have hnone (place : Option Nat) : Option.merge min place none = place := by
      cases place <;> rfl
    rw [evaluateElements_invalid_iff hv hne, noBareGroup_iff.1 hb, hnone]
    simp only [Option.map_eq_some_iff, Prod.exists, exists_and_right, exists_eq_right]
  · rw [evaluateElements_invalid_iff hv hne, hi]
    cases findViolation elements with
    | none => exact ⟨i, rfl, rfl⟩
    | some found =>
      obtain ⟨j, violation⟩ := found
      have hmin : (if j < i then j else i) = min j i := by split <;> omega
      exact ⟨_, rfl, congrArg some hmin⟩

/-- The elements of `-1 , 2`, where only a comma is out of place. -/
def commaInside : List Element := [.operator .subtract, .number 1, .comma, .number 2]

/-- The elements of `2 (3) *`, where a bare group stands in front of the operator at the end. -/
def bareGroupInside : List Element :=
  [.number 2, .group (.mk ⟨0, 0⟩ [.number 3]), .operator .multiply]

theorem evaluateElements_stops_inside :
    (∃ violation, (evaluateElements .empty ⟨0, 0⟩ commaInside).result =
        .error (.invalid violation (some 2))) ∧
      findViolation bareGroupInside = some (2, .incomplete (.operator .multiply)) ∧
      ∃ violation, (evaluateElements .empty ⟨0, 0⟩ bareGroupInside).result =
        .error (.invalid violation (some 1)) := by
  have hnumber (i : Nat) (x : Float) :
      ((Element.number x).evaluate (Environment.empty.inside i) ⟨0, 0⟩).result = .ok x := by
    rw [Element.evaluate]
    rfl
  have hgroup (i : Nat) : ((Element.group (.mk ⟨0, 0⟩ [.number 3])).evaluate
      (Environment.empty.inside i) ⟨0, 0⟩).result = .ok 3 := by
    have hs : structureFailure [.number 3] = none := rfl
    rw [Element.evaluate, Formula.evaluate, hs, firstOperand_operand _ _ rfl, Element.evaluate,
      nextOperands]
    rfl
  have hcomma : Valued .empty ⟨0, 0⟩ 0 commaInside :=
    ⟨(absurd · Bool.false_ne_true), fun _ => ⟨1, hnumber 1 1⟩, (absurd · Bool.false_ne_true),
      fun _ => ⟨2, hnumber 3 2⟩, trivial⟩
  have hbare : Valued .empty ⟨0, 0⟩ 0 bareGroupInside :=
    ⟨fun _ => ⟨2, hnumber 0 2⟩, fun _ => ⟨3, hgroup 1⟩, (absurd · Bool.false_ne_true), trivial⟩
  have hfirst := evaluateElements_stops hcomma (List.cons_ne_nil _ _)
  have hsecond := evaluateElements_stops hbare (List.cons_ne_nil _ _)
  exact ⟨(hfirst.1 (noBareGroup_iff.2 rfl) _).2 ⟨2, _, rfl, rfl⟩, rfl, hsecond.2 1 rfl⟩

end Calculator
