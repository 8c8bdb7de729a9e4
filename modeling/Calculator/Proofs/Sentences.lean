import Calculator.Proofs.Stopping
import Mathlib.Order.Bounds.Basic
/-!
The language of the rules of adjacency. A sequence without a violation is a sentence, and otherwise
the violation stands where no sentence goes on as the sequence does, or at its end if it has only
broken off (`findViolation_locates`).
-/
namespace Calculator

variable {previous e : Element} {elements rest : List Element} {signs : List Operator}
  {op : Operator} {index i j : Nat} {violation : Violation}

/-- What may stand behind an operand: operators, each with signs and an operand behind it, and bare
groups, each directly behind a number or a group. -/
inductive Tail : Element → List Element → Prop
  | nil {previous : Element} : Tail previous []
  | term {previous e : Element} {signs : List Operator} {rest : List Element} (op : Operator)
      (hs : AllSigns signs) (he : e.isOperand = true) (ht : Tail e rest) :
      Tail previous (.operator op :: (signs.map .operator ++ e :: rest))
  | group {previous : Element} {inner : Formula} {rest : List Element}
      (hp : previous.kind = .number ∨ previous.kind = .group) (ht : Tail (.group inner) rest) :
      Tail previous (.group inner :: rest)

/-- Signs, an operand and its tail. -/
inductive Sentence : List Element → Prop
  | mk {signs : List Operator} {e : Element} {rest : List Element} (hs : AllSigns signs)
      (he : e.isOperand = true) (ht : Tail e rest) : Sentence (signs.map .operator ++ e :: rest)

/-- The sequence is the beginning of a sentence. -/
def Viable (elements : List Element) : Prop := ∃ more, Sentence (elements ++ more)

/-- What makes a sentence of a sequence that ends with `previous`. -/
def Continues (previous : Element) (rest : List Element) : Prop :=
  if previous.isOperand then Tail previous rest else Sentence rest

def ViableBehind (previous : Element) (rest : List Element) : Prop :=
  ∃ more, Continues previous (rest ++ more)

/-- Where a sequence behind `previous` has already left all sentences. -/
def faults (previous : Element) (rest : List Element) : Set Nat :=
  {j | j < rest.length ∧ ¬ ViableBehind previous (rest.take (j + 1))}

section Continuing

theorem Sentence.sign (hs : op.isSign = true) (h : Sentence rest) :
    Sentence (.operator op :: rest) := by
  cases h with
  | mk hs' he ht => exact .mk (hs'.cons hs) he ht

theorem Sentence.tail (op : Operator) (h : Sentence rest) :
    Tail previous (.operator op :: rest) := by
  cases h with
  | mk hs he ht => exact .term op hs he ht

theorem continues_behind_operand (hp : previous.isOperand = true) :
    Continues previous rest ↔ Tail previous rest := by
  rw [Continues, if_pos hp]

theorem continues_behind_operator : Continues (.operator op) rest ↔ Sentence rest := Iff.rfl

theorem kind_ne_comma_of_canStart (hs : e.canStart = true) : e.kind ≠ .comma := by
  cases e with
  | comma => cases hs
  | _ => simp [Element.kind]

theorem canStart_of_allows (hc : e.kind ≠ .comma) (ha : (Element.operator op).allows e = true) :
    e.canStart = true := by
  cases e with
  | comma => exact absurd rfl hc
  | operator op' => exact ha
  | _ => rfl

theorem continues_nil (hp : previous.kind ≠ .comma) :
    Continues previous [] ↔ previous.isOperand = true := by
  rcases isOperand_or_operator hp with ho | ⟨op, rfl⟩
  · rw [continues_behind_operand ho]
    exact ⟨fun _ => ho, fun _ => .nil⟩
  · rw [continues_behind_operator]
    constructor
    · intro h
      generalize hn : ([] : List Element) = elements at h
      cases h with
      | mk hs he ht => simp at hn
    · intro ho
      cases ho

theorem allows_group {inner : Formula} (hp : previous.kind = .number ∨ previous.kind = .group) :
    previous.allows (.group inner) = true := by
  cases previous <;> simp_all [Element.allows, Element.kind, Kind.successors]

theorem Tail.head (hp : previous.isOperand = true) (h : Tail previous (e :: rest)) :
    e.kind ≠ .comma ∧ previous.allows e = true ∧ Continues e rest := by
  cases h with
  | term op hs he ht =>
    exact ⟨by simp [Element.kind], allows_behind_operand hp (.inl rfl),
      continues_behind_operator.2 (.mk hs he ht)⟩
  | group hp' ht =>
    exact ⟨by simp [Element.kind], allows_group hp', (continues_behind_operand rfl).2 ht⟩

theorem Sentence.head (h : Sentence (e :: rest)) : e.canStart = true ∧ Continues e rest := by
  generalize hn : e :: rest = elements at h
  cases h with
  | @mk signs e' rest' hs he ht =>
    cases signs with
    | nil =>
      cases hn
      exact ⟨canStart_of_isOperand he, (continues_behind_operand he).2 ht⟩
    | cons s signs =>
      cases hn
      exact ⟨hs.head, continues_behind_operator.2 (.mk hs.tail he ht)⟩

/-- A sequence goes on to a sentence if and only if its next element may stand there and the rest
goes on behind that. -/
theorem continues_cons (hp : previous.kind ≠ .comma) : Continues previous (e :: rest) ↔
    e.kind ≠ .comma ∧ previous.allows e = true ∧ Continues e rest := by
  rcases isOperand_or_operator hp with ho | ⟨op, rfl⟩
  · rw [continues_behind_operand ho]
    constructor
    · exact Tail.head ho
    · rintro ⟨hc, ha, h⟩
      rcases isOperand_or_operator hc with he | ⟨op, rfl⟩
      · obtain ⟨hg, hn⟩ := allows_operand ho he ha
        cases e with
        | group inner => exact .group hn ((continues_behind_operand rfl).1 h)
        | _ => cases hg
      · exact Sentence.tail op (continues_behind_operator.1 h)
  · rw [continues_behind_operator]
    constructor
    · intro h
      obtain ⟨hs, hc⟩ := h.head
      exact ⟨kind_ne_comma_of_canStart hs, allows_of_canStart (.inl rfl) hs, hc⟩
    · rintro ⟨hc, ha, h⟩
      rcases isOperand_or_operator hc with he | ⟨op', rfl⟩
      · exact .mk .nil he ((continues_behind_operand he).1 h)
      · exact (continues_behind_operator.1 h).sign ha

theorem viableBehind_nil (hp : previous.kind ≠ .comma) : ViableBehind previous [] := by
  rcases isOperand_or_operator hp with ho | ⟨op, rfl⟩
  · exact ⟨[], (continues_nil hp).2 ho⟩
  · exact ⟨[.number 0], continues_behind_operator.2 (.mk .nil rfl .nil)⟩

theorem viableBehind_cons (hp : previous.kind ≠ .comma) : ViableBehind previous (e :: rest) ↔
    e.kind ≠ .comma ∧ previous.allows e = true ∧ ViableBehind e rest := by
  simp only [ViableBehind, List.cons_append, continues_cons hp, exists_and_left]

end Continuing

section Faults

theorem mem_faults_succ (hp : previous.kind ≠ .comma) (hc : e.kind ≠ .comma)
    (ha : previous.allows e = true) : j + 1 ∈ faults previous (e :: rest) ↔ j ∈ faults e rest := by
  simp [faults, viableBehind_cons hp, hc, ha]

/-- Behind an element that may stand there the faults are those of the rest. -/
theorem isLeast_faults_succ (hp : previous.kind ≠ .comma) (hc : e.kind ≠ .comma)
    (ha : previous.allows e = true) (h : IsLeast (faults e rest) j) :
    IsLeast (faults previous (e :: rest)) (j + 1) := by
  refine ⟨(mem_faults_succ hp hc ha).2 h.1, ?_⟩
  intro k hk
  cases k with
  | zero =>
    have hv : ViableBehind previous [e] := (viableBehind_cons hp).2 ⟨hc, ha, viableBehind_nil hc⟩
    exact absurd hv hk.2
  | succ k => exact Nat.succ_le_succ (h.2 ((mem_faults_succ hp hc ha).1 hk))

theorem isLeast_faults_zero (hp : previous.kind ≠ .comma)
    (h : e.kind = .comma ∨ previous.allows e = false) : IsLeast (faults previous (e :: rest)) 0 := by
  refine ⟨⟨Nat.succ_pos _, ?_⟩, fun k _ => Nat.zero_le k⟩
  intro hv
  obtain ⟨hc, ha, _⟩ := (viableBehind_cons hp).1 hv
  rcases h with hk | hn
  · exact hc hk
  · rw [ha] at hn
    cases hn

theorem findViolationAfter_eq_none (hp : previous.kind ≠ .comma) :
    findViolationAfter previous index rest = none ↔ Continues previous rest := by
  induction rest generalizing previous index with
  | nil =>
    rw [continues_nil hp, findViolationAfter, Element.isComplete]
    simp
  | cons e rest ih =>
    rw [continues_cons hp]
    constructor
    · intro h
      obtain ⟨hc, ha, hr⟩ := findViolationAfter_cons h
      exact ⟨hc, ha, (ih hc).1 hr⟩
    · rintro ⟨hc, ha, h⟩
      rw [findViolationAfter_of_allows hc ha]
      exact (ih hc).2 h

/-- A violation stands at the end of a sequence that is the beginning of a sentence, and at the
first fault of any other. -/
theorem findViolationAfter_locates (hp : previous.kind ≠ .comma)
    (h : findViolationAfter previous index rest = some (i, violation)) :
    (ViableBehind previous rest ∧ i = index + rest.length) ∨
      ∃ j, i = index + j + 1 ∧ IsLeast (faults previous rest) j := by
  induction rest generalizing previous index with
  | nil =>
    rw [findViolationAfter] at h
    split at h
    · cases h
    · cases h
      exact .inl ⟨viableBehind_nil hp, rfl⟩
  | cons e rest ih =>
    by_cases hr : e.kind = .comma ∨ previous.allows e = false
    · obtain ⟨violation', hv⟩ := findViolationAfter_refused hr index rest
      rw [hv] at h
      cases h
      exact .inr ⟨0, rfl, isLeast_faults_zero hp hr⟩
    · rw [not_or, Bool.not_eq_false] at hr
      obtain ⟨hc, ha⟩ := hr
      rw [findViolationAfter_of_allows hc ha] at h
      rcases ih hc h with ⟨hv, rfl⟩ | ⟨j, rfl, hj⟩
      · refine .inl ⟨(viableBehind_cons hp).2 ⟨hc, ha, hv⟩, ?_⟩
        rw [List.length_cons]
        omega
      · refine .inr ⟨j + 1, ?_, isLeast_faults_succ hp hc ha hj⟩
        omega

end Faults

section Violations

theorem viable_of_take {k : Nat} (h : Viable elements) : Viable (elements.take k) := by
  obtain ⟨more, hs⟩ := h
  refine ⟨elements.drop k ++ more, ?_⟩
  rwa [← List.append_assoc, List.take_append_drop]

theorem not_sentence_nil : ¬ Sentence [] := by
  have hp : (Element.operator .add).kind ≠ .comma := by simp [Element.kind]
  intro h
  cases (continues_nil hp).1 h

theorem findViolation_eq_none : findViolation elements = none ↔ Sentence elements := by
  cases elements with
  | nil => exact ⟨(nomatch ·), fun h => absurd h not_sentence_nil⟩
  | cons e rest =>
    have hp : (Element.operator .add).kind ≠ .comma := by simp [Element.kind]
    have hstart : Sentence (e :: rest) ↔ Continues (.operator .add) (e :: rest) := Iff.rfl
    rw [hstart, continues_cons hp, findViolation]
    split
    · next hs =>
      have hc : e.kind ≠ .comma := kind_ne_comma_of_canStart hs
      rw [findViolationAfter_eq_none hc]
      exact ⟨fun h => ⟨hc, allows_of_canStart (.inl rfl) hs, h⟩, fun h => h.2.2⟩
    · next hs =>
      constructor
      · intro h
        cases h
      · rintro ⟨hc, ha, _⟩
        exact absurd (canStart_of_allows hc ha) hs

/-- The first element of a sequence stands as if behind a sign. -/
theorem findViolation_viable (h : findViolation (e :: rest) = some (i, violation)) :
    (Viable (e :: rest) ∧ i = rest.length) ∨ IsLeast (faults (.operator .add) (e :: rest)) i := by
  have hp : (Element.operator .add).kind ≠ .comma := by simp [Element.kind]
  rw [findViolation] at h
  split at h
  · next hs =>
    have hc : e.kind ≠ .comma := kind_ne_comma_of_canStart hs
    have ha : (Element.operator .add).allows e = true := allows_of_canStart (.inl rfl) hs
    rcases findViolationAfter_locates hc h with ⟨hv, rfl⟩ | ⟨j, rfl, hj⟩
    · refine .inl ⟨(viableBehind_cons hp).2 ⟨hc, ha, hv⟩, ?_⟩
      omega
    · rw [Nat.zero_add]
      exact .inr (isLeast_faults_succ hp hc ha hj)
  · next hs =>
    cases h
    apply Or.inr
    apply isLeast_faults_zero hp
    by_contra hn
    rw [not_or, Bool.not_eq_false] at hn
    exact hs (canStart_of_allows hn.1 hn.2)

end Violations

/-- There is no violation if and only if the sequence is a sentence. Otherwise the violation stands
at the first element up to which the sequence is not the beginning of a sentence, or at the last
element if there is none; a sequence without elements has it in front. -/
theorem findViolation_locates (elements : List Element) :
    (findViolation elements = none ↔ Sentence elements) ∧
      ∀ i violation, findViolation elements = some (i, violation) →
        (elements = [] → i = 0) ∧
        (elements ≠ [] → (∀ k, Viable (elements.take k)) → i = elements.length - 1) ∧
        ((∃ k, ¬ Viable (elements.take k)) →
          IsLeast {j | j < elements.length ∧ ¬ Viable (elements.take (j + 1))} i) := by
  refine ⟨findViolation_eq_none, ?_⟩
  intro i violation h
  cases elements with
  | nil =>
    cases h
    refine ⟨fun _ => rfl, fun hne => absurd rfl hne, ?_⟩
    rintro ⟨k, hk⟩
    rw [List.take_nil] at hk
    exact absurd ⟨[.number 0], .mk .nil rfl .nil⟩ hk
  | cons e rest =>
    refine ⟨(nomatch ·), ?_, ?_⟩
    · intro _ hv
      rcases findViolation_viable h with ⟨_, rfl⟩ | hl
      · rfl
      · exact absurd (hv (i + 1)) hl.1.2
    · rintro ⟨k, hk⟩
      rcases findViolation_viable h with ⟨hv, _⟩ | hl
      · exact absurd (viable_of_take hv) hk
      · exact hl

/-- The elements of `2 (3) -`, a sentence that has broken off. -/
def brokenOff : List Element :=
  [.number 2, .group (.mk ⟨0, 0⟩ [.number 3]), .operator .subtract]

/-- No sentence goes on with a comma, while `2 (3)` is a sentence and `2 (3) -` begins one. -/
theorem findViolation_locates_inside :
    Sentence (brokenOff.take 2) ∧
      findViolation brokenOff = some (brokenOff.length - 1, .incomplete (.operator .subtract)) ∧
      findViolation commaInside = some (2, .strayComma) ∧
      IsLeast {j | j < commaInside.length ∧ ¬ Viable (commaInside.take (j + 1))} 2 := by
  have hcomma : ¬ Viable (commaInside.take 3) := by
    intro h
    have hb : ViableBehind (.operator .add) (commaInside.take 3) := h
    obtain ⟨_, _, hb⟩ := (viableBehind_cons (by simp [Element.kind])).1 hb
    obtain ⟨_, _, hb⟩ := (viableBehind_cons (by simp [Element.kind])).1 hb
    exact ((viableBehind_cons (by simp [Element.kind])).1 hb).1 rfl
  exact ⟨(findViolation_locates (brokenOff.take 2)).1.1 rfl, rfl, rfl,
    ((findViolation_locates commaInside).2 2 _ rfl).2.2 ⟨3, hcomma⟩⟩

end Calculator
