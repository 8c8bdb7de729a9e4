import Calculator.Operator
/-!
Reduction of operands in a row. Each tier scans the gaps between the operands from left to right and
closes, in place, those whose operator belongs to it. `Row.reduce` gives what is left after the last
tier; it has no value only if a scan reaches behind the row.
-/
namespace Calculator

/-- Operands in a row: their values, the signs that are still pending on them, and the operators of
the gaps between them. -/
structure Row (α : Type) where
  values : List α
  signs : List Sign
  gaps : List Operator

/-- A scan over the gaps of a row, with the index of the gap that it looks at. -/
structure Scan (α : Type) where
  row : Row α
  index : Nat := 0

section

variable {α : Type} (negate : α → α) (combine : Operator → α → α → α)

def Sign.apply (s : Sign) (value : α) : α :=
  match s with
  | .plus => value
  | .minus => negate value

namespace Row

def operand? (row : Row α) (index : Nat) : Option α := do
  let value ← row.values[index]?
  let sign ← row.signs[index]?
  some (sign.apply negate value)

/-- Closes a gap: the result takes the place of the left operand, with no sign pending, and the
right operand is taken out together with the gap. -/
def closeGap (row : Row α) (index : Nat) (op : Operator) : Option (Row α) := do
  let left ← row.operand? negate index
  let right ← row.operand? negate (index + 1)
  some {
    values := (row.values.set index (combine op left right)).eraseIdx (index + 1)
    signs := (row.signs.set index .plus).eraseIdx (index + 1)
    gaps := row.gaps.eraseIdx index }

theorem closeGap_gaps {row next : Row α} {index : Nat} {op : Operator}
    (h : row.closeGap negate combine index op = some next) :
    next.gaps = row.gaps.eraseIdx index := by
  simp only [closeGap, bind, Option.bind_eq_some_iff, Option.some.injEq] at h
  obtain ⟨left, _, right, _, he⟩ := h
  subst he
  rfl

end Row

namespace Scan

/-- One turn of a scan at a gap with the given operator. Behind a gap that is closed the next one
moves to its index; any other gap is passed over. -/
def turn (tier : Nat) (s : Scan α) (op : Operator) : Option (Scan α) :=
  if op.tier = tier then
    (s.row.closeGap negate combine s.index op).map fun row => ⟨row, s.index⟩
  else some ⟨s.row, s.index + 1⟩

def remaining (s : Scan α) : Nat := s.row.gaps.length - s.index

theorem turn_remaining {tier : Nat} {s next : Scan α} {op : Operator}
    (hs : s.row.gaps[s.index]? = some op) (h : s.turn negate combine tier op = some next) :
    next.remaining + 1 = s.remaining := by
  obtain ⟨hi, _⟩ := List.getElem?_eq_some_iff.1 hs
  unfold turn at h
  split at h
  · obtain ⟨row, hr, he⟩ := Option.map_eq_some_iff.1 h
    subst he
    simp only [remaining, Row.closeGap_gaps negate combine hr, List.length_eraseIdx_of_lt hi]
    omega
  · cases h
    simp only [remaining]
    omega

def run (tier : Nat) (s : Scan α) : Option (Row α) :=
  match _hs : s.row.gaps[s.index]? with
  | none => some s.row
  | some op =>
    match _hn : s.turn negate combine tier op with
    | none => none
    | some next => next.run tier
termination_by s.remaining
decreasing_by
  have hr := turn_remaining negate combine _hs _hn
  omega

theorem run_end {tier : Nat} {s : Scan α} (hs : s.row.gaps[s.index]? = none) :
    s.run negate combine tier = some s.row := by
  unfold run
  split
  · rfl
  · next hop => rw [hs] at hop; cases hop

theorem run_turn {tier : Nat} {s next : Scan α} {op : Operator}
    (hs : s.row.gaps[s.index]? = some op) (h : s.turn negate combine tier op = some next) :
    s.run negate combine tier = next.run negate combine tier := by
  rw [run.eq_def negate combine tier s]
  split
  · next hn => rw [hs] at hn; cases hn
  · next op' hop =>
    rw [hs] at hop
    cases hop
    split
    · next hn => rw [h] at hn; cases hn
    · next hn =>
      rw [h] at hn
      cases hn
      rfl

end Scan

/-- The value of a row: that of its only operand, or what the scans of all tiers leave of it. -/
def Row.reduce (row : Row α) : Option α :=
  if row.values.length = 1 then row.operand? negate 0
  else do
    let last ← Operator.tiers.foldlM (fun row tier => Scan.run negate combine tier ⟨row, 0⟩) row
    last.values[0]?

end

end Calculator
