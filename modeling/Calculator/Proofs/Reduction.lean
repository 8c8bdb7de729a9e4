import Calculator.Reduction
import Mathlib.Data.List.Basic
/-!
The reduction of a row, step by step and as a whole. `Reached` are the states that the scans go
through; in all of them the row stays balanced and the next turn succeeds (`Reached.orderly`).
`Scan.run_zip` says what one scan makes of a row, as a recursion over its operands.
-/
namespace Calculator

section

variable {α : Type} {negate : α → α} {combine : Operator → α → α → α} {row next : Row α}
  {s s' : Scan α} {op : Operator} {tier index : Nat}

def Row.Balanced (row : Row α) : Prop :=
  row.values.length = row.gaps.length + 1 ∧ row.signs.length = row.gaps.length + 1

theorem Row.Balanced.operand (negate : α → α) (h : row.Balanced)
    (hi : index ≤ row.gaps.length) :
    ∃ value, row.operand? negate index = some value := by
  have hv : index < row.values.length := by rw [h.1]; omega
  have hs : index < row.signs.length := by rw [h.2]; omega
  simp only [Row.operand?, List.getElem?_eq_getElem hv, List.getElem?_eq_getElem hs]
  exact ⟨_, rfl⟩

theorem Row.Balanced.closeGap (negate : α → α) (combine : Operator → α → α → α) (op : Operator)
    (h : row.Balanced) (hi : index < row.gaps.length) :
    ∃ next, row.closeGap negate combine index op = some next := by
  obtain ⟨left, hl⟩ := h.operand negate (Nat.le_of_lt hi)
  obtain ⟨right, hr⟩ := h.operand negate hi
  simp only [Row.closeGap, hl, hr]
  exact ⟨_, rfl⟩

theorem Row.closeGap_balanced (h : row.Balanced) (hi : index < row.gaps.length)
    (hn : row.closeGap negate combine index op = some next) : next.Balanced := by
  have hg := Row.closeGap_gaps negate combine hn
  simp only [Row.closeGap, bind, Option.bind_eq_some_iff, Option.some.injEq] at hn
  obtain ⟨left, _, right, _, he⟩ := hn
  unfold Row.Balanced
  rw [hg, List.length_eraseIdx_of_lt hi, ← he]
  simp only [List.length_eraseIdx, List.length_set, h.1, h.2, Nat.add_lt_add_iff_right, hi,
    ↓reduceIte]
  omega

/-- The states of a reduction, with the tier of the scan that is under way. -/
inductive Reached (negate : α → α) (combine : Operator → α → α → α) (row : Row α) :
    Nat → Scan α → Prop
  | start : Reached negate combine row 0 ⟨row, 0⟩
  | turn {tier : Nat} {s next : Scan α} {op : Operator} (h : Reached negate combine row tier s)
      (hg : s.row.gaps[s.index]? = some op) (hn : s.turn negate combine tier op = some next) :
      Reached negate combine row tier next
  | nextTier {tier : Nat} {s : Scan α} (h : Reached negate combine row tier s)
      (hg : s.row.gaps[s.index]? = none) (ht : tier + 1 ∈ Operator.tiers) :
      Reached negate combine row (tier + 1) ⟨s.row, 0⟩

/-- What holds of a scan under way: no gap of a tier that has fired is left in front of it. -/
structure Scan.Orderly (tier : Nat) (s : Scan α) : Prop where
  balanced : s.row.Balanced
  index_le : s.index ≤ s.row.gaps.length
  passed : ∀ op ∈ s.row.gaps.take s.index, tier < op.tier
  ahead : ∀ op ∈ s.row.gaps.drop s.index, tier ≤ op.tier

theorem Scan.Orderly.start (h : row.Balanced) : Scan.Orderly 0 ⟨row, 0⟩ where
  balanced := h
  index_le := Nat.zero_le _
  passed := by simp
  ahead := fun _ _ => Nat.zero_le _

theorem Scan.Orderly.turn_isSome (negate : α → α) (combine : Operator → α → α → α)
    (h : s.Orderly tier) (hg : s.row.gaps[s.index]? = some op) :
    ∃ next, s.turn negate combine tier op = some next := by
  obtain ⟨hi, _⟩ := List.getElem?_eq_some_iff.1 hg
  unfold Scan.turn
  split
  · obtain ⟨row, hr⟩ := h.balanced.closeGap negate combine op hi
    rw [hr]
    exact ⟨_, rfl⟩
  · exact ⟨_, rfl⟩

theorem Scan.Orderly.turn (h : s.Orderly tier) (hg : s.row.gaps[s.index]? = some op)
    (hn : s.turn negate combine tier op = some s') : s'.Orderly tier := by
  obtain ⟨hi, hop⟩ := List.getElem?_eq_some_iff.1 hg
  have hd := List.drop_eq_getElem_cons hi
  rw [hop] at hd
  have hah := h.ahead
  rw [hd] at hah
  unfold Scan.turn at hn
  split at hn
  · obtain ⟨row, hr, he⟩ := Option.map_eq_some_iff.1 hn
    subst he
    have hgaps := Row.closeGap_gaps negate combine hr
    have hsplit : row.gaps = s.row.gaps.take s.index ++ s.row.gaps.drop (s.index + 1) := by
      rw [hgaps, List.eraseIdx_eq_take_drop_succ]
    have hlen : (s.row.gaps.take s.index).length = s.index := List.length_take_of_le h.index_le
    refine ⟨Row.closeGap_balanced h.balanced hi hr, ?_, ?_, ?_⟩
    · change s.index ≤ row.gaps.length
      rw [hgaps, List.length_eraseIdx_of_lt hi]
      omega
    · change ∀ op ∈ row.gaps.take s.index, tier < op.tier
      rw [hsplit, List.take_left' hlen]
      exact h.passed
    · change ∀ op ∈ row.gaps.drop s.index, tier ≤ op.tier
      rw [hsplit, List.drop_left' hlen]
      exact fun op' hm => hah op' (List.mem_cons_of_mem op hm)
  · next hne =>
    cases hn
    refine ⟨h.balanced, hi, ?_, ?_⟩
    · intro op' hm
      rw [List.take_add_one, hg] at hm
      rcases List.mem_append.1 hm with hm | hm
      · exact h.passed op' hm
      · cases List.mem_singleton.1 hm
        exact Nat.lt_of_le_of_ne (hah op List.mem_cons_self) (Ne.symm hne)
    · exact fun op' hm => hah op' (List.mem_cons_of_mem op hm)

/-- At the end of a scan all gaps belong to later tiers. -/
theorem Scan.Orderly.tier_lt (h : s.Orderly tier) (hg : s.row.gaps[s.index]? = none)
    (ho : op ∈ s.row.gaps) : tier < op.tier := by
  rw [← List.take_of_length_le (List.getElem?_eq_none_iff.1 hg)] at ho
  exact h.passed op ho

theorem Scan.Orderly.nextTier (h : s.Orderly tier) (hg : s.row.gaps[s.index]? = none) :
    Scan.Orderly (tier + 1) ⟨s.row, 0⟩ where
  balanced := h.balanced
  index_le := Nat.zero_le _
  passed := by simp
  ahead := fun _ hm => h.tier_lt hg hm

theorem Reached.orderly (hb : row.Balanced) (h : Reached negate combine row tier s) :
    s.Orderly tier := by
  induction h with
  | start => exact .start hb
  | turn h hg hn ih => exact ih.turn hg hn
  | nextTier h hg ht ih => exact ih.nextTier hg

theorem Operator.tier_le_two (op : Operator) : op.tier ≤ 2 := by
  cases op <;> decide

/-- After the scan of the last tier one value is left and no gap. -/
theorem Scan.Orderly.single (h : s.Orderly 2) (hg : s.row.gaps[s.index]? = none) :
    s.row.gaps = [] ∧ s.row.values.length = 1 := by
  have hnil : s.row.gaps = [] := by
    apply List.eq_nil_iff_forall_not_mem.2
    intro op ho
    exact Nat.not_lt_of_ge op.tier_le_two (h.tier_lt hg ho)
  refine ⟨hnil, ?_⟩
  rw [h.balanced.1, hnil]
  rfl

structure Signed (α : Type) where
  sign : Sign
  value : α

def Signed.resolve (negate : α → α) (x : Signed α) : α := x.sign.apply negate x.value

/-- A row seen from one of its operands: the operands in front of it with the gaps behind them, and
those behind it with the gaps in front of them. -/
def Row.zip (passed : List (Signed α × Operator)) (x : Signed α)
    (tail : List (Operator × Signed α)) : Row α where
  values := passed.map (·.1.value) ++ x.value :: tail.map (·.2.value)
  signs := passed.map (·.1.sign) ++ x.sign :: tail.map (·.2.sign)
  gaps := passed.map (·.2) ++ tail.map (·.1)

/-- What a scan makes of an operand and those behind it. -/
def fire (negate : α → α) (combine : Operator → α → α → α) (tier : Nat) (x : Signed α) :
    List (Operator × Signed α) → Signed α × List (Operator × Signed α)
  | [] => (x, [])
  | (op, y) :: tail =>
    if op.tier = tier then
      fire negate combine tier ⟨.plus, combine op (x.resolve negate) (y.resolve negate)⟩ tail
    else
      let rest := fire negate combine tier y tail
      (x, (op, rest.1) :: rest.2)

variable {passed : List (Signed α × Operator)} {x y : Signed α} {tail : List (Operator × Signed α)}

theorem Row.zip_balanced (x : Signed α) (tail : List (Operator × Signed α)) :
    (Row.zip [] x tail).Balanced := by
  simp [Row.Balanced, Row.zip]

theorem Row.operand?_zip :
    (Row.zip passed x tail).operand? negate passed.length = some (x.resolve negate) := by
  simp [Row.operand?, Row.zip, Signed.resolve]

theorem Row.operand?_zip_next :
    (Row.zip passed x ((op, y) :: tail)).operand? negate (passed.length + 1) =
      some (y.resolve negate) := by
  simp [Row.operand?, Row.zip, Signed.resolve]

theorem Row.closeGap_zip :
    (Row.zip passed x ((op, y) :: tail)).closeGap negate combine passed.length op =
      some (Row.zip passed ⟨.plus, combine op (x.resolve negate) (y.resolve negate)⟩ tail) := by
  simp only [Row.closeGap, Row.operand?_zip, Row.operand?_zip_next, bind, Option.bind_some]
  simp [Row.zip, List.set_append_right, List.eraseIdx_append_of_length_le]

theorem Row.gaps_zip : (Row.zip passed x tail).gaps[passed.length]? = tail.head?.map (·.1) := by
  cases tail <;> simp [Row.zip]

theorem Row.zip_pass :
    Row.zip (passed ++ [(x, op)]) y tail = Row.zip passed x ((op, y) :: tail) := by
  simp [Row.zip]

/-- A scan leaves the operands that it has passed and fires the tier on the others. -/
theorem Scan.run_zip :
    Scan.run negate combine tier ⟨Row.zip passed x tail, passed.length⟩ =
      some (Row.zip passed (fire negate combine tier x tail).1
        (fire negate combine tier x tail).2) := by
  induction tail generalizing passed x with
  | nil => exact Scan.run_end negate combine Row.gaps_zip
  | cons item tail ih =>
    obtain ⟨op, y⟩ := item
    have hg : (Row.zip passed x ((op, y) :: tail)).gaps[passed.length]? = some op := Row.gaps_zip
    by_cases ht : op.tier = tier
    -- The index stays where a gap is closed, so the number of operands passed does not change.
    · have hn : Scan.turn negate combine tier ⟨Row.zip passed x ((op, y) :: tail), passed.length⟩ op
          = some ⟨Row.zip passed ⟨.plus, combine op (x.resolve negate) (y.resolve negate)⟩ tail,
            passed.length⟩ := by
        simp only [Scan.turn, ht, ↓reduceIte, Row.closeGap_zip, Option.map_some]
      rw [Scan.run_turn negate combine hg hn, ih]
      simp only [fire, ht, ↓reduceIte]
    · have hn : Scan.turn negate combine tier ⟨Row.zip passed x ((op, y) :: tail), passed.length⟩ op
          = some ⟨Row.zip (passed ++ [(x, op)]) y tail, (passed ++ [(x, op)]).length⟩ := by
        simp only [Scan.turn, ht, ↓reduceIte, Row.zip_pass, List.length_append, List.length_singleton]
      rw [Scan.run_turn negate combine hg hn, ih, Row.zip_pass]
      simp only [fire, ht, ↓reduceIte]

/-- An operand that is left alone by a scan has taken part in it, so that no sign is pending. -/
def Settled (row : Signed α × List (Operator × Signed α)) : Prop :=
  row.2 = [] → row.1.sign = .plus

theorem fire_sign (hx : x.sign = .plus) : (fire negate combine tier x tail).1.sign = .plus := by
  induction tail generalizing x with
  | nil => exact hx
  | cons item tail ih =>
    simp only [fire]
    split
    · exact ih rfl
    · exact hx

theorem Settled.fire {row : Signed α × List (Operator × Signed α)} (h : Settled row) :
    Settled (fire negate combine tier row.1 row.2) := by
  obtain ⟨x, tail⟩ := row
  cases tail with
  | nil => exact h
  | cons item tail =>
    simp only [Calculator.fire]
    split
    · exact fun _ => fire_sign rfl
    · exact fun hn => nomatch hn

theorem run_tiers (negate : α → α) (combine : Operator → α → α → α) (tiers : List Nat)
    (row : Signed α × List (Operator × Signed α)) :
    tiers.foldlM (fun row tier => Scan.run negate combine tier ⟨row, 0⟩) (Row.zip [] row.1 row.2) =
      some (Row.zip []
        (tiers.foldl (fun row tier => fire negate combine tier row.1 row.2) row).1
        (tiers.foldl (fun row tier => fire negate combine tier row.1 row.2) row).2) := by
  induction tiers generalizing row with
  | nil => rfl
  | cons tier tiers ih =>
    have hr : Scan.run negate combine tier ⟨Row.zip [] row.1 row.2, 0⟩ = _ := Scan.run_zip
    rw [List.foldlM_cons, hr, List.foldl_cons]
    exact ih _

def fireAll (negate : α → α) (combine : Operator → α → α → α)
    (row : Signed α × List (Operator × Signed α)) : Signed α × List (Operator × Signed α) :=
  Operator.tiers.foldl (fun row tier => fire negate combine tier row.1 row.2) row

theorem Settled.fireAll {row : Signed α × List (Operator × Signed α)} (h : Settled row) :
    Settled (fireAll negate combine row) := h.fire.fire.fire

theorem fire_gaps {item : Operator × Signed α} (hm : item ∈ (fire negate combine tier x tail).2) :
    item.1.tier ≠ tier ∧ ∃ y, (item.1, y) ∈ tail := by
  induction tail generalizing x with
  | nil => cases hm
  | cons gap tail ih =>
    obtain ⟨op, y⟩ := gap
    simp only [fire] at hm
    split at hm
    · obtain ⟨ht, z, hz⟩ := ih hm
      exact ⟨ht, z, List.mem_cons_of_mem _ hz⟩
    · next hop =>
      rcases List.mem_cons.1 hm with rfl | hm
      · exact ⟨hop, y, List.mem_cons_self⟩
      · obtain ⟨ht, z, hz⟩ := ih hm
        exact ⟨ht, z, List.mem_cons_of_mem _ hz⟩

theorem fireAll_nil (row : Signed α × List (Operator × Signed α)) :
    (fireAll negate combine row).2 = [] := by
  apply List.eq_nil_iff_forall_not_mem.2
  intro item hm
  obtain ⟨h2, y, hy⟩ := fire_gaps hm
  obtain ⟨h1, z, hz⟩ := fire_gaps hy
  obtain ⟨h0, _⟩ := fire_gaps hz
  have hle := item.1.tier_le_two
  simp only at h0 h1
  omega

/-- The value of a row is the operand that the tiers leave of it. -/
theorem Row.reduce_zip (hn : (fireAll negate combine (x, tail)).2 = []) :
    (Row.zip [] x tail).reduce negate combine =
      some ((fireAll negate combine (x, tail)).1.resolve negate) := by
  cases tail with
  | nil => rfl
  | cons item tail =>
    have hs : Settled (x, item :: tail) := fun hn => nomatch hn
    have hplus : (fireAll negate combine (x, item :: tail)).1.sign = .plus := hs.fireAll hn
    have hr := run_tiers negate combine Operator.tiers (x, item :: tail)
    have hl : (Row.zip [] x (item :: tail)).values.length ≠ 1 := by simp [Row.zip]
    rw [Row.reduce, if_neg hl, hr]
    change some (fireAll negate combine (x, item :: tail)).1.value = _
    rw [Signed.resolve, hplus]
    rfl

end

end Calculator
