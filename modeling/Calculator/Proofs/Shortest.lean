import Calculator.Proofs.Rounding
import Mathlib.Data.Nat.Cast.Order.Field
/-!
Shortest decimals. The digits that `shortest` finds round to the double that they are found for
(`shortest_denotes`): on the grid of seventeen digits the nearest point does.
-/
namespace Calculator.Decimal

open Double

variable {r num den grids digits d : Nat} {e exponent : Int} {w : ℚ}

/-- The decimal `d · 10 ^ e` stands for the double of the given rank. -/
def Denotes (d : Nat) (e : Int) (r : Nat) : Prop := 0 < d ∧ rankOf (decimalValue d e) = r

theorem rankOfScaled_zero (e : Int) : rankOfScaled 0 e = 0 := by
  rw [rankOfScaled, Nat.zero_mul, rankOfRatio]
  rfl

theorem denotes_of_mem (h0 : 0 < r) (h : d ∈ gridPoints r num den e) : Denotes d e r := by
  have hr : rankOfScaled d e = r := by
    have hp := (List.mem_filter.1 h).2
    exact beq_iff_eq.1 hp
  have hd : 0 < d := by
    apply Nat.pos_of_ne_zero
    intro hz
    rw [hz, rankOfScaled_zero] at hr
    exact h0.ne hr
  exact ⟨hd, (rankOfScaled_eq hd).symm.trans hr⟩

theorem firstGrid_denotes (h0 : 0 < r) (h : firstGrid r num den grids exponent = some (d, e)) :
    Denotes d e r := by
  induction grids generalizing exponent with
  | zero => cases h
  | succ grids ih =>
    rw [firstGrid] at h
    split at h
    · next hg =>
      cases h
      exact denotes_of_mem h0 (by rw [hg]; exact List.mem_cons_self)
    · exact ih h

/-- The search ends at the latest at a grid that has a point. -/
theorem firstGrid_isSome {k : Nat} (hk : k < grids)
    (h : gridPoints r num den (exponent - k) ≠ []) :
    ∃ found, firstGrid r num den grids exponent = some found := by
  induction grids generalizing exponent k with
  | zero => cases hk
  | succ grids ih =>
    rw [firstGrid]
    split
    · exact ⟨_, rfl⟩
    · next hg =>
      cases k with
      | zero =>
        rw [Nat.cast_zero, sub_zero] at h
        exact absurd hg h
      | succ k =>
        apply ih (Nat.lt_of_succ_lt_succ hk)
        rwa [sub_sub, add_comm 1, ← Nat.cast_succ]

theorem withoutTrailingZeros_denotes {n : Nat} (h : Denotes digits exponent r) :
    Denotes (withoutTrailingZeros n (digits, exponent)).1
      (withoutTrailingZeros n (digits, exponent)).2 r := by
  induction n generalizing digits exponent with
  | zero => exact h
  | succ n ih =>
    simp only [withoutTrailingZeros]
    split
    · next hz =>
      have hdigits : digits = digits / 10 * 10 := by omega
      have hvalue : decimalValue (digits / 10) (exponent + 1) = decimalValue digits exponent := by
        rw [decimalValue, decimalValue, zpow_add_one₀ (by norm_num)]
        nth_rewrite 2 [hdigits]
        push_cast
        ring
      exact ih ⟨by have := h.1; omega, by rw [hvalue]; exact h.2⟩
    · exact h

theorem tenTo_pos (n : Nat) : 0 < tenTo n := Nat.pow_pos (by decide)

/-- The first of the digits of a ratio is at `pointPlace`. -/
theorem ten_zpow_pointPlace_le (hn : 0 < num) (hd : 0 < den) :
    (10 : ℚ) ^ (pointPlace num den - 1) ≤ num / den := by
  have hden : (0 : ℚ) < den := by exact_mod_cast hd
  simp only [pointPlace]
  split
  · next hle =>
    apply le_trans (ten_zpow_le (Nat.div_pos hle hd))
    exact Nat.cast_div_le
  · next hlt =>
    have hq : 0 < den / num := Nat.div_pos (by omega) hn
    have hlen : 0 < (Nat.toDigits 10 (den / num)).length := Nat.length_toDigits_pos
    generalize hz : (Nat.toDigits 10 (den / num)).length - 1 = zeros
    have hbound : den < num * 10 ^ (zeros + 1) := by
      have hlt := (Nat.length_toDigits_le_iff (n := den / num) (by decide) hlen).1 le_rfl
      rw [Nat.div_lt_iff_lt_mul hn] at hlt
      rw [← hz, Nat.sub_add_cancel hlen, mul_comm]
      exact hlt
    have hpow (n : Nat) (h : den ≤ num * 10 ^ n) : (10 : ℚ) ^ (-(n : Int)) ≤ num / den := by
      rw [zpow_neg, zpow_natCast, inv_le_iff_one_le_mul₀ (pow_pos (by norm_num) n),
        div_mul_eq_mul_div, one_le_div hden]
      exact_mod_cast h
    split
    · next hz =>
      rw [show 1 - (zeros : Int) - 1 = -(zeros : Int) by ring]
      exact hpow zeros hz
    · rw [show -(zeros : Int) - 1 = -((zeros + 1 : Nat) : Int) by push_cast; ring]
      exact hpow (zeros + 1) hbound.le

/-- With seventeen digits the nearest point of the grid is near enough to round to the double. -/
theorem gridPoints_ne_nil (h0 : 0 < r) (hr : r < infinityRank) (hn : 0 < num) (hd : 0 < den)
    (hw : (num / den : ℚ) = valueOfRank r) :
    gridPoints r num den (pointPlace num den - 1 - (16 : Nat)) ≠ [] := by
  have hfirst := ten_zpow_pointPlace_le hn hd
  generalize pointPlace num den - 1 = k at hfirst
  have hscale : (10 : ℚ) ^ (k - (16 : Nat)) * 10 ^ 16 = 10 ^ k := by
    rw [← zpow_natCast, ← zpow_add₀ (by norm_num), sub_add_cancel]
  generalize hg : k - ((16 : Nat) : Int) = e at hscale
  have hten : (0 : ℚ) < 10 ^ e := zpow_pos (by norm_num) e
  rw [hw] at hfirst
  generalize hv : valueOfRank r = v at hw hfirst
  have hv0 : 0 < v := lt_of_lt_of_le (zpow_pos (by norm_num) k) hfirst
  have hnear : nearestNat (num * tenTo (-e).toNat) (den * tenTo e.toNat) = nearest (v / 10 ^ e) := by
    rw [nearestNat_eq (Nat.mul_pos hd (tenTo_pos _)), ← hw]
    exact congrArg nearest (scaled_div 10 num den e)
  -- The first digit is at `k`, so half a step of the grid is at most a part in `2 · 10 ^ 16`.
  have hclose : |decimalValue (nearest (v / 10 ^ e)) e - v| ≤ 10 ^ e / 2 := by
    have habs := abs_nearest_sub_le (div_pos hv0 hten).le
    have hmul : decimalValue (nearest (v / 10 ^ e)) e - v =
        (nearest (v / 10 ^ e) - v / 10 ^ e) * 10 ^ e := by
      rw [decimalValue, sub_mul, div_mul_cancel₀ v hten.ne']
    rw [hmul, abs_mul, abs_of_pos hten]
    linarith [mul_le_mul_of_nonneg_right habs hten.le]
  obtain ⟨hl, hu⟩ := abs_le.1 hclose
  have hpos : 0 < nearest (v / 10 ^ e) := by
    apply Nat.pos_of_ne_zero
    intro hz
    rw [hz, decimalValue, Nat.cast_zero, zero_mul] at hl
    linarith
  have hrank : rankOfScaled (nearest (v / 10 ^ e)) e = r := by
    rw [rankOfScaled_eq hpos]
    refine rankOf_near h0 hr ?_ ?_ <;> rw [hv] <;> linarith
  refine List.ne_nil_of_mem (a := nearest (v / 10 ^ e)) (List.mem_filter.2 ⟨?_, ?_⟩)
  · rw [hnear]
    exact List.mem_cons_self
  · rw [hrank]
    exact beq_self_eq_true r

theorem shortest_denotes {x : Float} (h0 : 0 < rank x) (hr : rank x < infinityRank) :
    Denotes (shortest x).1 (shortest x).2 (rank x) := by
  have hpoints := gridPoints_ne_nil h0 hr (numerator_pos h0) (denominator_pos x) (value_eq x)
  obtain ⟨⟨digits, exponent⟩, hf⟩ := firstGrid_isSome (by decide : 16 < 17) hpoints
  rw [shortest]
  simp only [hf]
  exact withoutTrailingZeros_denotes (firstGrid_denotes h0 hf)

end Calculator.Decimal
