import Calculator.Decimal
import Mathlib.Algebra.Order.Floor.Semifield
import Mathlib.Data.Int.Log
import Mathlib.Data.Rat.Floor
import Mathlib.Tactic.FieldSimp
import Mathlib.Tactic.Linarith
import Mathlib.Tactic.Positivity
import Mathlib.Tactic.Ring
/-!
Rounding. `rankOfRatio` depends on the ratio alone (`rankOfRatio_eq`), and a ratio that is near
enough to a double rounds to it (`rankOf_near`), be it written as a ratio or as a decimal.
-/
namespace Calculator.Double

theorem zpow_eq_div (b : ℚ) (e : Int) : b ^ e = b ^ e.toNat / b ^ (-e).toNat := by
  rcases Int.le_total 0 e with he | he
  · have h0 : (-e).toNat = 0 := by omega
    rw [h0, pow_zero, div_one, ← zpow_natCast, Int.toNat_of_nonneg he]
  · have h0 : e.toNat = 0 := by omega
    have hn : e = -((-e).toNat : Int) := by omega
    rw [h0, pow_zero, one_div, ← zpow_natCast, ← zpow_neg, ← hn]

theorem twoTo_cast (n : Nat) : (twoTo n : ℚ) = 2 ^ n := by
  change ((2 ^ n : Nat) : ℚ) = 2 ^ n
  norm_cast

section Nearest

variable {x : ℚ} {n num den : Nat}

def nearest (x : ℚ) : Nat :=
  if 1 / 2 < x - ⌊x⌋₊ ∨ (x - ⌊x⌋₊ = 1 / 2 ∧ ⌊x⌋₊ % 2 = 1) then ⌊x⌋₊ + 1 else ⌊x⌋₊

theorem nearestNat_eq (hd : 0 < den) : nearestNat num den = nearest (num / den) := by
  have hden : (0 : ℚ) < den := by exact_mod_cast hd
  have hfloor : ⌊(num / den : ℚ)⌋₊ = num / den := Nat.floor_div_eq_div num den
  have hrest : (num / den : ℚ) - (num / den : Nat) = (num % den : Nat) / den := by
    have hsum : (num : ℚ) = den * (num / den : Nat) + (num % den : Nat) := by
      exact_mod_cast (Nat.div_add_mod num den).symm
    rw [sub_eq_iff_eq_add, div_add' _ _ _ hden.ne', div_left_inj' hden.ne', hsum]
    ring
  have hlt : (1 / 2 : ℚ) < (num % den : Nat) / den ↔ den < 2 * (num % den) := by
    rw [div_lt_div_iff₀ two_pos hden, one_mul, mul_comm]
    exact_mod_cast Iff.rfl
  have heq : ((num % den : Nat) / den : ℚ) = 1 / 2 ↔ 2 * (num % den) = den := by
    rw [div_eq_div_iff hden.ne' two_ne_zero, one_mul, mul_comm]
    exact_mod_cast Iff.rfl
  simp only [nearestNat, nearest, hfloor, hrest, hlt, heq, Bool.or_eq_true, Bool.and_eq_true,
    decide_eq_true_eq, beq_iff_eq]

theorem nearest_of_floor {q : Nat} (hl : (q : ℚ) ≤ x) (hu : x < q + 1) :
    nearest x = if 1 / 2 < x - q ∨ (x - q = 1 / 2 ∧ q % 2 = 1) then q + 1 else q := by
  have hfloor : ⌊x⌋₊ = q := (Nat.floor_eq_iff (le_trans q.cast_nonneg hl)).2 ⟨hl, hu⟩
  rw [nearest, hfloor]

/-- A natural less than a half away is the nearest one. -/
theorem nearest_of_near (hx : 0 ≤ x) (hl : (n : ℚ) - 1 / 2 < x) (hu : x < n + 1 / 2) :
    nearest x = n := by
  rcases lt_or_ge x n with hn | hn
  · cases n with
    | zero => exact absurd hx (not_le.2 (by simpa using hn))
    | succ q =>
      push_cast at hl hn
      rw [nearest_of_floor (q := q) (by linarith) hn, if_pos (.inl (by linarith))]
  · have hnot : ¬ (1 / 2 < x - n ∨ (x - n = 1 / 2 ∧ n % 2 = 1)) := by
      rintro (h | ⟨h, _⟩) <;> linarith
    rw [nearest_of_floor hn (by linarith), if_neg hnot]

theorem abs_nearest_sub_le (hx : 0 ≤ x) : |(nearest x : ℚ) - x| ≤ 1 / 2 := by
  have hl : (⌊x⌋₊ : ℚ) ≤ x := Nat.floor_le hx
  have hu : x < ⌊x⌋₊ + 1 := Nat.lt_floor_add_one x
  rw [nearest]
  split
  · next h =>
    push_cast
    rw [abs_le]
    rcases h with h | ⟨h, _⟩ <;> constructor <;> linarith
  · next h =>
    have hle : x - ⌊x⌋₊ ≤ 1 / 2 := le_of_not_gt fun hlt => h (.inl hlt)
    rw [abs_le]
    constructor <;> linarith

theorem le_nearest (h : (n : ℚ) ≤ x) : n ≤ nearest x := by
  have hle : n ≤ ⌊x⌋₊ := Nat.le_floor h
  rw [nearest]
  split <;> omega

end Nearest

section Ratio

variable {num den : Nat} {w : ℚ}

/-- The rank of the double nearest to a positive rational. -/
def rankOf (w : ℚ) : Nat :=
  let e := max (-1074) (Int.log 2 w - 52)
  min infinityRank ((e + 1074).toNat * 2 ^ 52 + nearest (w / 2 ^ e))

theorem int_log_eq {e : Int} (hl : (2 : ℚ) ^ e ≤ w) (hu : w < 2 ^ (e + 1)) : Int.log 2 w = e := by
  have hw : 0 < w := lt_of_lt_of_le (zpow_pos two_pos e) hl
  have hle : e ≤ Int.log 2 w := (Int.zpow_le_iff_le_log one_lt_two hw).1 (by exact_mod_cast hl)
  have hlt : Int.log 2 w < e + 1 := (Int.lt_zpow_iff_log_lt one_lt_two hw).1 (by exact_mod_cast hu)
  omega

theorem scaled_div (b : Nat) (num den : Nat) (e : Int) :
    ((num * b ^ (-e).toNat : Nat) : ℚ) / (den * b ^ e.toNat : Nat) = num / den / b ^ e := by
  rw [zpow_eq_div, div_div_eq_mul_div, div_mul_eq_mul_div, div_div]
  push_cast
  rfl

theorem scaled_lt_iff (hd : 0 < den) (e : Int) :
    num * twoTo (-e).toNat < den * twoTo e.toNat ↔ (num / den : ℚ) < 2 ^ e := by
  have hpow : (0 : ℚ) < 2 ^ e := zpow_pos two_pos e
  have hpos : (0 : ℚ) < (den * twoTo e.toNat : Nat) := by
    exact_mod_cast Nat.mul_pos hd (Nat.pow_pos two_pos)
  have hdiv : ((num * twoTo (-e).toNat : Nat) : ℚ) / (den * twoTo e.toNat : Nat) =
      num / den / 2 ^ e := scaled_div 2 num den e
  rw [← div_lt_one hpow, ← hdiv, div_lt_one hpos, Nat.cast_lt]

theorem ratioLog2_eq (hn : 0 < num) (hd : 0 < den) :
    ratioLog2 num den = Int.log 2 (num / den : ℚ) := by
  have hden : (0 : ℚ) < den := by exact_mod_cast hd
  have hnl : (2 : ℚ) ^ (num.log2 : Int) ≤ num := by
    rw [zpow_natCast]
    exact_mod_cast Nat.log2_self_le hn.ne'
  have hnu : (num : ℚ) < 2 ^ (num.log2 + 1 : Int) := by
    exact_mod_cast Nat.lt_log2_self (n := num)
  have hdl : (2 : ℚ) ^ (den.log2 : Int) ≤ den := by
    rw [zpow_natCast]
    exact_mod_cast Nat.log2_self_le hd.ne'
  have hdu : (den : ℚ) < 2 ^ (den.log2 + 1 : Int) := by
    exact_mod_cast Nat.lt_log2_self (n := den)
  have hlow : (2 : ℚ) ^ ((num.log2 : Int) - den.log2 - 1) ≤ num / den := by
    rw [sub_sub, zpow_sub₀ two_ne_zero]
    exact div_le_div₀ (by positivity) hnl hden hdu.le
  have hhigh : (num / den : ℚ) < 2 ^ ((num.log2 : Int) - den.log2 + 1) := by
    rw [sub_add_eq_add_sub, zpow_sub₀ two_ne_zero]
    exact div_lt_div₀ hnu hdl (zpow_pos two_pos _).le (zpow_pos two_pos _)
  simp only [ratioLog2]
  split
  · next hlt =>
    rw [scaled_lt_iff hd] at hlt
    exact (int_log_eq hlow (by rwa [sub_add_cancel])).symm
  · next hge =>
    rw [scaled_lt_iff hd, not_lt] at hge
    exact (int_log_eq hge hhigh).symm

/-- A ratio is rounded as the rational that it is. -/
theorem rankOfRatio_eq (hn : 0 < num) (hd : 0 < den) :
    rankOfRatio num den = rankOf (num / den) := by
  have hnot : (decide (num = 0) || decide (den = 0)) = false := by simp [hn.ne', hd.ne']
  have hpos (e : Int) : 0 < den * twoTo e.toNat := Nat.mul_pos hd (Nat.pow_pos two_pos)
  simp only [rankOfRatio, hnot, Bool.false_eq_true, ↓reduceIte, ratioLog2_eq hn hd, rankOf]
  rw [nearestNat_eq (hpos _)]
  exact congrArg (fun x => min infinityRank (_ + nearest x)) (scaled_div 2 num den _)

end Ratio

section Rank

variable {r m : Nat} {w : ℚ} {e : Int}

def valueOfRank (r : Nat) : ℚ := significandOfRank r * 2 ^ exponentOfRank r

theorem significand_pos (h0 : 0 < r) : 0 < significandOfRank r := by
  have ht : twoTo 52 = 2 ^ 52 := rfl
  rw [significandOfRank, ht]
  split <;> omega

theorem value_eq (x : Float) : (numerator x / denominator x : ℚ) = valueOfRank (rank x) := by
  rw [numerator, denominator, valueOfRank, zpow_eq_div, Nat.cast_mul, twoTo_cast, twoTo_cast,
    mul_div_assoc]

theorem numerator_pos {x : Float} (h0 : 0 < rank x) : 0 < numerator x :=
  Nat.mul_pos (significand_pos h0) (Nat.pow_pos two_pos)

theorem denominator_pos (x : Float) : 0 < denominator x := Nat.pow_pos two_pos

/-- Significand and exponent of a rank; below the least exponent the significand has 53 digits. -/
structure Parts (r m : Nat) (e : Int) : Prop where
  pos : 0 < m
  lt : m < 2 ^ 53
  least : -1074 ≤ e
  normal : e = -1074 ∨ 2 ^ 52 ≤ m
  rank_eq : (e + 1074).toNat * 2 ^ 52 + m = r

theorem parts_of_rank (h0 : 0 < r) : Parts r (significandOfRank r) (exponentOfRank r) := by
  have ht : twoTo 52 = 2 ^ 52 := rfl
  rw [significandOfRank, exponentOfRank, ht]
  have hdiv := Nat.div_add_mod r (2 ^ 52)
  have hmod := Nat.mod_lt r (show 0 < 2 ^ 52 by decide)
  split
  · next hlt => exact ⟨h0, by omega, le_rfl, .inl rfl, by simp⟩
  · next hge =>
    have hq : 1 ≤ r / 2 ^ 52 := by omega
    exact ⟨by omega, by omega, by omega, .inr (by omega), by omega⟩

theorem rankOf_of_scaled (hl : (2 : ℚ) ^ (e + 52) ≤ w ∨ e = -1074)
    (hu : w < 2 ^ (e + 53)) (hw : 0 < w) (he : -1074 ≤ e) (hm : nearest (w / 2 ^ e) = m) :
    rankOf w = min infinityRank ((e + 1074).toNat * 2 ^ 52 + m) := by
  have hlog : Int.log 2 w < e + 53 := (Int.lt_zpow_iff_log_lt one_lt_two hw).1 (by exact_mod_cast hu)
  have hmax : max (-1074) (Int.log 2 w - 52) = e := by
    rcases hl with hl | hl
    · have hle : e + 52 ≤ Int.log 2 w :=
        (Int.zpow_le_iff_le_log one_lt_two hw).1 (by exact_mod_cast hl)
      omega
    · omega
  simp only [rankOf, hmax, hm]

theorem rankOf_at (hp : Parts r m e) (hr : r < infinityRank) (hw : 0 < w)
    (hl : (m : ℚ) - 1 / 2 < w / 2 ^ e) (hu : w / 2 ^ e < m + 1 / 2)
    (hs : e = -1074 ∨ 2 ^ 52 ≤ w / 2 ^ e) : rankOf w = r := by
  have ht : (0 : ℚ) < 2 ^ e := zpow_pos two_pos e
  have hlow : (2 : ℚ) ^ (e + 52) ≤ w ∨ e = -1074 := by
    rcases hs with hs | hs
    · exact .inr hs
    · left
      rw [zpow_add₀ two_ne_zero, mul_comm]
      exact (le_div_iff₀ ht).1 (by exact_mod_cast hs)
  have hhigh : w < 2 ^ (e + 53) := by
    have hm : (m : ℚ) ≤ 9007199254740991 := by exact_mod_cast Nat.le_of_lt_succ hp.lt
    rw [zpow_add₀ two_ne_zero, mul_comm]
    apply (div_lt_iff₀ ht).1
    norm_num
    linarith
  have hnear : nearest (w / 2 ^ e) = m := nearest_of_near (div_pos hw ht).le hl hu
  rw [rankOf_of_scaled hlow hhigh hw hp.least hnear, hp.rank_eq, min_eq_right hr.le]

/-- Below a power of two the doubles are twice as dense. -/
theorem rankOf_below (hp : Parts r (2 ^ 52) e) (he : e ≠ -1074) (hr : r < infinityRank)
    (hw : 0 < w) (hl : (2 : ℚ) ^ 52 - 1 / 4 < w / 2 ^ e) (hu : w / 2 ^ e < 2 ^ 52) :
    rankOf w = r := by
  have ht : (0 : ℚ) < 2 ^ e := zpow_pos two_pos e
  have hleast : -1074 ≤ e - 1 := by
    have hle := hp.least
    omega
  have hlow : (2 : ℚ) ^ (e - 1 + 52) ≤ w := by
    rw [show e - 1 + 52 = 51 + e by ring, zpow_add₀ two_ne_zero]
    apply (le_div_iff₀ ht).1
    norm_num at hl ⊢
    linarith
  have hhigh : w < 2 ^ (e - 1 + 53) := by
    rw [show e - 1 + 53 = 52 + e by ring, zpow_add₀ two_ne_zero]
    exact (div_lt_iff₀ ht).1 (by exact_mod_cast hu)
  have hhalf : w / 2 ^ (e - 1) = 2 * (w / 2 ^ e) := by
    rw [zpow_sub_one₀ two_ne_zero, div_mul_eq_div_div, div_inv_eq_mul, mul_comm]
  have hnear : nearest (w / 2 ^ (e - 1)) = 2 ^ 53 := by
    rw [hhalf]
    have hpos : 0 < w / 2 ^ e := div_pos hw ht
    apply nearest_of_near
    · linarith
    · push_cast
      linarith
    · push_cast
      linarith
  have hrank : (e - 1 + 1074).toNat * 2 ^ 52 + 2 ^ 53 = r := by
    have hstep : (e + 1074).toNat = (e - 1 + 1074).toNat + 1 := by omega
    rw [← hp.rank_eq, hstep]
    ring
  rw [rankOf_of_scaled (.inl hlow) hhigh hw hleast hnear, hrank, min_eq_right hr.le]

/-- A rational nearer to a double than a part in `2 ^ 54` rounds to it. -/
theorem rankOf_near (h0 : 0 < r) (hr : r < infinityRank)
    (hl : valueOfRank r - valueOfRank r / 2 ^ 54 < w)
    (hu : w < valueOfRank r + valueOfRank r / 2 ^ 54) : rankOf w = r := by
  have hp := parts_of_rank h0
  rw [valueOfRank] at hl hu
  generalize significandOfRank r = m at hp hl hu
  generalize exponentOfRank r = e at hp hl hu
  have ht : (0 : ℚ) < 2 ^ e := zpow_pos two_pos e
  have hm1 : (1 : ℚ) ≤ m := by exact_mod_cast hp.pos
  have hm2 : (m : ℚ) ≤ 9007199254740991 := by exact_mod_cast Nat.le_of_lt_succ hp.lt
  have hyl : (m : ℚ) - m / 2 ^ 54 < w / 2 ^ e := by
    rw [lt_div_iff₀ ht]
    linarith
  have hyu : w / 2 ^ e < m + m / 2 ^ 54 := by
    rw [div_lt_iff₀ ht]
    linarith
  have hw : 0 < w := by
    rw [← div_mul_cancel₀ w ht.ne']
    exact mul_pos (by linarith) ht
  by_cases hs : e = -1074 ∨ 2 ^ 52 ≤ w / 2 ^ e
  · exact rankOf_at hp hr hw (by linarith) (by linarith) hs
  · -- The rational lies just below a power of two, which the double must then be.
    obtain ⟨he, hd⟩ := not_or.1 hs
    rw [not_le] at hd
    have hm : m = 2 ^ 52 := by
      by_contra hne
      have hle := hp.normal.resolve_left he
      have hm3 : (4503599627370497 : ℚ) ≤ m := by
        exact_mod_cast (by omega : 4503599627370497 ≤ m)
      norm_num at hd
      linarith
    subst hm
    push_cast at hyl
    exact rankOf_below hp he hr hw (by linarith) hd

theorem valueOfRank_pos (h0 : 0 < r) : 0 < valueOfRank r :=
  mul_pos (by exact_mod_cast significand_pos h0) (zpow_pos two_pos _)

/-- Each double but zero and infinity is its own nearest one. -/
theorem rankOf_valueOfRank (h0 : 0 < r) (hr : r < infinityRank) : rankOf (valueOfRank r) = r := by
  have hv := valueOfRank_pos h0
  exact rankOf_near h0 hr (by linarith) (by linarith)

theorem rankOf_large (h : (2 : ℚ) ^ (1024 : Int) ≤ w) : rankOf w = infinityRank := by
  have hw : 0 < w := lt_of_lt_of_le (zpow_pos two_pos _) h
  have hlog : 1024 ≤ Int.log 2 w := (Int.zpow_le_iff_le_log one_lt_two hw).1 (by rwa [Nat.cast_ofNat])
  have hmax : max (-1074) (Int.log 2 w - 52) = Int.log 2 w - 52 := by omega
  have hpow : (2 : ℚ) ^ Int.log 2 w ≤ w := by exact_mod_cast Int.zpow_log_le_self one_lt_two hw
  have hm : 2 ^ 52 ≤ nearest (w / 2 ^ (Int.log 2 w - 52)) := by
    refine le_nearest ((le_div_iff₀ (zpow_pos two_pos _)).2 ?_)
    have hsum : ((2 ^ 52 : Nat) : ℚ) * 2 ^ (Int.log 2 w - 52) = 2 ^ Int.log 2 w := by
      rw [Nat.cast_pow, Nat.cast_ofNat, ← zpow_natCast, ← zpow_add₀ two_ne_zero]
      exact congrArg ((2 : ℚ) ^ ·) (add_sub_cancel _ _)
    rwa [hsum]
  have hinf : infinityRank = 2047 * 2 ^ 52 := by decide
  simp only [rankOf, hmax]
  rw [min_eq_left]
  have hexp : 2046 ≤ (Int.log 2 w - 52 + 1074).toNat := by omega
  rw [hinf]
  linarith [Nat.mul_le_mul_right (2 ^ 52) hexp]

/-- What is less than half of the least double rounds to zero. -/
theorem rankOf_small (hw : 0 < w) (h : w < (2 : ℚ) ^ (-1075 : Int)) : rankOf w = 0 := by
  have hlog : Int.log 2 w < -1075 := (Int.lt_zpow_iff_log_lt one_lt_two hw).1 (by exact_mod_cast h)
  have hmax : max (-1074) (Int.log 2 w - 52) = -1074 := by omega
  have hscaled : w / 2 ^ (-1074 : Int) < 1 / 2 := by
    rw [div_lt_iff₀ (zpow_pos two_pos _)]
    apply lt_of_lt_of_eq h
    rw [show (-1075 : Int) = -1 + -1074 by norm_num, zpow_add₀ two_ne_zero, zpow_neg_one, one_div]
  have hpos : 0 < w / 2 ^ (-1074 : Int) := div_pos hw (zpow_pos two_pos _)
  simp only [rankOf, hmax]
  generalize w / 2 ^ (-1074 : Int) = y at hscaled hpos ⊢
  have hnear : nearest y = 0 := by
    refine nearest_of_near hpos.le ?_ ?_ <;> push_cast <;> linarith
  rw [hnear]
  decide

end Rank

section Decimals

variable {d : Nat} {e : Int}

/-- What a decimal with the given digits and exponent stands for. -/
def decimalValue (d : Nat) (e : Int) : ℚ := d * 10 ^ e

theorem decimalValue_pos (hd : 0 < d) : 0 < decimalValue d e :=
  mul_pos (by exact_mod_cast hd) (zpow_pos (by norm_num) e)

theorem rankOfScaled_eq (hd : 0 < d) : Decimal.rankOfScaled d e = rankOf (decimalValue d e) := by
  have hten (n : Nat) : 0 < Decimal.tenTo n := Nat.pow_pos (by decide)
  have hcast (n : Nat) : (Decimal.tenTo n : ℚ) = 10 ^ n := by
    change ((10 ^ n : Nat) : ℚ) = 10 ^ n
    norm_cast
  rw [Decimal.rankOfScaled, rankOfRatio_eq (Nat.mul_pos hd (hten _)) (hten _), decimalValue,
    zpow_eq_div]
  push_cast
  rw [hcast, hcast, mul_div_assoc]

/-- The first of the digits of a number counts. -/
theorem ten_zpow_le (hd : 0 < d) : (10 : ℚ) ^ ((Nat.toDigits 10 d).length - 1 : Int) ≤ d := by
  have hlen : 0 < (Nat.toDigits 10 d).length := Nat.length_toDigits_pos
  have hle : 10 ^ ((Nat.toDigits 10 d).length - 1) ≤ d := by
    rcases Nat.eq_or_lt_of_le (Nat.succ_le_of_lt hlen) with h1 | h1
    · rw [← h1]
      exact hd
    · apply not_lt.1
      intro hlt
      have hshort := (Nat.length_toDigits_le_iff (by decide) (by omega)).2 hlt
      omega
  rw [← Nat.cast_one, ← Nat.cast_sub hlen, zpow_natCast]
  exact_mod_cast hle

theorem lt_ten_zpow : (d : ℚ) < 10 ^ ((Nat.toDigits 10 d).length : Int) := by
  have hlen : 0 < (Nat.toDigits 10 d).length := Nat.length_toDigits_pos
  rw [zpow_natCast]
  exact_mod_cast (Nat.length_toDigits_le_iff (by decide) hlen).1 le_rfl

theorem two_le_ten : (2 : ℚ) ^ (1024 : Int) ≤ 10 ^ (310 : Int) := by
  have h : 2 ^ 1024 ≤ 10 ^ 310 := by decide +kernel
  rw [zpow_ofNat, zpow_ofNat]
  exact_mod_cast h

theorem ten_lt_two : (10 : ℚ) ^ (-330 : Int) < 2 ^ (-1075 : Int) := by
  have h : 2 ^ 1075 < 10 ^ 330 := by decide +kernel
  rw [zpow_neg, zpow_neg, zpow_ofNat, zpow_ofNat]
  apply inv_strictAnti₀ (pow_pos two_pos _)
  exact_mod_cast h

/-- The clamps of large and of small decimals do not change what they round to. -/
theorem rankOfDecimal_eq (hd : 0 < d) : Decimal.rankOfDecimal d e = rankOf (decimalValue d e) := by
  have hten : (0 : ℚ) < 10 ^ e := zpow_pos (by norm_num) e
  rw [Decimal.rankOfDecimal, if_neg hd.ne']
  simp only
  split
  · next hlarge =>
    refine (rankOf_large ?_).symm
    calc (2 : ℚ) ^ (1024 : Int) ≤ 10 ^ (310 : Int) := two_le_ten
      _ ≤ 10 ^ (((Nat.toDigits 10 d).length - 1 : Int) + e) :=
          zpow_le_zpow_right₀ (by norm_num) (by omega)
      _ = 10 ^ ((Nat.toDigits 10 d).length - 1 : Int) * 10 ^ e := zpow_add₀ (by norm_num) _ _
      _ ≤ decimalValue d e := mul_le_mul_of_nonneg_right (ten_zpow_le hd) hten.le
  · split
    · next hsmall =>
      refine (rankOf_small (decimalValue_pos hd) ?_).symm
      calc decimalValue d e < 10 ^ ((Nat.toDigits 10 d).length : Int) * 10 ^ e :=
            mul_lt_mul_of_pos_right lt_ten_zpow hten
        _ = 10 ^ (((Nat.toDigits 10 d).length : Int) + e) := (zpow_add₀ (by norm_num) _ _).symm
        _ ≤ 10 ^ (-330 : Int) := zpow_le_zpow_right₀ (by norm_num) (by omega)
        _ < 2 ^ (-1075 : Int) := ten_lt_two
    · exact rankOfScaled_eq hd

end Decimals

end Calculator.Double
