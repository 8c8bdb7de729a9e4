import Calculator.Element
import Calculator.Proofs.Double
import Calculator.Proofs.Numeral
import Calculator.Proofs.Shortest
/-!
Number texts. The text of a finite double without sign is a numeral that reads as it
(`Unsigned.numeral_reads`), and that of infinity is a name.
-/
namespace Calculator

open Decimal

section Ascii

variable {c : Char} {cs ds : List Char} {n : Nat}

def AsciiDigits (cs : List Char) : Prop := ∀ c ∈ cs, c.isDigit = true

theorem digitValue?_of_isDigit (h : c.isDigit = true) :
    Text.digitValue? c = some (c.toNat - '0'.toNat) := by
  simp only [Char.isDigit, Bool.and_eq_true, decide_eq_true_eq] at h
  have hl : 0x30 ≤ c.toNat := h.1
  have hu : c.toNat ≤ 0x39 := h.2
  have hz : (decide (0x30 ≤ c.toNat) && decide (c.toNat < 0x30 + 10)) = true := by
    simp only [Bool.and_eq_true, decide_eq_true_eq]
    omega
  have hf : Text.digitZeros.find? (fun z => decide (z ≤ c.toNat) && decide (c.toNat < z + 10)) =
      some 0x30 := List.find?_cons_of_pos hz
  rw [Text.digitValue?, hf]
  rfl

theorem AsciiDigits.digits (h : AsciiDigits cs) : Digits cs := by
  intro c hc
  rw [Text.isDigit, digitValue?_of_isDigit (h c hc)]
  rfl

theorem AsciiDigits.append (hc : AsciiDigits cs) (hd : AsciiDigits ds) :
    AsciiDigits (cs ++ ds) := by
  intro c hm
  rcases List.mem_append.1 hm with hm | hm
  · exact hc c hm
  · exact hd c hm

theorem AsciiDigits.take (h : AsciiDigits cs) (n : Nat) : AsciiDigits (cs.take n) :=
  fun c hc => h c (List.mem_of_mem_take hc)

theorem AsciiDigits.drop (h : AsciiDigits cs) (n : Nat) : AsciiDigits (cs.drop n) :=
  fun c hc => h c (List.mem_of_mem_drop hc)

theorem asciiDigits_replicate (n : Nat) : AsciiDigits (List.replicate n '0') := by
  intro c hc
  rw [List.eq_of_mem_replicate hc]
  decide

theorem asciiDigits_toDigits (n : Nat) : AsciiDigits (Nat.toDigits 10 n) :=
  fun _ hc => Nat.isDigit_of_mem_toDigits (by decide) (by decide) hc

theorem AsciiDigits.digitsValue (h : AsciiDigits cs) : digitsValue cs = Nat.ofDigitChars 10 cs 0 := by
  rw [Decimal.digitsValue, Nat.ofDigitChars_eq_foldl]
  apply List.foldl_ext _ _ 0
  intro n c hc
  rw [digitValue?_of_isDigit (h c hc)]
  rfl

theorem ofDigitChars_toDigits (n : Nat) : Nat.ofDigitChars 10 (Nat.toDigits 10 n) 0 = n :=
  Nat.ofDigitChars_toDigits (by decide) (by decide)

theorem digitsValue_toDigits (n : Nat) : digitsValue (Nat.toDigits 10 n) = n := by
  rw [(asciiDigits_toDigits n).digitsValue, ofDigitChars_toDigits]

theorem digitsValue_zeros_append (hc : AsciiDigits cs) (n : Nat) :
    digitsValue (List.replicate n '0' ++ cs) = digitsValue cs := by
  rw [((asciiDigits_replicate n).append hc).digitsValue, hc.digitsValue, Nat.ofDigitChars_append,
    Nat.ofDigitChars_replicate_zero, Nat.mul_zero]

theorem digitsValue_append_zeros (hc : AsciiDigits cs) (n : Nat) :
    digitsValue (cs ++ List.replicate n '0') = 10 ^ n * digitsValue cs := by
  rw [(hc.append (asciiDigits_replicate n)).digitsValue, hc.digitsValue, Nat.ofDigitChars_append,
    Nat.ofDigitChars_replicate_zero]

end Ascii

section Layouts

variable {cs : List Char} {d r : Nat} {e exponent place : Int} {x : Float} {l : Layout}

/-- The text is a numeral that stands for the decimal `d · 10 ^ e`. -/
def Writes (cs : List Char) (d : Nat) (e : Int) : Prop :=
  Numeral cs ∧ ∃ digits i, unsigned? cs = some (digits, i) ∧
    Double.decimalValue digits i = Double.decimalValue d e

theorem Writes.mk {whole fraction mark : List Char} {i : Int} (hw : Digits whole)
    (hf : Fraction fraction) (he : Exponent mark) (hd : whole ≠ [])
    (hi : exponent? mark = some i)
    (hv : Double.decimalValue (digitsValue (whole ++ fraction.drop 1))
      (i - (fraction.drop 1).length) = Double.decimalValue d e) :
    Writes (whole ++ fraction ++ mark) d e :=
  ⟨.mk hw hf he (.inl hd), _, _, unsigned?_numeral hw hf he (.inl hd) hi, hv⟩

theorem Writes.readChars? (h : Writes cs d e) (hd : Denotes d e r) :
    Decimal.readChars? cs = some (Double.ofRank false r) := by
  obtain ⟨hn, digits, i, hu, hv⟩ := h
  have hpos : 0 < digits := by
    apply Nat.pos_of_ne_zero
    intro hz
    have hvalue := Double.decimalValue_pos (e := e) hd.1
    rw [← hv, hz, Double.decimalValue, Nat.cast_zero, zero_mul] at hvalue
    exact lt_irrefl 0 hvalue
  rw [readChars?_numeral hn hu, Double.rankOfDecimal_eq hpos, hv, hd.2]

theorem decimalValue_append_zeros (d n : Nat) (e : Int) :
    Double.decimalValue (10 ^ n * d) e = Double.decimalValue d (e + n) := by
  rw [Double.decimalValue, Double.decimalValue, zpow_add₀ (by norm_num), zpow_natCast]
  push_cast
  ring

/-- The point stands in front of all digits. -/
theorem writes_plainText_below (hcs : AsciiDigits cs) (hd : digitsValue cs = d)
    (hp : (cs.length : Int) + exponent = place) (hsmall : place ≤ 0) :
    Writes (plainText cs place) d exponent := by
  have hzeros : AsciiDigits (zeros (-place)) := asciiDigits_replicate (-place).toNat
  have htext : plainText cs place = ['0'] ++ ('.' :: (zeros (-place) ++ cs)) ++ [] := by
    simp [plainText, hsmall]
  have hvalue : digitsValue (['0'] ++ (zeros (-place) ++ cs)) = d := by
    have h1 := digitsValue_zeros_append (hzeros.append hcs) 1
    exact h1.trans ((digitsValue_zeros_append hcs _).trans hd)
  rw [htext]
  refine .mk (asciiDigits_replicate 1).digits (.point (hzeros.append hcs).digits) .absent
    (List.cons_ne_nil _ _) rfl ?_
  rw [List.drop_one, List.tail_cons, hvalue]
  apply congrArg (Double.decimalValue d)
  simp only [zeros, List.length_append, List.length_replicate]
  omega

/-- The point stands behind all digits. -/
theorem writes_plainText_above (hcs : AsciiDigits cs) (hne : cs ≠ []) (hd : digitsValue cs = d)
    (hp : (cs.length : Int) + exponent = place) (hsmall : ¬ place ≤ 0)
    (hlong : (cs.length : Int) ≤ place) : Writes (plainText cs place) d exponent := by
  have hzeros : AsciiDigits (zeros (place - cs.length)) := asciiDigits_replicate _
  have htext : plainText cs place = (cs ++ zeros (place - cs.length)) ++ ['.', '0'] ++ [] := by
    have hdrop : cs.drop place.toNat = [] := List.drop_eq_nil_of_le (by omega)
    have htake : cs.take place.toNat = cs := List.take_of_length_le (by omega)
    simp [plainText, hsmall, hdrop, htake]
  have hvalue : digitsValue (cs ++ zeros (place - cs.length) ++ ['0']) =
      10 ^ ((place - cs.length).toNat + 1) * d := by
    have hone : ['0'] = List.replicate 1 '0' := rfl
    rw [zeros, hone, List.append_assoc, List.replicate_append_replicate,
      digitsValue_append_zeros hcs, hd]
  rw [htext]
  refine .mk (hcs.append hzeros).digits (.point (asciiDigits_replicate 1).digits) .absent
    (by simp [hne]) rfl ?_
  rw [List.drop_one, List.tail_cons, hvalue, decimalValue_append_zeros]
  apply congrArg (Double.decimalValue d)
  simp only [List.length_singleton]
  omega

/-- The point stands between two digits. -/
theorem writes_plainText_inside (hcs : AsciiDigits cs) (hne : cs ≠ []) (hd : digitsValue cs = d)
    (hp : (cs.length : Int) + exponent = place) (hsmall : ¬ place ≤ 0)
    (hlong : ¬ (cs.length : Int) ≤ place) : Writes (plainText cs place) d exponent := by
  have htext : plainText cs place = cs.take place.toNat ++ ('.' :: cs.drop place.toNat) ++ [] := by
    have hdrop : cs.drop place.toNat ≠ [] := by
      rw [ne_eq, List.drop_eq_nil_iff]
      omega
    have hzero : zeros (place - cs.length) = [] := by
      rw [zeros, Int.toNat_eq_zero.2 (by omega), List.replicate_zero]
    simp [plainText, hsmall, hdrop, hzero]
  rw [htext]
  refine .mk (hcs.take _).digits (.point (hcs.drop _).digits) .absent ?_ rfl ?_
  · rw [ne_eq, List.take_eq_nil_iff]
    exact not_or.2 ⟨by omega, hne⟩
  · rw [List.drop_one, List.tail_cons, List.take_append_drop, hd]
    apply congrArg (Double.decimalValue d)
    rw [List.length_drop]
    omega

theorem writes_plainText (hcs : AsciiDigits cs) (hne : cs ≠ []) (hd : digitsValue cs = d)
    (hp : (cs.length : Int) + exponent = place) : Writes (plainText cs place) d exponent := by
  by_cases hsmall : place ≤ 0
  · exact writes_plainText_below hcs hd hp hsmall
  · by_cases hlong : (cs.length : Int) ≤ place
    · exact writes_plainText_above hcs hne hd hp hsmall hlong
    · exact writes_plainText_inside hcs hne hd hp hsmall hlong

theorem exponent_padded (i : Int) (n : Nat) :
    Exponent ('e' :: (if i < 0 then '-' else '+') :: padded n (Nat.toDigits 10 i.natAbs)) ∧
      exponent? ('e' :: (if i < 0 then '-' else '+') :: padded n (Nat.toDigits 10 i.natAbs)) =
        some i := by
  have hdigits : AsciiDigits (padded n (Nat.toDigits 10 i.natAbs)) :=
    (asciiDigits_replicate _).append (asciiDigits_toDigits _)
  have hne : padded n (Nat.toDigits 10 i.natAbs) ≠ [] := by
    simp [padded, Nat.toDigits_ne_nil]
  have hvalue : digitsValue (padded n (Nat.toDigits 10 i.natAbs)) = i.natAbs := by
    rw [padded, digitsValue_zeros_append (asciiDigits_toDigits _), digitsValue_toDigits]
  split
  · next hneg =>
    refine ⟨@Exponent.marked 'e' ['-'] _ (.inl rfl) (.inr (.inr rfl)) hdigits.digits hne, ?_⟩
    refine (@exponent?_marked _ 'e' ['-'] (.inl rfl) (.inr (.inr rfl)) hdigits.digits hne).trans ?_
    rw [if_pos rfl, hvalue]
    exact congrArg some (by omega)
  · next hpos =>
    refine ⟨@Exponent.marked 'e' ['+'] _ (.inl rfl) (.inr (.inl rfl)) hdigits.digits hne, ?_⟩
    refine (@exponent?_marked _ 'e' ['+'] (.inl rfl) (.inr (.inl rfl)) hdigits.digits hne).trans ?_
    rw [if_neg (by decide), hvalue]
    exact congrArg some (by omega)

theorem writes_scientificText (l : Layout) (hcs : AsciiDigits cs) (hne : cs ≠ [])
    (hd : digitsValue cs = d) (hp : (cs.length : Int) + exponent = place) :
    Writes (scientificText l cs (place - 1)) d exponent := by
  obtain ⟨hmark, hvalue⟩ := exponent_padded (place - 1) l.exponentDigits
  have hfirst : cs.take 1 ≠ [] := by simp [hne]
  have hlen : 0 < cs.length := List.length_pos_of_ne_nil hne
  rw [scientificText]
  split
  · next hone =>
    rw [List.isEmpty_iff] at hone
    refine .mk (hcs.take 1).digits .absent hmark hfirst hvalue ?_
    have hwhole : cs.take 1 = cs := by
      rw [← List.append_nil (cs.take 1), ← hone, List.take_append_drop]
    rw [List.drop_nil, List.append_nil, hwhole, hd]
    apply congrArg (Double.decimalValue d)
    rw [List.drop_eq_nil_iff] at hone
    simp only [List.length_nil]
    omega
  · refine .mk (hcs.take 1).digits (.point (hcs.drop 1).digits) hmark hfirst hvalue ?_
    rw [List.drop_succ_cons, List.drop_zero, List.take_append_drop, hd]
    apply congrArg (Double.decimalValue d)
    rw [List.length_drop]
    omega

end Layouts

section Numbers

variable {x : Float}

theorem magnitudeText_reads (hn : Double.isNaN x = false) (hf : Double.isInfinite x = false)
    (h0 : Double.rank x ≠ 0) :
    Writes (magnitudeText x) (shortest x).1 (shortest x).2 := by
  have hcs : AsciiDigits (Nat.toDigits 10 (shortest x).1) := asciiDigits_toDigits _
  have hne : Nat.toDigits 10 (shortest x).1 ≠ [] := Nat.toDigits_ne_nil
  simp only [magnitudeText, hn, hf, h0, Bool.false_eq_true, ↓reduceIte]
  split
  · exact writes_plainText hcs hne (digitsValue_toDigits _) rfl
  · exact writes_scientificText layout hcs hne (digitsValue_toDigits _) rfl

/-- The integer that a double without sign is has no sign either. -/
theorem exists_of_toInt? {i : Int} (hs : Double.isNegative x = false)
    (hi : Double.toInt? x = some i) :
    ∃ n : Nat, i = n ∧ Double.numerator x = n * Double.denominator x := by
  simp only [Double.toInt?, Double.signedNumerator, hs, Bool.false_eq_true, ↓reduceIte,
    Option.ite_none_right_eq_some, Bool.and_eq_true, beq_iff_eq, Option.some.injEq] at hi
  obtain ⟨⟨_, hdvd⟩, rfl⟩ := hi
  refine ⟨Double.numerator x / Double.denominator x, ?_, ?_⟩
  · exact Int.fdiv_eq_ediv_of_nonneg _ (Int.natCast_nonneg _)
  · exact (Nat.div_mul_cancel (Nat.dvd_of_mod_eq_zero hdvd)).symm

theorem rankOfDecimal_integer {n : Nat} (hlt : Double.rank x < Double.infinityRank)
    (hn : Double.numerator x = n * Double.denominator x) :
    rankOfDecimal n 0 = Double.rank x := by
  rcases Nat.eq_zero_or_pos (Double.rank x) with h0 | h0
  · have hzero : n * Double.denominator x = 0 := by
      rw [← hn, Double.numerator, h0, Double.significandOfRank]
      exact Nat.zero_mul _
    have hn0 : n = 0 :=
      (Nat.mul_eq_zero.1 hzero).resolve_right (Double.denominator_pos x).ne'
    rw [hn0, h0, rankOfDecimal, if_pos rfl]
  · have hpos : 0 < n := by
      apply Nat.pos_of_ne_zero
      intro hn0
      have hnum := Double.numerator_pos h0
      rw [hn, hn0, Nat.zero_mul] at hnum
      exact lt_irrefl 0 hnum
    have hden : (Double.denominator x : ℚ) ≠ 0 := by
      exact_mod_cast (Double.denominator_pos x).ne'
    have hvalue : Double.decimalValue n 0 = Double.valueOfRank (Double.rank x) := by
      rw [← Double.value_eq, hn, Double.decimalValue, zpow_zero, mul_one, Nat.cast_mul,
        mul_div_cancel_right₀ _ hden]
    rw [Double.rankOfDecimal_eq hpos, hvalue, Double.rankOf_valueOfRank h0 hlt]

theorem toList_toString_natCast (n : Nat) : (toString (n : Int)).toList = Nat.toDigits 10 n :=
  Nat.toList_repr

theorem natural_reads (n : Nat) :
    Numeral (Nat.toDigits 10 n) ∧
      Decimal.readChars? (Nat.toDigits 10 n) = some (Double.ofRank false (rankOfDecimal n 0)) := by
  have hdigits := (asciiDigits_toDigits n).digits
  have hw : Nat.toDigits 10 n ≠ [] ∨ 2 ≤ ([] : List Char).length := .inl Nat.toDigits_ne_nil
  have hnumeral : Numeral (Nat.toDigits 10 n ++ [] ++ []) := .mk hdigits .absent .absent hw
  have hu := unsigned?_numeral hdigits .absent .absent hw rfl
  rw [List.append_nil, List.append_nil] at hnumeral hu
  rw [List.drop_nil, List.append_nil, digitsValue_toDigits] at hu
  refine ⟨hnumeral, (readChars?_numeral hnumeral hu).trans ?_⟩
  rw [List.length_nil, Nat.cast_zero, sub_zero]

theorem rank_ne_zero_of_toInt? (hf : Double.isFinite x = true) (hi : Double.toInt? x = none) :
    Double.rank x ≠ 0 := by
  intro h0
  have hnum : Double.numerator x = 0 := by
    rw [Double.numerator, h0, Double.significandOfRank]
    exact Nat.zero_mul _
  simp [Double.toInt?, hf, hnum] at hi

/-- The text of a finite double without sign is a numeral that reads as the double. -/
theorem Unsigned.numeral_reads (h : Unsigned x) (hf : Double.isInfinite x = false) :
    Numeral (Element.numeral x).toList ∧
      Decimal.readChars? (Element.numeral x).toList = some x := by
  obtain ⟨r, hr, rfl⟩ := h
  have hrank := Double.rank_ofRank hr
  have hlt : r < Double.infinityRank := by
    rw [Double.isInfinite, hrank, beq_eq_false_iff_ne] at hf
    omega
  have hnan : Double.isNaN (Double.ofRank false r) = false := by
    rw [Double.isNaN, hrank]
    exact decide_eq_false (by omega)
  have hsign := Double.isNegative_ofRank hr
  rw [Element.numeral]
  split
  · next i hi =>
    obtain ⟨n, rfl, hn⟩ := exists_of_toInt? hsign hi
    have hread := rankOfDecimal_integer (by rwa [hrank]) hn
    have hnatural := natural_reads n
    rw [hread, hrank] at hnatural
    rw [toList_toString_natCast]
    exact hnatural
  · next hnone =>
    have hfinite : Double.isFinite (Double.ofRank false r) = true := by
      rw [Double.isFinite, hrank]
      exact decide_eq_true hlt
    have h0 := rank_ne_zero_of_toInt? hfinite hnone
    have hw := magnitudeText_reads hnan hf h0
    have hd := shortest_denotes (Nat.pos_of_ne_zero h0) (by rwa [hrank])
    rw [hrank] at hd
    simp only [Decimal.text, textChars, hsign, Bool.false_and, Bool.false_eq_true, ↓reduceIte,
      List.nil_append, String.toList_ofList]
    exact ⟨hw.1, hw.readChars? hd⟩

theorem Unsigned.numeral_of_isInfinite (h : Unsigned x) (hf : Double.isInfinite x = true) :
    Element.numeral x = "inf" := by
  obtain ⟨r, hr, rfl⟩ := h
  have hsign := Double.isNegative_ofRank hr
  have hrank : Double.rank (Double.ofRank false r) = Double.infinityRank := beq_iff_eq.1 hf
  have hnone : Double.toInt? (Double.ofRank false r) = none := by
    simp [Double.toInt?, Double.isFinite, hrank]
  have hnan : Double.isNaN (Double.ofRank false r) = false := by
    rw [Double.isNaN, hrank]
    exact decide_eq_false (lt_irrefl _)
  rw [Element.numeral, hnone]
  simp only [Decimal.text, textChars, magnitudeText, hsign, hnan, hf, Bool.false_and,
    Bool.false_eq_true, ↓reduceIte]
  rfl

end Numbers

end Calculator
