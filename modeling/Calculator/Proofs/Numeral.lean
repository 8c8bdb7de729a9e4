import Calculator.Decimal
import Calculator.Token
import Mathlib.Data.List.TakeWhile
/-!
Numerals: digits with at most one point, and an exponent. `number?` takes the longest numeral in
front of a text (`Numeral.of_number?`, `Numeral.number?_append`), and each numeral has a value
(`Numeral.read`).
-/
namespace Calculator

section Digits

variable {c : Char} {cs ds rest : List Char}

theorem mem_digitZeros {v : Nat} (h : Text.digitValue? c = some v) :
    ∃ z ∈ Text.digitZeros, z ≤ c.toNat ∧ c.toNat < z + 10 ∧ v = c.toNat - z := by
  obtain ⟨z, hz, hv⟩ := Option.map_eq_some_iff.1 h
  have hp := List.find?_some hz
  simp only [Bool.and_eq_true, decide_eq_true_eq] at hp
  exact ⟨z, List.mem_of_find?_eq_some hz, hp.1, hp.2, hv.symm⟩

theorem isDigit_zero (h : Text.isDigit c = true) :
    ∃ z ∈ Text.digitZeros, z ≤ c.toNat ∧ c.toNat < z + 10 := by
  obtain ⟨v, hv⟩ := Option.isSome_iff_exists.1 h
  obtain ⟨z, hz, hl, hu, _⟩ := mem_digitZeros hv
  exact ⟨z, hz, hl, hu⟩

/-- Apart from those of ASCII all digits lie far above the letters. -/
theorem isDigit_toNat (h : Text.isDigit c = true) :
    (0x30 ≤ c.toNat ∧ c.toNat ≤ 0x39) ∨ 0x660 ≤ c.toNat := by
  have hz : ∀ z ∈ Text.digitZeros, z = 0x30 ∨ 0x660 ≤ z := by decide
  obtain ⟨z, hm, hl, hu⟩ := isDigit_zero h
  rcases hz z hm with hz | hz
  · left; omega
  · right; omega

theorem isBlank_of_isDigit (h : Text.isDigit c = true) : Text.isBlank c = false := by
  have hb : ∀ z ∈ Text.digitZeros, ∀ d, d < 10 →
      ((0x9 ≤ z + d && z + d ≤ 0xD) || (0x1C ≤ z + d && z + d ≤ 0x20) || z + d == 0x85 ||
        z + d == 0xA0 || z + d == 0x1680 || (0x2000 ≤ z + d && z + d ≤ 0x200A) ||
        z + d == 0x2028 || z + d == 0x2029 || z + d == 0x202F || z + d == 0x205F ||
        z + d == 0x3000) = false := by decide +kernel
  obtain ⟨z, hm, hl, hu⟩ := isDigit_zero h
  have hd := hb z hm (c.toNat - z) (by omega)
  rw [Nat.add_sub_cancel' hl] at hd
  exact hd

theorem ne_of_isDigit {a : Char} (h : Text.isDigit c = true)
    (ha : a.toNat < 0x30 ∨ (0x39 < a.toNat ∧ a.toNat < 0x660)) : c ≠ a := by
  intro he
  rw [← he] at ha
  rcases isDigit_toNat h with hd | hd <;> omega

def Digits (cs : List Char) : Prop := ∀ c ∈ cs, Text.isDigit c = true

/-- What stands behind a run of characters of a kind does not go on with it. -/
def Stops (p : Char → Bool) (rest : List Char) : Prop := ∀ c ∈ rest.head?, p c = false

theorem Stops.nil (p : Char → Bool) : Stops p [] := fun _ hc => nomatch hc

theorem takeWhile_append_of_stops {p : Char → Bool} (hds : ∀ c ∈ ds, p c = true)
    (hr : Stops p rest) : (ds ++ rest).takeWhile p = ds := by
  rw [List.takeWhile_append_of_pos hds]
  cases rest with
  | nil => rw [List.takeWhile_nil, List.append_nil]
  | cons c rest => rw [List.takeWhile_cons_of_neg (by simp [hr c rfl]), List.append_nil]

theorem digits_takeWhile (cs : List Char) : Digits (cs.takeWhile Text.isDigit) :=
  fun _ hm => List.mem_takeWhile_imp hm

end Digits

inductive Fraction : List Char → Prop
  | absent : Fraction []
  | point {ds : List Char} (hd : Digits ds) : Fraction ('.' :: ds)

inductive Exponent : List Char → Prop
  | absent : Exponent []
  | marked {e : Char} {sign ds : List Char} (he : e = 'e' ∨ e = 'E')
      (hs : sign = [] ∨ sign = ['+'] ∨ sign = ['-']) (hd : Digits ds) (hne : ds ≠ []) :
      Exponent (e :: sign ++ ds)

/-- A number as it is written, with a digit in front of the point or behind it. -/
inductive Numeral : List Char → Prop
  | mk {whole fraction exponent : List Char} (hw : Digits whole) (hf : Fraction fraction)
      (he : Exponent exponent) (hd : whole ≠ [] ∨ 2 ≤ fraction.length) :
      Numeral (whole ++ fraction ++ exponent)

section Lexing

variable {cs rest l m : List Char}

theorem isPrefix_append (hl : l <+: cs) (hm : m <+: cs.drop l.length) : l ++ m <+: cs := by
  obtain ⟨rest, hr⟩ := hl
  rw [← hr, List.drop_left] at hm
  rw [← hr]
  exact (List.prefix_append_right_inj l).2 hm

theorem sign_cases (cs : List Char) :
    Lexeme.sign cs = [] ∨ Lexeme.sign cs = ['+'] ∨ Lexeme.sign cs = ['-'] := by
  unfold Lexeme.sign
  split
  · exact .inr (.inl rfl)
  · exact .inr (.inr rfl)
  · exact .inl rfl

theorem isPrefix_sign (cs : List Char) : Lexeme.sign cs <+: cs := by
  unfold Lexeme.sign
  split
  · exact ⟨_, rfl⟩
  · exact ⟨_, rfl⟩
  · exact List.nil_prefix

theorem Exponent.of_exponent (cs : List Char) :
    Exponent (Lexeme.exponent cs) ∧ Lexeme.exponent cs <+: cs := by
  cases cs with
  | nil => exact ⟨.absent, List.nil_prefix⟩
  | cons e rest =>
    simp only [Lexeme.exponent]
    split
    · next he =>
      simp only [Bool.or_eq_true, decide_eq_true_eq] at he
      split
      · exact ⟨.absent, List.nil_prefix⟩
      · next hne =>
        refine ⟨.marked he (sign_cases rest) (digits_takeWhile _) (by simpa using hne), ?_⟩
        rw [List.cons_append, List.prefix_cons_inj]
        exact isPrefix_append (isPrefix_sign rest) (List.takeWhile_prefix _)
    · exact ⟨.absent, List.nil_prefix⟩

theorem Fraction.of_fraction (cs : List Char) :
    Fraction (Lexeme.fraction cs) ∧ Lexeme.fraction cs <+: cs := by
  unfold Lexeme.fraction
  split
  · exact ⟨.point (digits_takeWhile _), (List.prefix_cons_inj '.').2 (List.takeWhile_prefix _)⟩
  · exact ⟨.absent, List.nil_prefix⟩

/-- What is taken for a number is a numeral in front of the text. -/
theorem Numeral.of_number? (h : Lexeme.number? cs = some l) : Numeral l ∧ l <+: cs := by
  simp only [Lexeme.number?] at h
  split at h
  · cases h
  · next hd =>
    cases h
    generalize hw : cs.takeWhile Text.isDigit = whole at hd ⊢
    obtain ⟨hf, hfp⟩ := Fraction.of_fraction (cs.drop whole.length)
    generalize Lexeme.fraction (cs.drop whole.length) = fraction at hd hf hfp ⊢
    obtain ⟨he, hep⟩ := Exponent.of_exponent ((cs.drop whole.length).drop fraction.length)
    have hwp : whole <+: cs := hw ▸ List.takeWhile_prefix _
    have hdig : whole ≠ [] ∨ 2 ≤ fraction.length := by
      simp only [Bool.and_eq_true, List.isEmpty_iff, decide_eq_true_eq, not_and, not_le] at hd
      by_cases hn : whole = []
      · exact .inr (hd hn)
      · exact .inl hn
    refine ⟨.mk (hw ▸ digits_takeWhile _) hf he hdig, ?_⟩
    apply isPrefix_append (isPrefix_append hwp hfp)
    rw [List.length_append, ← List.drop_drop]
    exact hep

def continues (c : Char) : Bool := Text.isDigit c || c = '.' || c = 'e' || c = 'E'

/-- No numeral goes on in what follows. -/
def Ends (rest : List Char) : Prop := Stops continues rest

theorem Stops.imp {p q : Char → Bool} (h : Stops p rest) (hq : ∀ c, q c = true → p c = true) :
    Stops q rest := by
  intro c hc
  exact Bool.eq_false_iff.2 fun hqc => Bool.eq_false_iff.1 (h c hc) (hq c hqc)

theorem Ends.digit (h : Ends rest) : Stops Text.isDigit rest :=
  h.imp fun c hc => by simp [continues, hc]

theorem Ends.digitOrPoint (h : Ends rest) : Stops Lexeme.isDigitOrPoint rest :=
  h.imp fun c hc => by
    simp only [continues, Bool.or_eq_true]
    simp only [Lexeme.isDigitOrPoint, Bool.or_eq_true] at hc
    exact .inl (.inl hc)

theorem Exponent.stops_append (h : Exponent l) (hr : Ends rest) :
    Stops Lexeme.isDigitOrPoint (l ++ rest) := by
  cases h with
  | absent => exact hr.digitOrPoint
  | marked he hs hd hne =>
    intro c hc
    cases hc
    rcases he with he | he <;> rw [he] <;> decide

theorem Exponent.stops_digit (h : Exponent l) (hr : Ends rest) :
    Stops Text.isDigit (l ++ rest) :=
  (h.stops_append hr).imp fun c hc => by simp [Lexeme.isDigitOrPoint, hc]

theorem sign_append {sign ds : List Char} (hs : sign = [] ∨ sign = ['+'] ∨ sign = ['-'])
    (hd : Digits ds) (hne : ds ≠ []) : Lexeme.sign (sign ++ (ds ++ rest)) = sign := by
  rcases hs with hs | hs | hs
  · rw [hs, List.nil_append]
    cases ds with
    | nil => exact absurd rfl hne
    | cons d ds =>
      have hdd := hd d List.mem_cons_self
      have hp : d ≠ '+' := ne_of_isDigit hdd (.inl (by decide))
      have hm : d ≠ '-' := ne_of_isDigit hdd (.inl (by decide))
      simp [Lexeme.sign, hp, hm]
  · rw [hs]; rfl
  · rw [hs]; rfl

theorem Exponent.exponent_append (h : Exponent l) (hr : Ends rest) :
    Lexeme.exponent (l ++ rest) = l := by
  cases h with
  | absent =>
    cases rest with
    | nil => rfl
    | cons c rest =>
      have hc := hr c rfl
      simp only [continues, Bool.or_eq_false_iff, decide_eq_false_iff_not] at hc
      simp [Lexeme.exponent, hc.1.2, hc.2]
  | @marked e sign ds he hs hd hne =>
    have htake : (ds ++ rest).takeWhile Text.isDigit = ds := takeWhile_append_of_stops hd hr.digit
    simp only [List.cons_append, List.append_assoc, Lexeme.exponent, sign_append hs hd hne,
      List.drop_left, htake, List.isEmpty_iff, hne, ↓reduceIte]
    rw [if_pos (by simpa using he)]

theorem Fraction.fraction_append (h : Fraction l) (hr : Stops Lexeme.isDigitOrPoint rest) :
    Lexeme.fraction (l ++ rest) = l := by
  have hdig : Stops Text.isDigit rest := hr.imp fun c hc => by simp [Lexeme.isDigitOrPoint, hc]
  cases h with
  | absent =>
    cases rest with
    | nil => rfl
    | cons c rest =>
      have hc : c ≠ '.' := by
        intro he
        have hp := hr c rfl
        rw [he] at hp
        cases hp
      simp [Lexeme.fraction, hc]
  | point hd =>
    simp only [List.cons_append, Lexeme.fraction]
    rw [takeWhile_append_of_stops hd hdig]

theorem Fraction.stops_append (h : Fraction l) (hr : Stops Text.isDigit rest) :
    Stops Text.isDigit (l ++ rest) := by
  cases h with
  | absent => exact hr
  | point hd =>
    intro c hc
    cases hc
    decide

/-- A numeral is taken whole if it does not go on in what follows. -/
theorem Numeral.number?_append (h : Numeral l) (hr : Ends rest) :
    Lexeme.number? (l ++ rest) = some l := by
  cases h with
  | @mk whole fraction exponent hw hf he hd =>
    have hstop : Stops Text.isDigit (fraction ++ (exponent ++ rest)) :=
      hf.stops_append (he.stops_digit hr)
    have hwhole : (whole ++ (fraction ++ (exponent ++ rest))).takeWhile Text.isDigit = whole :=
      takeWhile_append_of_stops hw hstop
    have hnot : ¬ (whole.isEmpty && decide (fraction.length ≤ 1)) = true := by
      simp only [Bool.and_eq_true, List.isEmpty_iff, decide_eq_true_eq, not_and, not_le]
      intro hn
      exact hd.resolve_left (absurd hn)
    simp only [List.append_assoc, Lexeme.number?, hwhole, List.drop_left,
      hf.fraction_append (he.stops_append hr), he.exponent_append hr, hnot]
    rfl

theorem count_point_of_digits {ds : List Char} (hd : Digits ds) : ds.count '.' = 0 := by
  rw [List.count_eq_zero]
  intro hm
  cases hd '.' hm

theorem Fraction.count_point (h : Fraction l) : l.count '.' ≤ 1 := by
  cases h with
  | absent => exact Nat.zero_le _
  | point hd => rw [List.count_cons_self, count_point_of_digits hd]

theorem Fraction.digitOrPoint {c : Char} (h : Fraction l) (hc : c ∈ l) :
    Lexeme.isDigitOrPoint c = true := by
  cases h with
  | absent => cases hc
  | point hd =>
    rcases List.mem_cons.1 hc with hc | hc
    · rw [hc]; decide
    · simp [Lexeme.isDigitOrPoint, hd c hc]

theorem Numeral.malformed?_append (h : Numeral l) (hr : Ends rest) :
    Lexeme.malformed? (l ++ rest) = none := by
  cases h with
  | @mk whole fraction exponent hw hf he hd =>
    have hrun : ((whole ++ fraction) ++ (exponent ++ rest)).takeWhile Lexeme.isDigitOrPoint =
        whole ++ fraction := by
      refine takeWhile_append_of_stops (fun c hc => ?_) (he.stops_append hr)
      rcases List.mem_append.1 hc with hc | hc
      · simp [Lexeme.isDigitOrPoint, hw c hc]
      · exact hf.digitOrPoint hc
    have hcount : (whole ++ fraction).count '.' < 2 := by
      rw [List.count_append, count_point_of_digits hw]
      have hf1 := hf.count_point
      omega
    rw [List.append_assoc]
    simp only [Lexeme.malformed?, hrun, hcount, decide_true, Bool.true_or, ↓reduceIte]

end Lexing

section Reading

variable {c : Char} {cs ds rest l : List Char}

theorem Decimal.spanDigits_cons (hc : Text.isDigit c = true) (hu : rest.head? ≠ some '_') :
    Decimal.spanDigits (c :: rest) =
      (c :: (Decimal.spanDigits rest).1, (Decimal.spanDigits rest).2) := by
  rw [Decimal.spanDigits.eq_def]
  split
  · next he => cases he
  · next he =>
    cases he
    simp [hc, Decimal.spanDigits]
  · next he =>
    cases he
    exact absurd rfl hu
  · next he =>
    cases he
    simp [hc]

theorem Decimal.spanDigits_of_stops (hr : Stops Text.isDigit rest) :
    Decimal.spanDigits rest = ([], rest) := by
  rw [Decimal.spanDigits.eq_def]
  split
  · rfl
  all_goals simp [hr _ rfl]

/-- Digits are read up to what is neither a digit nor an underscore. -/
theorem Decimal.spanDigits_append (hd : Digits ds) (hr : Stops Text.isDigit rest)
    (hu : rest.head? ≠ some '_') : Decimal.spanDigits (ds ++ rest) = (ds, rest) := by
  induction ds with
  | nil => exact Decimal.spanDigits_of_stops hr
  | cons d ds ih =>
    have hds : Digits ds := fun c hc => hd c (List.mem_cons_of_mem d hc)
    have hu' : (ds ++ rest).head? ≠ some '_' := by
      cases ds with
      | nil => exact hu
      | cons d' ds =>
        intro he
        exact ne_of_isDigit (hds d' List.mem_cons_self) (.inr (by decide)) (Option.some.inj he)
    rw [List.cons_append, Decimal.spanDigits_cons (hd d List.mem_cons_self) hu', ih hds]

theorem Decimal.spanDigits_digits (hd : Digits ds) : Decimal.spanDigits ds = (ds, []) := by
  have hs := Decimal.spanDigits_append hd (Stops.nil Text.isDigit) (by simp)
  rwa [List.append_nil] at hs

theorem Decimal.splitSign_append {sign : List Char}
    (hs : sign = [] ∨ sign = ['+'] ∨ sign = ['-']) (hd : Digits ds) :
    Decimal.splitSign (sign ++ ds) = (decide (sign = ['-']), ds) := by
  rcases hs with hs | hs | hs
  · rw [hs, List.nil_append]
    cases ds with
    | nil => rfl
    | cons d ds =>
      have hdd := hd d List.mem_cons_self
      have hp : d ≠ '+' := ne_of_isDigit hdd (.inl (by decide))
      have hm : d ≠ '-' := ne_of_isDigit hdd (.inl (by decide))
      simp [Decimal.splitSign, hp, hm]
  · rw [hs]; rfl
  · rw [hs]; rfl

theorem Decimal.exponent?_marked {e : Char} {sign : List Char} (he : e = 'e' ∨ e = 'E')
    (hs : sign = [] ∨ sign = ['+'] ∨ sign = ['-']) (hd : Digits ds) (hne : ds ≠ []) :
    Decimal.exponent? (e :: sign ++ ds) =
      some (if sign = ['-'] then -(Decimal.digitsValue ds : Int) else Decimal.digitsValue ds) := by
  have hmark : (decide (e = 'e') || decide (e = 'E')) = true := by simpa using he
  rw [List.cons_append, Decimal.exponent?, if_pos hmark, Decimal.splitSign_append hs hd]
  simp only [Decimal.spanDigits_digits hd]
  cases ds with
  | nil => exact absurd rfl hne
  | cons d ds => simp

theorem Exponent.read (h : Exponent l) : ∃ i, Decimal.exponent? l = some i := by
  cases h with
  | absent => exact ⟨0, rfl⟩
  | marked he hs hd hne => exact ⟨_, Decimal.exponent?_marked he hs hd hne⟩

theorem Exponent.head?_ne (h : Exponent l) : l.head? ≠ some '.' ∧ l.head? ≠ some '_' := by
  cases h with
  | absent => simp
  | marked he hs hd hne =>
    rcases he with he | he <;> rw [he] <;> simp

/-- A numeral without its sign is read as its digits and the place of its point. -/
theorem Decimal.unsigned?_numeral {whole fraction exponent : List Char} {i : Int}
    (hw : Digits whole) (hf : Fraction fraction) (he : Exponent exponent)
    (hd : whole ≠ [] ∨ 2 ≤ fraction.length) (hi : Decimal.exponent? exponent = some i) :
    Decimal.unsigned? (whole ++ fraction ++ exponent) =
      some (Decimal.digitsValue (whole ++ fraction.drop 1), i - (fraction.drop 1).length) := by
  have hend : Stops Text.isDigit exponent := by
    have hs := he.stops_digit (Stops.nil _)
    rwa [List.append_nil] at hs
  have hu : (fraction ++ exponent).head? ≠ some '_' := by
    cases hf with
    | absent => exact he.head?_ne.2
    | point hd => simp
  have hspan : Decimal.spanDigits (whole ++ (fraction ++ exponent)) =
      (whole, fraction ++ exponent) :=
    Decimal.spanDigits_append hw (hf.stops_append hend) hu
  have hfraction : Decimal.spanFraction (fraction ++ exponent) = (fraction.drop 1, exponent) := by
    cases hf with
    | absent =>
      cases exponent with
      | nil => rfl
      | cons c rest =>
        have hc : c ≠ '.' := fun h => he.head?_ne.1 (by rw [h]; rfl)
        simp [Decimal.spanFraction, hc]
    | point hds => exact Decimal.spanDigits_append hds hend he.head?_ne.2
  have hne : ¬ (whole.isEmpty && (fraction.drop 1).isEmpty) = true := by
    simp only [Bool.and_eq_true, List.isEmpty_iff, List.drop_eq_nil_iff, not_and, not_le]
    exact fun hn => hd.resolve_left (absurd hn)
  rw [List.append_assoc, Decimal.unsigned?]
  simp only [hspan, hfraction, hi, hne, Option.map_some]
  rfl

theorem Numeral.isDigit_or_mem (h : Numeral l) (hc : c ∈ l) :
    Text.isDigit c = true ∨ c ∈ ['.', 'e', 'E', '+', '-'] := by
  cases h with
  | @mk whole fraction exponent hw hf he hd =>
    rcases List.mem_append.1 hc with hc | hc
    · rcases List.mem_append.1 hc with hc | hc
      · exact .inl (hw c hc)
      · have hp := hf.digitOrPoint hc
        simp only [Lexeme.isDigitOrPoint, Bool.or_eq_true, decide_eq_true_eq] at hp
        rcases hp with hp | hp
        · exact .inl hp
        · exact .inr (by simp [hp])
    · cases he with
      | absent => cases hc
      | marked he hs hd hne =>
        rcases List.mem_append.1 hc with hc | hc
        · rcases List.mem_cons.1 hc with hc | hc
          · rcases he with he | he <;> exact .inr (by simp [hc, he])
          · rcases hs with hs | hs | hs <;> rw [hs] at hc <;> exact .inr (by simp_all)
        · exact .inl (hd c hc)

theorem Numeral.head (h : Numeral l) :
    ∃ c rest, l = c :: rest ∧ (Text.isDigit c = true ∨ c = '.') := by
  cases h with
  | @mk whole fraction exponent hw hf he hd =>
    cases whole with
    | cons c whole => exact ⟨c, _, rfl, .inl (hw c List.mem_cons_self)⟩
    | nil =>
      cases hf with
      | absent => simp at hd
      | point => exact ⟨'.', _, rfl, .inr rfl⟩

theorem trimBy_of_forall {p : Char → Bool} (h : ∀ c ∈ cs, p c = false) :
    Text.trimBy p cs = cs := by
  have hdrop : ∀ ds : List Char, (∀ c ∈ ds, p c = false) → ds.dropWhile p = ds := by
    intro ds hds
    cases ds with
    | nil => rfl
    | cons d ds => rw [List.dropWhile_cons_of_neg (by simp [hds d List.mem_cons_self])]
  rw [Text.trimBy, hdrop cs h, hdrop _ (by simpa using h), List.reverse_reverse]

theorem toLower_of_isDigit (h : Text.isDigit c = true) : c.toLower = c := by
  apply dif_neg
  rintro ⟨hl, hu⟩
  have hl' : 0x41 ≤ c.toNat := hl
  have hu' : c.toNat ≤ 0x5A := hu
  rcases isDigit_toNat h with hd | hd <;> omega

/-- A numeral begins with a digit or a point, so it is no word. -/
theorem Numeral.lower_ne {word : String} (h : Numeral l) (hw : word.toList.head? = some c)
    (hc : Text.isDigit c = false) (hp : c ≠ '.') :
    String.ofList (l.map Char.toLower) ≠ word := by
  rintro rfl
  obtain ⟨d, rest, rfl, hd⟩ := h.head
  simp only [List.map_cons, String.toList_ofList, List.head?_cons, Option.some.injEq] at hw
  rcases hd with hd | hd
  · rw [toLower_of_isDigit hd] at hw
    rw [hw, hc] at hd
    cases hd
  · rw [hd] at hw
    exact hp hw.symm

theorem Numeral.isMargin (h : Numeral l) : ∀ c ∈ l, Decimal.isMargin c = false := by
  have hs : ['.', 'e', 'E', '+', '-'].any Decimal.isMargin = false := by decide
  intro c hc
  rcases h.isDigit_or_mem hc with hd | hm
  · rw [Decimal.isMargin, isBlank_of_isDigit hd, Bool.false_and]
  · exact Bool.eq_false_iff.2 (List.any_eq_false.1 hs c hm)

theorem Numeral.splitSign (h : Numeral l) : Decimal.splitSign l = (false, l) := by
  obtain ⟨c, rest, rfl, hc⟩ := h.head
  have hp : c ≠ '+' := by
    rcases hc with hc | hc
    · exact ne_of_isDigit hc (.inl (by decide))
    · rw [hc]; decide
  have hm : c ≠ '-' := by
    rcases hc with hc | hc
    · exact ne_of_isDigit hc (.inl (by decide))
    · rw [hc]; decide
  simp [Decimal.splitSign, hp, hm]

/-- The value of a numeral is the double nearest to the decimal that it writes. -/
theorem Decimal.readChars?_numeral {digits : Nat} {i : Int} (h : Numeral l)
    (hu : Decimal.unsigned? l = some (digits, i)) :
    Decimal.readChars? l = some (Double.ofRank false (Decimal.rankOfDecimal digits i)) := by
  have hinf : String.ofList (l.map Char.toLower) ≠ "inf" :=
    h.lower_ne (c := 'i') rfl (by decide) (by decide)
  have hinfinity : String.ofList (l.map Char.toLower) ≠ "infinity" :=
    h.lower_ne (c := 'i') rfl (by decide) (by decide)
  have hnan : String.ofList (l.map Char.toLower) ≠ "nan" :=
    h.lower_ne (c := 'n') rfl (by decide) (by decide)
  rw [Decimal.readChars?, trimBy_of_forall h.isMargin, h.splitSign]
  simp only [Decimal.magnitude?, hinf, hinfinity, hnan, hu, decide_false, Bool.or_self,
    Bool.false_eq_true, ↓reduceIte, Option.map_some]

theorem Decimal.rankOfDecimal_le (digits : Nat) (i : Int) :
    Decimal.rankOfDecimal digits i ≤ Double.infinityRank := by
  have hratio (num den : Nat) : Double.rankOfRatio num den ≤ Double.infinityRank := by
    rw [Double.rankOfRatio]
    split
    · exact Nat.zero_le _
    · exact Nat.min_le_left _ _
  rw [Decimal.rankOfDecimal]
  split
  · exact Nat.zero_le _
  · simp only
    split
    · exact le_rfl
    · split
      · exact Nat.zero_le _
      · exact hratio _ _

/-- Zero, the positive doubles and infinity. -/
def Unsigned (x : Float) : Prop := ∃ r, r ≤ Double.infinityRank ∧ x = Double.ofRank false r

/-- A numeral has a value, which is no negative number. -/
theorem Numeral.read (h : Numeral l) : ∃ x, Unsigned x ∧ Decimal.readChars? l = some x := by
  have hn := h
  cases h with
  | mk hw hf he hd =>
    obtain ⟨i, hi⟩ := he.read
    exact ⟨_, ⟨_, Decimal.rankOfDecimal_le _ _, rfl⟩,
      Decimal.readChars?_numeral hn (Decimal.unsigned?_numeral hw hf he hd hi)⟩

end Reading

end Calculator
