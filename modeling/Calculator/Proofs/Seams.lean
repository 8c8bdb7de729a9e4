import Calculator.Proofs.Grammar
import Calculator.Proofs.Tiling
/-!
Seams. In front of a delimiter a text is scanned as it is alone, with all positions moved
(`scans_moved`); the multiplications that are understood in it stay the same there, and the grammar
derives the same elements from it.
-/
namespace Calculator

variable {p : Char → Bool} {c : Char} {cs rest tail l : List Char} {position stop : Nat}

section Fronts

theorem takeWhile_append_stops (h : Stops p tail) : (cs ++ tail).takeWhile p = cs.takeWhile p := by
  induction cs with
  | nil =>
    have hnil := takeWhile_append_of_stops (List.forall_mem_nil (fun c => p c = true)) h
    rw [hnil, List.takeWhile_nil]
  | cons c cs ih => rw [List.cons_append, List.takeWhile_cons, List.takeWhile_cons, ih]

theorem drop_append_of_isPrefix (h : l <+: cs) :
    (cs ++ tail).drop l.length = cs.drop l.length ++ tail :=
  List.drop_append_of_le_length h.length_le

theorem sign_before (h : Delimited tail) : Lexeme.sign (cs ++ tail) = Lexeme.sign cs := by
  cases cs with
  | nil =>
    cases tail with
    | nil => rfl
    | cons c tail =>
      rcases h c rfl with rfl | rfl | rfl | rfl <;> rfl
  | cons c cs =>
    rw [List.cons_append, Lexeme.sign.eq_def, Lexeme.sign.eq_def]
    split <;> split <;> simp_all

theorem fraction_before (h : Delimited tail) :
    Lexeme.fraction (cs ++ tail) = Lexeme.fraction cs := by
  cases cs with
  | nil => exact Fraction.absent.fraction_append (h.stops (by decide))
  | cons c cs =>
    by_cases hc : c = '.'
    · subst hc
      have hd : Stops Text.isDigit tail := h.stops (by decide)
      simp only [List.cons_append, Lexeme.fraction, takeWhile_append_stops hd]
    · simp [Lexeme.fraction, hc]

theorem exponent_before (h : Delimited tail) :
    Lexeme.exponent (cs ++ tail) = Lexeme.exponent cs := by
  cases cs with
  | nil => exact Exponent.absent.exponent_append (h.stops (by decide))
  | cons e cs =>
    have hd : Stops Text.isDigit tail := h.stops (by decide)
    simp only [List.cons_append, Lexeme.exponent, sign_before h,
      drop_append_of_isPrefix (isPrefix_sign cs), takeWhile_append_stops hd]

theorem malformed?_before (h : Delimited tail) :
    Lexeme.malformed? (cs ++ tail) = Lexeme.malformed? cs := by
  have hd : Stops Lexeme.isDigitOrPoint tail := h.stops (by decide)
  simp only [Lexeme.malformed?, takeWhile_append_stops hd]

theorem number?_before (h : Delimited tail) : Lexeme.number? (cs ++ tail) = Lexeme.number? cs := by
  have hd : Stops Text.isDigit tail := h.stops (by decide)
  simp only [Lexeme.number?, takeWhile_append_stops hd,
    drop_append_of_isPrefix (List.takeWhile_prefix _), fraction_before h,
    drop_append_of_isPrefix (Fraction.of_fraction _).2, exponent_before h]

/-- A text begins in front of a delimiter as it begins alone. -/
theorem Front.of_before (h : Delimited tail) : Front.of c (rest ++ tail) = Front.of c rest := by
  have hn : Stops Lexeme.isNameChar tail := h.stops (by decide)
  rw [Front.of, Front.of, ← List.cons_append, malformed?_before h, number?_before h,
    takeWhile_append_stops hn]

end Fronts

def Token.moveBy (n : Nat) (t : Token) : Token := { t with position := t.position + n }

/-- What a token is apart from its position. -/
def Token.shape (t : Token) : TokenKind × List Char := (t.kind, t.lexeme)

variable {n : Nat} {t u last : Token} {found tokens : List Token}

/-- In front of a delimiter a text is scanned as it is alone, with all positions moved. -/
theorem scans_moved (h : scanFrom position cs = .ok (found ++ [.atEnd stop])) (ht : Delimited tail)
    (n : Nat) : Scans (position + n) cs tail (found.map (Token.moveBy n)) := by
  -- The induction follows the scan; only the last lexeme or blank meets the tail.
  induction position, cs using scanFrom.induct generalizing found stop with
  | case1 position =>
    rw [scanFrom] at h
    have htokens : [] ++ [Token.atEnd position] = found ++ [.atEnd stop] := Except.ok.inj h
    obtain ⟨rfl, _⟩ := List.append_inj' htokens rfl
    exact .nil
  | case2 position c rest kind lexeme hf ih =>
    rw [scanFrom, hf] at h
    obtain ⟨scanned, hs, htokens⟩ := exists_of_bind_ok h
    have hl := Front.longest hf
    -- No lexeme is that of the end, so the first token is one of those that are found.
    cases found with
    | nil =>
      cases htokens
      cases hl.lexical
    | cons t body =>
      cases htokens
      obtain ⟨d, l, rfl⟩ := List.exists_cons_of_ne_nil hl.lexical.ne_nil
      obtain ⟨behind, hbehind⟩ := hl.front
      obtain ⟨rfl, hrest⟩ := List.cons.inj hbehind
      obtain rfl : l ++ behind = rest := hrest
      rw [List.length_cons, Nat.add_sub_cancel, List.drop_left] at ih hs
      have hbody := ih hs
      rw [Nat.add_right_comm] at hbody
      rw [← Front.of_before ht, List.append_assoc] at hf
      exact Scans.append (Front.scans hf) hbody
  | case3 position c rest hf ih =>
    rw [scanFrom, hf] at h
    have hrest := ih h
    rw [Nat.add_right_comm] at hrest
    rw [← Front.of_before ht] at hf
    exact Scans.append (Front.scans_blank hf) hrest
  | case4 position c rest run hf =>
    rw [scanFrom, hf] at h
    cases h
  | case5 position c rest hf =>
    rw [scanFrom, hf] at h
    cases h

section Multiplied

theorem Token.product_of_ne {next : Token} (h : next.kind ≠ .identifier) : t.product next = [] :=
  if_neg fun hk => h hk.2

theorem Token.product_mark {next : Token} (hn : t.kind ≠ .number) (hi : t.kind ≠ .identifier) :
    t.product next = [] :=
  if_neg fun hk => not_or.2 ⟨hn, hi⟩ hk.1

theorem Token.product_moveBy (t next : Token) :
    (t.moveBy n).product (next.moveBy n) = (t.product next).map (Token.moveBy n) := by
  rw [Token.product, Token.product]
  change (if (t.kind = .number ∨ t.kind = .identifier) ∧ next.kind = .identifier then _ else _) = _
  split
  · simp only [List.map_cons, List.map_nil, Token.moveBy, Token.stop, Nat.add_right_comm]
  · rfl

theorem multiplied_congr {last' : Token} (h : ∀ t : Token, t.product last = t.product last') :
    multiplied tokens last = multiplied tokens last' := by
  induction tokens with
  | nil => rfl
  | cons t tokens ih =>
    cases tokens with
    | nil => rw [multiplied_singleton, multiplied_singleton, h]
    | cons next tokens => rw [multiplied_cons, multiplied_cons, ih]

theorem multiplied_append (xs ys : List Token) (t last : Token) :
    multiplied (xs ++ t :: ys) last = multiplied xs t ++ multiplied (t :: ys) last := by
  induction xs with
  | nil => rfl
  | cons x xs ih =>
    cases xs with
    | nil =>
      rw [List.singleton_append, multiplied_cons, multiplied_singleton, List.cons_append]
    | cons next xs =>
      rw [List.cons_append] at ih ⊢
      rw [List.cons_append, multiplied_cons, ih, multiplied_cons, List.cons_append,
        List.append_assoc]

theorem multiplied_mark (hn : t.kind ≠ .number) (hi : t.kind ≠ .identifier) :
    multiplied (t :: tokens) last = t :: multiplied tokens last := by
  cases tokens with
  | nil =>
    rw [multiplied_singleton, Token.product_mark hn hi]
    rfl
  | cons next tokens =>
    rw [multiplied_cons, Token.product_mark hn hi, List.nil_append]

/-- No multiplication is understood beside a token that is neither a number nor a name. -/
theorem multiplied_around (xs ys : List Token) (hn : t.kind ≠ .number)
    (hi : t.kind ≠ .identifier) :
    multiplied (xs ++ t :: ys) last = multiplied xs t ++ t :: multiplied ys last := by
  rw [multiplied_append, multiplied_mark hn hi]

theorem multiplied_moveBy (tokens : List Token) (last : Token) :
    multiplied (tokens.map (Token.moveBy n)) (last.moveBy n) =
      (multiplied tokens last).map (Token.moveBy n) := by
  induction tokens with
  | nil => rfl
  | cons t tokens ih =>
    cases tokens with
    | nil =>
      rw [List.map_singleton, multiplied_singleton, multiplied_singleton, Token.product_moveBy,
        List.map_cons]
    | cons next tokens =>
      rw [List.map_cons] at ih ⊢
      rw [List.map_cons, multiplied_cons, ih, multiplied_cons, Token.product_moveBy, List.map_cons,
        List.map_append]

end Multiplied

theorem Token.eq_of_shape (h : u.shape = t.shape) :
    ∃ position, u = { t with position := position } := by
  obtain ⟨hk, hl⟩ := Prod.mk.inj h
  exact ⟨u.position, by rw [← hk, ← hl]⟩

section Derived

variable {scope : Scope} {bare : Bool} {ts us : List Token} {e : Element} {fs : List Formula}
  {elements : List Element} {run : List Operator}

theorem SignRun.congr (h : SignRun ts run) (hu : us.map Token.shape = ts.map Token.shape) :
    SignRun us run := by
  induction h generalizing us with
  | nil =>
    rw [List.map_eq_nil_iff.1 hu]
    exact .nil
  | snoc h ht hs ih =>
    rw [List.map_append] at hu
    obtain ⟨us, vs, rfl, hus, hvs⟩ := List.map_eq_append_iff.1 hu
    obtain ⟨u, rfl, hut⟩ := List.map_eq_singleton_iff.1 hvs
    obtain ⟨position, rfl⟩ := Token.eq_of_shape hut
    exact (ih hus).snoc ht hs

/-- The operands of a derivation, which may be derived from other tokens of the same shapes. -/
def ShapedOperand (scope : Scope) (bare : Bool) (ts : List Token) (e : Element) : Prop :=
  ∀ us : List Token, us.map Token.shape = ts.map Token.shape → IsOperand scope bare us e

theorem ShapedOperand.formula (h : FormulaOf (ShapedOperand scope) bare ts elements)
    (hu : us.map Token.shape = ts.map Token.shape) : IsFormula scope bare us elements := by
  induction h generalizing us with
  | start hs ho =>
    rw [List.map_append] at hu
    obtain ⟨ss, vs, rfl, hss, hvs⟩ := List.map_eq_append_iff.1 hu
    exact .start (hs.congr hss) (ho vs hvs)
  | term h ht hs ho ih =>
    rw [List.map_append, List.map_cons, List.map_append] at hu
    obtain ⟨us, ws, rfl, hus, hws⟩ := List.map_eq_append_iff.1 hu
    obtain ⟨u, ws, rfl, hut, hws⟩ := List.map_eq_cons_iff.1 hws
    obtain ⟨ss, vs, rfl, hss, hvs⟩ := List.map_eq_append_iff.1 hws
    obtain ⟨position, rfl⟩ := Token.eq_of_shape hut
    exact .term (ih hus) ht (hs.congr hss) (ho vs hvs)
  | product h hg ih =>
    rw [List.map_append] at hu
    obtain ⟨us, vs, rfl, hus, hvs⟩ := List.map_eq_append_iff.1 hu
    exact .product (ih hus) (hg vs hvs)

theorem ShapedOperand.arguments (h : ArgumentsOf scope (ShapedOperand scope) ts fs)
    (hu : us.map Token.shape = ts.map Token.shape) : IsArguments scope us fs := by
  induction h generalizing us with
  | one h => exact .one (ShapedOperand.formula h hu)
  | more hf ht h ih =>
    rw [List.map_append, List.map_cons] at hu
    obtain ⟨us, ws, rfl, hus, hws⟩ := List.map_eq_append_iff.1 hu
    obtain ⟨u, vs, rfl, hut, hvs⟩ := List.map_eq_cons_iff.1 hws
    obtain ⟨position, rfl⟩ := Token.eq_of_shape hut
    exact .more (ih hus) ht (ShapedOperand.formula h hvs)

theorem exists_parenthesized {o c : Token}
    (h : us.map Token.shape = (o :: (ts ++ [c])).map Token.shape) :
    ∃ i vs j, us = { o with position := i } :: (vs ++ [{ c with position := j }]) ∧
      vs.map Token.shape = ts.map Token.shape := by
  rw [List.map_cons, List.map_append] at h
  obtain ⟨o', ws, rfl, ho, hws⟩ := List.map_eq_cons_iff.1 h
  obtain ⟨vs, cs, rfl, hvs, hcs⟩ := List.map_eq_append_iff.1 hws
  obtain ⟨c', rfl, hc⟩ := List.map_eq_singleton_iff.1 hcs
  obtain ⟨i, rfl⟩ := Token.eq_of_shape ho
  obtain ⟨j, rfl⟩ := Token.eq_of_shape hc
  exact ⟨i, vs, j, rfl, hvs⟩

theorem IsOperand.shaped (h : IsOperand scope bare ts e) : ShapedOperand scope bare ts e := by
  refine IsOperand.induct (motive := ShapedOperand scope) ?_ ?_ ?_ ?_ ?_ h
  · intro t x ht hx us hu
    obtain ⟨u, rfl, hut⟩ := List.map_eq_singleton_iff.1 hu
    obtain ⟨position, rfl⟩ := Token.eq_of_shape hut
    exact .number ht hx
  · intro t ht us hu
    obtain ⟨u, rfl, hut⟩ := List.map_eq_singleton_iff.1 hu
    obtain ⟨position, rfl⟩ := Token.eq_of_shape hut
    exact .variable ht
  · intro t o c ht ho hc us hu
    obtain ⟨u, ws, rfl, hut, hws⟩ := List.map_eq_cons_iff.1 hu
    obtain ⟨position, rfl⟩ := Token.eq_of_shape hut
    have hnone : ws.map Token.shape = (o :: ([] ++ [c])).map Token.shape := hws
    obtain ⟨i, vs, j, rfl, hvs⟩ := exists_parenthesized hnone
    rw [List.map_eq_nil_iff.1 hvs]
    exact .callOfNone ht ho hc
  · intro t o c ts fs ht ho h hc us hu
    obtain ⟨u, ws, rfl, hut, hws⟩ := List.map_eq_cons_iff.1 hu
    obtain ⟨position, rfl⟩ := Token.eq_of_shape hut
    obtain ⟨i, vs, j, rfl, hvs⟩ := exists_parenthesized hws
    have hargs := ShapedOperand.arguments (h.imp fun _ _ _ hu => hu.2) hvs
    exact .call ht ho hargs hc
  · intro bare o c ts elements ho h hc us hu
    obtain ⟨i, vs, j, rfl, hvs⟩ := exists_parenthesized hu
    have hf := ShapedOperand.formula (h.imp fun _ _ _ hu => hu.2) hvs
    exact .group ho hf hc

/-- The grammar does not look at positions. -/
theorem FormulaOf.congr (h : IsFormula scope bare ts elements)
    (hu : us.map Token.shape = ts.map Token.shape) : IsFormula scope bare us elements :=
  ShapedOperand.formula (h.imp fun _ _ _ ho => ho.shaped) hu

theorem FormulaOf.moveBy (h : IsFormula scope bare ts elements) (n : Nat) :
    IsFormula scope bare (ts.map (Token.moveBy n)) elements :=
  h.congr (by rw [List.map_map]; rfl)

/-- A formula, a binary operator and a formula again are a formula. -/
theorem FormulaOf.join {before : Bool} {op : Operator} {more : List Element}
    (h : IsFormula scope before ts elements) (ht : t.IsOperator op)
    (hm : IsFormula scope bare us more) :
    IsFormula scope bare (ts ++ t :: us) (elements ++ .operator op :: more) := by
  induction hm with
  | start hs hu => exact .term h ht hs hu
  | term _ ht' hs hu ih => simpa using FormulaOf.term ih ht' hs hu
  | product _ hg ih => simpa using FormulaOf.product ih hg

end Derived

end Calculator
