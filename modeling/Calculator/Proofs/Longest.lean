import Calculator.Proofs.Scanning
/-!
Longest lexemes. What a text is taken to begin with is the longest lexeme of its kind
(`Front.of_describes`), and a text that begins with nothing known has no lexeme in front of it.
-/
namespace Calculator

variable {c : Char} {cs rest l m : List Char} {kind : TokenKind} {p : Char → Bool}

/-- The lexeme is the longest one of its kind in front of the text. -/
structure Longest (kind : TokenKind) (cs l : List Char) : Prop where
  lexical : Lexical kind l
  front : l <+: cs
  le (m : List Char) (hm : Lexical kind m) (hp : m <+: cs) : m.length ≤ l.length

/-- The longest run of digits and points in front of the text, with two points at least, though not
as its first characters. -/
structure MalformedRun (cs run : List Char) : Prop where
  longest : run = cs.takeWhile Lexeme.isDigitOrPoint
  points : 2 ≤ run.count '.'
  start : ¬ ['.', '.'] <+: run

theorem malformed?_eq_some {run : List Char} :
    Lexeme.malformed? cs = some run ↔ MalformedRun cs run := by
  have htake (run : List Char) : run.take 2 = ['.', '.'] ↔ ['.', '.'] <+: run := by
    rw [List.prefix_iff_eq_take]
    exact eq_comm
  simp only [Lexeme.malformed?, Option.ite_none_left_eq_some, Option.some.injEq,
    Bool.or_eq_true, decide_eq_true_eq, not_or, not_lt, htake]
  constructor
  · rintro ⟨⟨hc, hs⟩, rfl⟩
    exact ⟨rfl, hc, hs⟩
  · rintro ⟨rfl, hc, hs⟩
    exact ⟨⟨hc, hs⟩, rfl⟩

section Numerals

theorem isPrefix_takeWhile (hm : ∀ c ∈ m, p c = true) (hp : m <+: cs) : m <+: cs.takeWhile p := by
  obtain ⟨rest, rfl⟩ := hp
  rw [List.takeWhile_append_of_pos hm]
  exact List.prefix_append m _

/-- A run of characters of a kind that stops in front of a text is the longest one there, or nothing
follows it. -/
theorem run_of_isPrefix (hl : ∀ c ∈ l, p c = true) (hm : Stops p m) (hp : l ++ m <+: cs) :
    (m = [] ∧ l.length ≤ (cs.takeWhile p).length) ∨
      (cs.takeWhile p = l ∧ m <+: cs.drop l.length) := by
  cases m with
  | nil =>
    rw [List.append_nil] at hp
    exact .inl ⟨rfl, (isPrefix_takeWhile hl hp).length_le⟩
  | cons c m =>
    obtain ⟨rest, rfl⟩ := hp
    have hstop : Stops p (c :: m ++ rest) := hm
    rw [List.append_assoc]
    exact .inr ⟨takeWhile_append_of_stops hl hstop, by rw [List.drop_left]; exact ⟨rest, rfl⟩⟩

theorem Exponent.length_le (h : Exponent m) (hp : m <+: cs) :
    m.length ≤ (Lexeme.exponent cs).length := by
  cases h with
  | absent => exact Nat.zero_le _
  | @marked e sign ds he hs hd hne =>
    obtain ⟨rest, rfl⟩ := hp
    have hrun : ds <+: (ds ++ rest).takeWhile Text.isDigit :=
      isPrefix_takeWhile hd (List.prefix_append ds rest)
    have hempty : ((ds ++ rest).takeWhile Text.isDigit).isEmpty = false := by
      rw [List.isEmpty_eq_false_iff]
      intro hn
      rw [hn] at hrun
      exact hne (List.prefix_nil.1 hrun)
    have hmark : (decide (e = 'e') || decide (e = 'E')) = true := by simpa using he
    simp only [List.cons_append, List.append_assoc, Lexeme.exponent, sign_append hs hd hne,
      List.drop_left, hempty, hmark, ↓reduceIte, Bool.false_eq_true, List.length_cons,
      List.length_append]
    have hlength := hrun.length_le
    omega

/-- A fraction with its exponent is no longer than the longest fraction with the longest exponent
behind it. -/
theorem fraction_length_le (hl : Fraction l) (hm : Exponent m) (hp : l ++ m <+: cs) :
    (l ++ m).length ≤ (Lexeme.fraction cs).length +
      (Lexeme.exponent (cs.drop (Lexeme.fraction cs).length)).length := by
  rw [List.length_append]
  cases hl with
  | absent =>
    cases hm with
    | absent => exact Nat.zero_le _
    | @marked e sign ds he hs hd hne =>
      have hfraction : Lexeme.fraction cs = [] := by
        obtain ⟨rest, rfl⟩ := hp
        rcases he with rfl | rfl <;> rfl
      have hlength := (Exponent.marked he hs hd hne).length_le hp
      rw [hfraction]
      exact Nat.add_le_add_left hlength 0
  | @point ds hd =>
    obtain ⟨rest, rfl⟩ := hp
    rw [List.append_assoc, List.cons_append]
    have hstop : Stops Text.isDigit m := by
      have hs := hm.stops_digit (Stops.nil continues)
      rwa [List.append_nil] at hs
    have hfront : ds ++ m <+: ds ++ (m ++ rest) := by
      rw [← List.append_assoc]
      exact List.prefix_append _ _
    simp only [Lexeme.fraction, List.length_cons, List.drop_succ_cons]
    rcases run_of_isPrefix hd hstop hfront with ⟨rfl, hlength⟩ | ⟨htake, hrest⟩
    · simp only [List.length_nil] at hlength ⊢
      omega
    · rw [htake]
      have hlength := hm.length_le hrest
      omega

/-- What is taken for a number is the longest numeral in front of the text. -/
theorem Numeral.length_le (h : Numeral m) (hp : m <+: cs) (hl : Lexeme.number? cs = some l) :
    m.length ≤ l.length := by
  simp only [Lexeme.number?, Option.ite_none_left_eq_some, Option.some.injEq] at hl
  obtain ⟨_, rfl⟩ := hl
  cases h with
  | @mk whole fraction exponent hw hf he hd =>
    rw [List.append_assoc] at hp ⊢
    have hstop : Stops Text.isDigit (fraction ++ exponent) := by
      apply hf.stops_append
      have hs := he.stops_digit (Stops.nil continues)
      rwa [List.append_nil] at hs
    simp only [List.length_append]
    rcases run_of_isPrefix hw hstop hp with ⟨hnil, hlength⟩ | ⟨htake, hrest⟩
    · have hnone := congrArg List.length hnil
      simp only [List.length_append, List.length_nil] at hnone
      omega
    · rw [htake]
      have hlength := fraction_length_le hf he hrest
      simp only [List.length_append] at hlength
      omega

theorem Numeral.number?_ne_none (h : Numeral m) (hp : m <+: cs) : Lexeme.number? cs ≠ none := by
  simp only [Lexeme.number?, ne_eq, ite_eq_left_iff, reduceCtorEq, imp_false, not_not,
    Bool.and_eq_true, List.isEmpty_iff, decide_eq_true_eq]
  rintro ⟨hnone, hshort⟩
  rw [hnone, List.length_nil, List.drop_zero] at hshort
  cases h with
  | @mk whole fraction exponent hw hf he hd =>
    rw [List.append_assoc] at hp
    have hwhole : whole = [] := by
      have hrun := isPrefix_takeWhile hw ((List.prefix_append whole _).trans hp)
      rw [hnone] at hrun
      exact List.prefix_nil.1 hrun
    have hlong : 2 ≤ fraction.length := hd.resolve_left (absurd hwhole)
    rw [hwhole, List.nil_append] at hp
    have hfront := (List.prefix_append fraction _).trans hp
    cases hf with
    | absent => simp at hlong
    | @point ds hds =>
      obtain ⟨rest, rfl⟩ := hfront
      have hrun := (isPrefix_takeWhile hds (List.prefix_append ds rest)).length_le
      simp only [List.cons_append, Lexeme.fraction, List.length_cons] at hshort hlong
      omega

end Numerals

section Fronts

theorem Lexical.length_eq_one (h : Lexical kind m) (hn : kind ≠ .number)
    (hi : kind ≠ .identifier) : m.length = 1 := by
  cases h with
  | number => exact absurd rfl hn
  | identifier => exact absurd rfl hi
  | _ => rfl

theorem Longest.mark (h : Lexical kind [c]) (hn : kind ≠ .number) (hi : kind ≠ .identifier) :
    Longest kind (c :: rest) [c] where
  lexical := h
  front := ⟨rest, rfl⟩
  le _ hm _ := (hm.length_eq_one hn hi).le

theorem Longest.number (hl : Lexeme.number? cs = some l) : Longest .number cs l where
  lexical := .number (Numeral.of_number? hl).1
  front := (Numeral.of_number? hl).2
  le m hm hp := by
    cases hm with
    | number h => exact h.length_le hp hl

theorem Longest.name (hc : Lexeme.isNameStart c = true) :
    Longest .identifier (c :: rest) (c :: rest.takeWhile Lexeme.isNameChar) where
  lexical := .identifier ⟨c, _, rfl, hc, fun _ hd => List.mem_takeWhile_imp hd⟩
  front := (List.prefix_cons_inj c).2 (List.takeWhile_prefix _)
  le m hm hp := by
    cases hm with
    | identifier h =>
      obtain ⟨d, ds, rfl, _, hds⟩ := h
      obtain ⟨_, hrest⟩ := List.cons_prefix_cons.1 hp
      exact Nat.succ_le_succ (isPrefix_takeWhile hds hrest).length_le

/-- The first character of a lexeme, if this is no number. -/
theorem Lexical.head (h : Lexical kind (c :: m)) (hn : kind ≠ .number) :
    Lexeme.isNameStart c = true ∨ Lexeme.isOperator c = true ∨ c = ',' ∨ c = '(' ∨ c = ')' := by
  cases h with
  | number => exact absurd rfl hn
  | identifier h =>
    obtain ⟨d, ds, he, hd, _⟩ := h
    cases he
    exact .inl hd
  | operator op => exact .inr (.inl (by cases op <;> rfl))
  | comma => exact .inr (.inr (.inl rfl))
  | opening => exact .inr (.inr (.inr (.inl rfl)))
  | closing => exact .inr (.inr (.inr (.inr rfl)))

theorem Lexical.ne_nil (h : Lexical kind m) : m ≠ [] := by
  cases h with
  | number h =>
    obtain ⟨c, cs, rfl, _⟩ := h.head
    exact List.cons_ne_nil c cs
  | identifier h =>
    obtain ⟨c, cs, rfl, _⟩ := h
    exact List.cons_ne_nil c cs
  | _ => exact List.cons_ne_nil _ _

theorem not_lexical_front (hnum : Lexeme.number? (c :: rest) = none)
    (hc : ¬ (Lexeme.isNameStart c = true ∨ Lexeme.isOperator c = true ∨ c = ',' ∨ c = '(' ∨
      c = ')')) (h : Lexical kind l) : ¬ l <+: c :: rest := by
  intro hp
  by_cases hk : kind = .number
  · cases h with
    | number h => exact h.number?_ne_none hp hnum
    | _ => cases hk
  · cases l with
    | nil => exact h.ne_nil rfl
    | cons d l =>
      obtain ⟨rfl, _⟩ := List.cons_prefix_cons.1 hp
      exact hc (h.head hk)

/-- What a text has in front, said without the way in which it is found. -/
def Front.Describes (cs : List Char) : Front → Prop
  | .token kind l => Longest kind cs l ∧ ∀ run, ¬ MalformedRun cs run
  | .blank => ∃ c rest, cs = c :: rest ∧ Text.isBlank c = true
  | .malformed run => MalformedRun cs run
  | .invalid => (∃ c rest, cs = c :: rest ∧ Text.isBlank c = false) ∧
      ∀ kind l, Lexical kind l → ¬ l <+: cs

theorem Front.of_describes (c : Char) (rest : List Char) :
    (Front.of c rest).Describes (c :: rest) := by
  unfold Front.of
  split
  · next run hm => exact malformed?_eq_some.1 hm
  · next hm =>
    have hmal : ∀ run, ¬ MalformedRun (c :: rest) run := by
      intro run hrun
      rw [malformed?_eq_some.2 hrun] at hm
      cases hm
    split
    · next l hl => exact ⟨.number hl, hmal⟩
    · next hnum =>
      split
      · next hs => exact ⟨.name hs, hmal⟩
      · next hs =>
        split
        · next ho =>
          obtain ⟨op, rfl⟩ := exists_symbol ho
          exact ⟨.mark (.operator op) (by decide) (by decide), hmal⟩
        · next ho =>
          split
          · next hc => exact ⟨.mark (hc ▸ .comma) (by decide) (by decide), hmal⟩
          · next hcomma =>
            split
            · next hc => exact ⟨.mark (hc ▸ .opening) (by decide) (by decide), hmal⟩
            · next hopen =>
              split
              · next hc => exact ⟨.mark (hc ▸ .closing) (by decide) (by decide), hmal⟩
              · next hclose =>
                split
                · next hb => exact ⟨c, rest, rfl, hb⟩
                · next hb =>
                  have hnone : ¬ (Lexeme.isNameStart c = true ∨ Lexeme.isOperator c = true ∨
                      c = ',' ∨ c = '(' ∨ c = ')') := by
                    rintro (h | h | h | h | h)
                    · exact hs h
                    · exact ho h
                    · exact hcomma h
                    · exact hopen h
                    · exact hclose h
                  exact ⟨⟨c, rest, rfl, Bool.eq_false_iff.2 hb⟩,
                    fun _ _ hl => not_lexical_front hnum hnone hl⟩

theorem Front.longest (h : Front.of c rest = .token kind l) : Longest kind (c :: rest) l := by
  have hdescribes := Front.of_describes c rest
  rw [h] at hdescribes
  exact hdescribes.1

end Fronts

end Calculator
