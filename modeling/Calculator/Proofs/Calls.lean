import Calculator.Proofs.Validity
/-!
Calls. What a text that is not blank is read as is valid and has at every depth a plain sequence,
and its calls are those of the tokens, each with as many arguments as the commas between its
parentheses separate (`parse_isValid`).
-/
namespace Calculator

variable {scope : Scope} {bare : Bool} {t o c : Token} {ts us tokens rest : List Token}
  {e : Element} {f : Formula} {elements : List Element} {fs : List Formula} {depth : Nat}
  {text : String}

/-- How many parentheses are open behind a token if `depth` are in front of it. -/
def Token.depthBehind (t : Token) (depth : Nat) : Nat :=
  match t.kind with
  | .opening => depth + 1
  | .closing => depth - 1
  | _ => depth

/-- The tokens up to the closing parenthesis that matches one in front of them, where `depth` more
parentheses are open. -/
def untilClosing : Nat → List Token → List Token
  | _, [] => []
  | depth, t :: rest =>
    if t.kind = .closing && depth = 0 then [] else t :: untilClosing (t.depthBehind depth) rest

/-- The number of commas outside of all parentheses, where `depth` parentheses are open. -/
def topCommas : Nat → List Token → Nat
  | _, [] => 0
  | depth, t :: rest =>
    (if t.kind = .comma && depth = 0 then 1 else 0) + topCommas (t.depthBehind depth) rest

/-- The number of arguments between parentheses with the given tokens. -/
def argumentCount (tokens : List Token) : Nat :=
  if tokens.isEmpty then 0 else topCommas 0 tokens + 1

/-- The calls among tokens, which are names with an opening parenthesis directly behind them, with
the number of their arguments. -/
def callsOfTokens : List Token → List (String × Nat)
  | t :: o :: rest =>
    if t.kind = .identifier && o.kind = .opening then
      (t.text, argumentCount (untilClosing 0 rest)) :: callsOfTokens (o :: rest)
    else callsOfTokens (o :: rest)
  | _ => []

mutual
/-- The calls in an element from left to right, a call in front of those of its arguments. -/
def Element.calls : Element → List (String × Nat)
  | .group inner => inner.calls
  | .call name arguments => (name, arguments.length) :: callsOfArguments arguments
  | _ => []

def Formula.calls : Formula → List (String × Nat)
  | .mk _ elements => callsOfElements elements

def callsOfArguments : List Formula → List (String × Nat)
  | [] => []
  | f :: rest => f.calls ++ callsOfArguments rest

def callsOfElements : List Element → List (String × Nat)
  | [] => []
  | e :: rest => e.calls ++ callsOfElements rest
end

section Plain

/-- Not both elements are operands. -/
def Element.Apart (e next : Element) : Prop := ¬ (e.isOperand = true ∧ next.isOperand = true)

theorem Element.Apart.behind (he : e.isOperand = false) (next : Element) : e.Apart next := by
  rintro ⟨h, _⟩
  rw [he] at h
  cases h

theorem isChain_signs (signs : List Operator) (h : elements.IsChain Element.Apart) :
    (signs.map Element.operator ++ elements).IsChain Element.Apart := by
  induction signs with
  | nil => exact h
  | cons s signs ih =>
    apply List.isChain_cons.2
    exact ⟨fun next _ => .behind rfl next, ih⟩

theorem Terms.isChain (h : Terms elements) (he : e.isOperand = true) :
    (e :: elements).IsChain Element.Apart := by
  induction h generalizing e with
  | nil => exact List.isChain_singleton e
  | @cons signs e' rest op hs he' ht ih =>
    apply List.isChain_cons_cons.2
    constructor
    · rintro ⟨_, h⟩
      cases h
    · exact isChain_signs (op :: signs) (ih he')

/-- No two operands of a plain sequence stand next to each other. -/
theorem Plain.isChain (h : Plain elements) : elements.IsChain Element.Apart := by
  cases h with
  | mk hs he ht => exact isChain_signs _ (ht.isChain he)

end Plain

section Parentheses

/-- All parentheses of the tokens are matched among them. -/
structure Balanced (us : List Token) : Prop where
  untilClosing_append (depth : Nat) (rest : List Token) :
    untilClosing depth (us ++ rest) = us ++ untilClosing depth rest
  topCommas_append (depth : Nat) (rest : List Token) :
    topCommas (depth + 1) (us ++ rest) = topCommas (depth + 1) rest

/-- All commas of the tokens are between parentheses. -/
structure Enclosed (us : List Token) : Prop extends Balanced us where
  topCommas_zero (rest : List Token) : topCommas 0 (us ++ rest) = topCommas 0 rest

theorem Balanced.append (hu : Balanced us) (ht : Balanced ts) : Balanced (us ++ ts) where
  untilClosing_append depth rest := by
    rw [List.append_assoc, hu.untilClosing_append, ht.untilClosing_append, List.append_assoc]
  topCommas_append depth rest := by
    rw [List.append_assoc, hu.topCommas_append, ht.topCommas_append]

theorem Enclosed.append (hu : Enclosed us) (ht : Enclosed ts) : Enclosed (us ++ ts) where
  toBalanced := hu.toBalanced.append ht.toBalanced
  topCommas_zero rest := by
    rw [List.append_assoc, hu.topCommas_zero, ht.topCommas_zero]

theorem Enclosed.nil : Enclosed [] := ⟨⟨fun _ _ => rfl, fun _ _ => rfl⟩, fun _ => rfl⟩

theorem depthBehind_of_ne (ho : t.kind ≠ .opening) (hc : t.kind ≠ .closing) :
    t.depthBehind depth = depth := by
  rw [Token.depthBehind]
  split <;> simp_all

theorem untilClosing_cons (ho : t.kind ≠ .opening) (hc : t.kind ≠ .closing) :
    untilClosing depth (t :: rest) = t :: untilClosing depth rest := by
  rw [untilClosing, depthBehind_of_ne ho hc]
  simp [hc]

theorem balanced_comma (ht : t.kind = .comma) : Balanced [t] where
  untilClosing_append depth rest := untilClosing_cons (by simp [ht]) (by simp [ht])
  topCommas_append depth rest := by simp [topCommas, Token.depthBehind, ht]

/-- A token that is neither a parenthesis nor a comma. -/
def Token.IsInner (t : Token) : Prop := t.kind ≠ .opening ∧ t.kind ≠ .closing ∧ t.kind ≠ .comma

theorem enclosed_inner (ht : t.IsInner) : Enclosed [t] := by
  obtain ⟨ho, hc, hm⟩ := ht
  have hskip (depth : Nat) (rest : List Token) :
      topCommas depth ([t] ++ rest) = topCommas depth rest := by
    rw [List.singleton_append, topCommas, depthBehind_of_ne ho hc]
    simp [hm]
  exact ⟨⟨fun depth rest => untilClosing_cons ho hc, fun depth => hskip (depth + 1)⟩, hskip 0⟩

/-- Parentheses enclose all commas between them. -/
theorem Balanced.enclose (h : Balanced us) (ho : o.kind = .opening) (hc : c.kind = .closing) :
    Enclosed (o :: (us ++ [c])) := by
  have huntil (depth : Nat) (rest : List Token) :
      untilClosing depth (o :: (us ++ [c]) ++ rest) =
        o :: (us ++ [c]) ++ untilClosing depth rest := by
    simp [untilClosing, Token.depthBehind, ho, hc, h.untilClosing_append]
  have hcommas (depth : Nat) (rest : List Token) :
      topCommas depth (o :: (us ++ [c]) ++ rest) = topCommas depth rest := by
    simp [topCommas, Token.depthBehind, ho, hc, h.topCommas_append]
  exact ⟨⟨huntil, fun depth => hcommas (depth + 1)⟩, hcommas 0⟩

theorem Balanced.untilClosing_eq (h : Balanced us) (hc : c.kind = .closing) :
    untilClosing 0 (us ++ c :: rest) = us := by
  rw [h.untilClosing_append, untilClosing, hc]
  exact List.append_nil us

end Parentheses

section Tokens

/-- The tokens do not begin with an opening parenthesis. -/
def NotOpening (tokens : List Token) : Prop := ∀ t ∈ tokens.head?, t.kind ≠ .opening

theorem notOpening_cons (ht : t.kind ≠ .opening) : NotOpening (t :: rest) := by
  intro u hu
  cases hu
  exact ht

theorem callsOfTokens_cons (ht : t.kind ≠ .identifier ∨ NotOpening rest) :
    callsOfTokens (t :: rest) = callsOfTokens rest := by
  cases rest with
  | nil => rfl
  | cons o rest =>
    rw [callsOfTokens, if_neg]
    rw [Bool.and_eq_true, decide_eq_true_eq, decide_eq_true_eq, not_and_or]
    exact ht.imp_right fun ho => ho o rfl

theorem callsOfTokens_call (ht : t.kind = .identifier) (ho : o.kind = .opening) :
    callsOfTokens (t :: o :: rest) =
      (t.text, argumentCount (untilClosing 0 rest)) :: callsOfTokens rest := by
  rw [callsOfTokens, if_pos (by simp [ht, ho]), callsOfTokens_cons (.inl (by simp [ho]))]

theorem callsOfElements_append (elements more : List Element) :
    callsOfElements (elements ++ more) = callsOfElements elements ++ callsOfElements more := by
  induction elements with
  | nil => rfl
  | cons e elements ih =>
    rw [List.cons_append, callsOfElements, callsOfElements, ih, List.append_assoc]

theorem callsOfArguments_append (fs gs : List Formula) :
    callsOfArguments (fs ++ gs) = callsOfArguments fs ++ callsOfArguments gs := by
  induction fs with
  | nil => rfl
  | cons f fs ih => rw [List.cons_append, callsOfArguments, callsOfArguments, ih, List.append_assoc]

theorem callsOfElements_signs (signs : List Operator) :
    callsOfElements (signs.map .operator ++ [e]) = e.calls := by
  induction signs with
  | nil => exact List.append_nil _
  | cons s signs ih => exact ih

theorem callsOfElements_term (elements : List Element) (op : Operator) (signs : List Operator) :
    callsOfElements (elements ++ .operator op :: (signs.map .operator ++ [e])) =
      callsOfElements elements ++ e.calls := by
  rw [callsOfElements_append]
  exact congrArg _ (callsOfElements_signs signs)

/-- The tokens have the given calls in front of all tokens of which they do not call the first. -/
structure Calling (bare : Bool) (us : List Token) (calls : List (String × Nat)) : Prop where
  ne_nil : us ≠ []
  enclosed : Enclosed us
  calls_append (rest : List Token) (hr : bare = false → NotOpening rest) :
    callsOfTokens (us ++ rest) = calls ++ callsOfTokens rest

theorem SignRun.calling {run : List Operator} (h : SignRun ts run) :
    Enclosed ts ∧ ∀ rest, callsOfTokens (ts ++ rest) = callsOfTokens rest := by
  induction h with
  | nil => exact ⟨.nil, fun _ => rfl⟩
  | @snoc ts run t op h ht hs ih =>
    have hinner : t.IsInner := by simp [Token.IsInner, ht.1]
    constructor
    · exact ih.1.append (enclosed_inner hinner)
    · intro rest
      rw [List.append_assoc, ih.2]
      exact callsOfTokens_cons (.inl (by simp [ht.1]))

/-- The operands of a derivation, of which the statement is already known. -/
def CallingOperand (bare : Bool) (us : List Token) (e : Element) : Prop :=
  Calling bare us e.calls

theorem CallingOperand.formula (h : FormulaOf CallingOperand bare ts elements) :
    Calling bare ts (callsOfElements elements) := by
  induction h with
  | start hs hu =>
    constructor
    · simp [hu.ne_nil]
    · exact hs.calling.1.append hu.enclosed
    · intro rest hr
      rw [List.append_assoc, hs.calling.2, hu.calls_append rest hr, callsOfElements_signs]
  | @term before bare ts ss us t op signs elements e h ht hs hu ih =>
    have hinner : t.IsInner := by simp [Token.IsInner, ht.1]
    constructor
    · simp
    · exact ih.enclosed.append ((enclosed_inner hinner).append (hs.calling.1.append hu.enclosed))
    · intro rest hr
      have hnext : NotOpening (t :: (ss ++ us ++ rest)) := notOpening_cons (by simp [ht.1])
      rw [List.append_assoc, List.cons_append, ih.calls_append _ fun _ => hnext,
        callsOfTokens_cons (.inl (by simp [ht.1])), List.append_assoc, hs.calling.2,
        hu.calls_append rest hr, callsOfElements_term, List.append_assoc]
  | @product bare ts us elements inner h hg ih =>
    constructor
    · simp [hg.ne_nil]
    · exact ih.enclosed.append hg.enclosed
    · intro rest hr
      have helements : callsOfElements (elements ++ [.operator .multiply, .group inner]) =
          callsOfElements elements ++ (Element.group inner).calls :=
        callsOfElements_term elements .multiply []
      rw [List.append_assoc, ih.calls_append _ (by simp), hg.calls_append rest hr, helements,
        List.append_assoc]

/-- Tokens that separate as many formulas as there are. -/
structure Separating (us : List Token) (fs : List Formula) : Prop where
  ne_nil : us ≠ []
  balanced : Balanced us
  topCommas_zero (rest : List Token) : topCommas 0 (us ++ rest) + 1 = fs.length + topCommas 0 rest
  calls_append (rest : List Token) (hr : NotOpening rest) :
    callsOfTokens (us ++ rest) = callsOfArguments fs ++ callsOfTokens rest

theorem CallingOperand.arguments (h : ArgumentsOf scope CallingOperand us fs) :
    Separating us fs := by
  induction h with
  | one h =>
    have hf := CallingOperand.formula h
    constructor
    · exact hf.ne_nil
    · exact hf.enclosed.toBalanced
    · intro rest
      rw [hf.enclosed.topCommas_zero, List.length_singleton, Nat.add_comm]
    · intro rest hr
      rw [hf.calls_append rest fun _ => hr, callsOfArguments, callsOfArguments, List.append_nil,
        Formula.calls]
  | @more bare us vs t elements fs h ht hv ih =>
    have hf := CallingOperand.formula hv
    constructor
    · simp
    · exact ih.balanced.append ((balanced_comma ht).append hf.enclosed.toBalanced)
    · intro rest
      have hcomma : topCommas 0 (t :: (vs ++ rest)) = 1 + topCommas 0 rest := by
        simp [topCommas, Token.depthBehind, ht, hf.enclosed.topCommas_zero]
      rw [List.append_assoc, ih.topCommas_zero, List.cons_append, hcomma, List.length_append,
        List.length_singleton, Nat.add_assoc]
    · intro rest hr
      have hnext : NotOpening (t :: (vs ++ rest)) := notOpening_cons (by simp [ht])
      rw [List.append_assoc, List.cons_append, ih.calls_append _ hnext,
        callsOfTokens_cons (.inl (by simp [ht])), hf.calls_append rest fun _ => hr,
        callsOfArguments_append, callsOfArguments, callsOfArguments, List.append_nil, Formula.calls,
        List.append_assoc]

theorem Separating.argumentCount_eq (h : Separating us fs) : argumentCount us = fs.length := by
  have hcommas := h.topCommas_zero []
  rw [List.append_nil] at hcommas
  rw [argumentCount, if_neg (by simpa using h.ne_nil), hcommas]
  rfl

theorem IsOperand.calling (h : IsOperand scope bare us e) : Calling bare us e.calls := by
  refine IsOperand.induct (motive := CallingOperand) ?_ ?_ ?_ ?_ ?_ h
  · intro t x ht hx
    constructor
    · simp
    · exact enclosed_inner (by simp [Token.IsInner, ht])
    · intro rest hr
      exact callsOfTokens_cons (.inl (by simp [ht]))
  · intro t ht
    constructor
    · simp
    · exact enclosed_inner (by simp [Token.IsInner, ht])
    · intro rest hr
      exact callsOfTokens_cons (.inr (hr rfl))
  · intro t o c ht ho hc
    have hparentheses := Enclosed.nil.toBalanced.enclose ho hc
    constructor
    · simp
    · exact (enclosed_inner (by simp [Token.IsInner, ht])).append hparentheses
    · intro rest hr
      have hempty : untilClosing 0 (c :: rest) = [] := Enclosed.nil.toBalanced.untilClosing_eq hc
      have hnone : argumentCount (untilClosing 0 (c :: rest)) = 0 := by rw [hempty]; rfl
      change callsOfTokens (t :: o :: c :: rest) = _
      rw [callsOfTokens_call ht ho, callsOfTokens_cons (.inl (by simp [hc])), hnone]
      rfl
  · intro t o c us fs ht ho h hc
    have hargs := CallingOperand.arguments (h.imp fun _ _ _ hu => hu.2)
    constructor
    · simp
    · exact (enclosed_inner (by simp [Token.IsInner, ht])).append (hargs.balanced.enclose ho hc)
    · intro rest hr
      have hnext : NotOpening (c :: rest) := notOpening_cons (by simp [hc])
      change callsOfTokens (t :: o :: (us ++ [c] ++ rest)) = _
      rw [callsOfTokens_call ht ho, List.append_assoc, List.singleton_append,
        hargs.balanced.untilClosing_eq hc, hargs.argumentCount_eq, hargs.calls_append _ hnext,
        callsOfTokens_cons (.inl (by simp [hc]))]
      rfl
  · intro bare o c us elements ho h hc
    have hf := CallingOperand.formula (h.imp fun _ _ _ hu => hu.2)
    constructor
    · simp
    · exact hf.enclosed.toBalanced.enclose ho hc
    · intro rest hr
      have hnext : NotOpening (c :: rest) := notOpening_cons (by simp [hc])
      change callsOfTokens (o :: (us ++ [c] ++ rest)) = _
      rw [callsOfTokens_cons (.inl (by simp [ho])), List.append_assoc, List.singleton_append,
        hf.calls_append _ fun _ => hnext, callsOfTokens_cons (.inl (by simp [hc]))]
      rfl

/-- What the grammar derives from tokens has the calls of the tokens. -/
theorem FormulaOf.calls (h : IsFormula scope bare ts elements) (position : Nat) :
    callsOfTokens (ts ++ [.atEnd position]) = callsOfElements elements := by
  have hf := CallingOperand.formula (h.imp fun _ _ _ hu => hu.calling)
  have hend : NotOpening [.atEnd position] := notOpening_cons (by simp [Token.atEnd])
  rw [hf.calls_append _ fun _ => hend]
  exact List.append_nil _

end Tokens

/-- A blank text is read as no elements, which are not valid. What any other text is read as is
valid, has at every depth a sequence with elements, without commas and without two operands next to
each other, and has the calls of the tokens, each with one argument more than the commas between its
parentheses that no further parentheses enclose, or none if there is nothing between them. -/
theorem parse_isValid (hp : (Formula.parse scope text).result = .ok f) :
    (text.toList.all Text.isBlank = true → f.elements = [] ∧ f.isValid = false) ∧
      (text.toList.all Text.isBlank = false → f.isValid = true ∧
        (∀ g : Formula, g.Within f → g.elements ≠ [] ∧ (∀ e ∈ g.elements, e.kind ≠ .comma) ∧
          g.elements.IsChain Element.Apart) ∧
        ∃ tokens, scanText text.toList = .ok tokens ∧ f.calls = callsOfTokens tokens) := by
  constructor
  · intro hb
    rw [parse_blank hb] at hp
    cases hp
    exact ⟨rfl, rfl⟩
  · intro hb
    rw [Formula.parse_result] at hp
    have hplain (g : Formula) (hg : g.Within f) : Plain g.elements :=
      ((parsed_of_ofText hb hp).within hg).plain
    refine ⟨?_, ?_, ?_⟩
    · apply Formula.isValid_iff_within.2
      intro g hg
      exact (hplain g hg).findViolation
    · intro g hg
      exact ⟨(hplain g hg).ne_nil, (hplain g hg).kind_ne_comma, (hplain g hg).isChain⟩
    · obtain ⟨body, position, bare, elements, hs, _, hf, rfl⟩ := exists_formula_of_ofText hb hp
      refine ⟨_, by rw [scanText, hs], ?_⟩
      rw [hf.calls position, Formula.calls]

def nestedCall : List Token :=
  [⟨.identifier, ['a'], 0⟩, ⟨.operator, ['*'], 1⟩, ⟨.identifier, ['f'], 2⟩, ⟨.opening, ['('], 3⟩,
    ⟨.identifier, ['x'], 4⟩, ⟨.comma, [','], 5⟩, ⟨.identifier, ['g'], 6⟩, ⟨.opening, ['('], 7⟩,
    ⟨.closing, [')'], 8⟩, ⟨.closing, [')'], 9⟩]

/-- In `a f(x,g())` one call has two arguments, the second of which is a call of none. -/
theorem parse_isValid_nestedCall :
    ∃ f, (Formula.parse ⟨0, 0⟩ "a f(x,g())").result = .ok f ∧ f.isValid = true ∧
      f.calls = [("f", 2), ("g", 0)] := by
  have hb : "a f(x,g())".toList.all Text.isBlank = false := by decide
  have hs : scan "a f(x,g())".toList = .ok (nestedCall ++ [.atEnd 10]) := by decide +kernel
  have ha : IsFormula ⟨0, 0⟩ false [⟨.identifier, ['a'], 0⟩] [.variable "a"] :=
    .start .nil (.variable rfl)
  have hx : IsFormula ⟨0, 0⟩ false [⟨.identifier, ['x'], 4⟩] [.variable "x"] :=
    .start .nil (.variable rfl)
  have hg : IsFormula ⟨0, 0⟩ false
      [⟨.identifier, ['g'], 6⟩, ⟨.opening, ['('], 7⟩, ⟨.closing, [')'], 8⟩] [.call "g" []] :=
    .start .nil (.callOfNone rfl rfl rfl)
  have hf : IsFormula ⟨0, 0⟩ false nestedCall [.variable "a", .operator .multiply,
      .call "f" [.mk ⟨0, 0⟩ [.variable "x"], .mk ⟨0, 0⟩ [.call "g" []]]] :=
    .term ha ⟨rfl, rfl⟩ .nil (.call rfl rfl (.more (.one hx) rfl hg) rfl)
  have hp := hf.parse hb hs
  obtain ⟨hv, _, tokens, ht, hc⟩ := (parse_isValid hp).2 hb
  rw [scanText, hs] at ht
  cases ht
  exact ⟨_, hp, hv, hc⟩

end Calculator
