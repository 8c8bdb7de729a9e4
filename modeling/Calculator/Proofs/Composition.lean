import Calculator.Proofs.Parsing
import Calculator.Proofs.Seams
/-!
Composition. A text that parses is read as the same elements wherever it stands in front of a
delimiter (`ParsesAs.anywhere`), so a group, a call and an operator between two formulas may be
written around texts and are parsed as what is built of their formulas (`parse_composes`).
-/
namespace Calculator

variable {scope : Scope} {cs ds : List Char} {text first second name : String}
  {texts : List String} {f g : Formula} {fs : List Formula} {elements more : List Element}
  {op : Operator} {found : List Token} {o c last : Token}

/-- The text is not blank and parses as the formula. -/
def ParsesAs (scope : Scope) (text : String) (f : Formula) : Prop :=
  text.toList.all Text.isBlank = false ∧ (Formula.parse scope text).result = .ok f

def Derived (scope : Scope) (elements : List Element) (tokens : List Token) : Prop :=
  ∃ bare, IsFormula scope bare tokens elements

/-- What a call has between its parentheses: nothing, or formulas between commas. -/
def DerivedCall (scope : Scope) (fs : List Formula) (tokens : List Token) : Prop :=
  (fs = [] ∧ tokens = []) ∨ IsArguments scope tokens fs

/-- Wherever the piece stands in front of a delimiter, it is scanned as tokens that derive the same,
with the multiplications that are understood in it. -/
def Anywhere (derived : List Token → Prop) (cs : List Char) : Prop :=
  ∀ position tail, Delimited tail → ∃ found, Scans position cs tail found ∧
    ∀ last : Token, last.kind ≠ .identifier → derived (multiplied found last)

section Pieces

theorem ParsesAs.anywhere (h : ParsesAs scope text f) :
    ∃ elements, f = .mk scope elements ∧ Anywhere (Derived scope elements) text.toList := by
  obtain ⟨hb, hp⟩ := h
  rw [Formula.parse_result] at hp
  obtain ⟨body, stop, bare, elements, hscan, _, hf, rfl⟩ := exists_formula_of_ofText hb hp
  obtain ⟨scanned, hs, htokens⟩ := exists_of_bind_ok hscan
  have hstart : text.toList.drop 0 = text.toList := rfl
  obtain ⟨found, _, rfl⟩ := scanFrom_tiles hstart (Nat.zero_le _) hs
  rw [withMultiplications_eq] at htokens
  obtain ⟨rfl, _⟩ := List.append_inj' (Except.ok.inj htokens) rfl
  refine ⟨elements, rfl, fun position tail ht => ?_⟩
  have hmoved := scans_moved hs ht position
  rw [Nat.zero_add] at hmoved
  refine ⟨_, hmoved, fun last hl => ⟨bare, ?_⟩⟩
  -- What follows is no name, as the end is none, so the last token multiplies neither.
  have hend : ((Token.atEnd text.toList.length).moveBy position).kind ≠ .identifier := nofun
  have hlast (t : Token) :
      t.product last = t.product ((Token.atEnd text.toList.length).moveBy position) := by
    rw [Token.product_of_ne hl, Token.product_of_ne hend]
  rw [multiplied_congr hlast, multiplied_moveBy]
  exact hf.moveBy position

theorem multiplied_parenthesized (ho : o.kind = .opening) (hc : c.kind = .closing) :
    multiplied (o :: (found ++ [c])) last = o :: (multiplied found c ++ [c]) := by
  have hmark {t : Token} (ht : t.kind = .opening ∨ t.kind = .closing) :
      t.kind ≠ .number ∧ t.kind ≠ .identifier := by
    rcases ht with ht | ht <;> rw [ht] <;> decide
  obtain ⟨hon, hoi⟩ := hmark (.inl ho)
  obtain ⟨hcn, hci⟩ := hmark (.inr hc)
  rw [multiplied_mark hon hoi, multiplied_around found [] hcn hci]
  rfl

theorem Anywhere.group (h : Anywhere (Derived scope elements) cs) :
    Anywhere (Derived scope [.group (.mk scope elements)]) (['('] ++ (cs ++ [')'])) := by
  intro position tail ht
  obtain ⟨found, hs, hd⟩ := h (position + 1) (')' :: tail) (delimited_cons (.inr (.inr (.inr rfl))))
  obtain ⟨o, c, ho, hc, hp⟩ := scans_parenthesized hs
  refine ⟨_, hp, fun last _ => ?_⟩
  obtain ⟨bare, hf⟩ := hd c (by rw [hc]; decide)
  rw [multiplied_parenthesized ho hc]
  exact ⟨true, .start .nil (IsOperand.group ho hf hc)⟩

theorem Anywhere.call (hn : IsName name.toList) (h : Anywhere (DerivedCall scope fs) cs) :
    Anywhere (Derived scope [.call name fs]) (name.toList ++ (['('] ++ (cs ++ [')']))) := by
  intro position tail ht
  obtain ⟨t, hk, hname, hs⟩ := scans_name hn (delimited_cons (.inr (.inr (.inl rfl))))
  obtain ⟨found, hfound, hd⟩ := h _ _ (delimited_cons (.inr (.inr (.inr rfl))))
  obtain ⟨o, c, ho, hc, hp⟩ := scans_parenthesized hfound
  refine ⟨_, hs.append hp, fun last _ => ⟨false, ?_⟩⟩
  -- The name stays next to its parenthesis, so it is called.
  have hnext : t.product o = [] := Token.product_of_ne (by rw [ho]; decide)
  rw [List.singleton_append, multiplied_cons, hnext, multiplied_parenthesized ho hc]
  have hcall : IsOperand scope false (t :: o :: (multiplied found c ++ [c])) (.call t.text fs) := by
    rcases hd c (by rw [hc]; decide) with ⟨rfl, hnone⟩ | ha
    · rw [hnone]
      exact .callOfNone hk ho hc
    · exact .call hk ho ha hc
  rw [hname] at hcall
  exact .start .nil hcall

theorem Anywhere.operator (op : Operator) (h : Anywhere (Derived scope elements) cs)
    (hm : Anywhere (Derived scope more) ds) :
    Anywhere (Derived scope (elements ++ .operator op :: more))
      (cs ++ ([' '] ++ ([op.symbol] ++ ([' '] ++ ds)))) := by
  intro position tail ht
  obtain ⟨found, hs, hd⟩ := h position _ (delimited_cons (.inl rfl))
  obtain ⟨others, hs', hd'⟩ := hm _ tail ht
  refine ⟨_, hs.append (scans_blank.append
    ((scans_mark (.operator op) (by decide) (by decide)).append (scans_blank.append hs'))),
    fun last hl => ?_⟩
  obtain ⟨before, hf⟩ := hd ⟨.operator, [op.symbol], _⟩ nofun
  obtain ⟨bare, hg⟩ := hd' last hl
  refine ⟨bare, ?_⟩
  rw [List.nil_append, List.singleton_append, List.nil_append, multiplied_around]
  · exact hf.join ⟨rfl, rfl⟩ hg
  · intro hk
    cases hk
  · intro hk
    cases hk

/-- Texts that parse, between commas, are the arguments of a call. -/
theorem anywhere_arguments (h : ParsesAs scope text f)
    (hs : List.Forall₂ (ParsesAs scope) texts fs) :
    Anywhere (fun ts => IsArguments scope ts (f :: fs))
      (",".intercalate (text :: texts)).toList := by
  induction hs generalizing text f with
  | nil =>
    obtain ⟨elements, rfl, ha⟩ := h.anywhere
    intro position tail ht
    obtain ⟨found, hs, hd⟩ := ha position tail ht
    rw [String.intercalate_singleton]
    refine ⟨found, hs, fun last hl => ?_⟩
    obtain ⟨bare, hf⟩ := hd last hl
    exact .one hf
  | @cons next g texts fs hg _ ih =>
    obtain ⟨elements, rfl, ha⟩ := h.anywhere
    intro position tail ht
    have htext : (",".intercalate (text :: next :: texts)).toList =
        text.toList ++ ([','] ++ (",".intercalate (next :: texts)).toList) := by
      simp only [String.intercalate_cons_cons, String.toList_append, List.append_assoc]
      rfl
    obtain ⟨found, hs, hd⟩ := ha position _ (delimited_cons (.inr (.inl rfl)))
    obtain ⟨others, hs', hd'⟩ := ih hg _ tail ht
    rw [htext]
    refine ⟨_, hs.append ((scans_mark .comma (by decide) (by decide)).append hs'),
      fun last hl => ?_⟩
    obtain ⟨bare, hf⟩ := hd ⟨.comma, [','], _⟩ nofun
    rw [List.singleton_append, multiplied_around]
    · exact ArgumentsOf.cons hf rfl (hd' last hl)
    · intro hk
      cases hk
    · intro hk
      cases hk

/-- A piece that is a whole text is parsed as what is derived of it. -/
theorem Anywhere.parse (h : Anywhere (Derived scope elements) text.toList) {d : Char}
    (hd : d ∈ text.toList) (hb : Text.isBlank d = false) :
    (Formula.parse scope text).result = .ok (.mk scope elements) := by
  have hblank : text.toList.all Text.isBlank = false :=
    List.all_eq_false.2 ⟨d, hd, Bool.eq_false_iff.1 hb⟩
  obtain ⟨found, hs, hderived⟩ := h 0 [] .nil
  obtain ⟨bare, hf⟩ := hderived (.atEnd (0 + text.toList.length)) nofun
  have hscan : scan text.toList =
      .ok (multiplied found (.atEnd (0 + text.toList.length)) ++
        [.atEnd (0 + text.toList.length)]) := by
    rw [scan, hs.scanFrom]
    exact congrArg Except.ok (withMultiplications_eq found _)
  exact hf.parse hblank hscan

end Pieces

/-- Texts that parse compose: in parentheses a text is a group of its elements, behind a name in
parentheses and between commas texts are the arguments of a call, and with an operator between them
two texts are the elements of both around that operator. -/
theorem parse_composes (scope : Scope) :
    (∀ text f, ParsesAs scope text f →
      (Formula.parse scope ("(" ++ text ++ ")")).result = .ok (.mk scope [.group f])) ∧
    (∀ name texts fs, IsName name.toList → List.Forall₂ (ParsesAs scope) texts fs →
      (Formula.parse scope (name ++ "(" ++ ",".intercalate texts ++ ")")).result =
        .ok (.mk scope [.call name fs])) ∧
    ∀ op first second f g, ParsesAs scope first f → ParsesAs scope second g →
      (Formula.parse scope (first ++ " " ++ op.symbol.toString ++ " " ++ second)).result =
        .ok (.mk scope (f.elements ++ .operator op :: g.elements)) := by
  refine ⟨fun text f h => ?_, fun name texts fs hn h => ?_, fun op first second f g hf hg => ?_⟩
  · obtain ⟨elements, rfl, ha⟩ := h.anywhere
    have htext : ("(" ++ text ++ ")").toList = ['('] ++ (text.toList ++ [')']) := by simp
    have hgroup := ha.group
    rw [← htext] at hgroup
    exact hgroup.parse (d := '(') (by simp) (by decide)
  · have harguments : Anywhere (DerivedCall scope fs) (",".intercalate texts).toList := by
      cases h with
      | nil => exact fun position tail _ => ⟨[], .nil, fun last _ => .inl ⟨rfl, rfl⟩⟩
      | cons hf h =>
        intro position tail ht
        obtain ⟨found, hs, hd⟩ := anywhere_arguments hf h position tail ht
        exact ⟨found, hs, fun last hl => .inr (hd last hl)⟩
    have htext : (name ++ "(" ++ ",".intercalate texts ++ ")").toList =
        name.toList ++ (['('] ++ ((",".intercalate texts).toList ++ [')'])) := by simp
    have hcall := harguments.call hn
    rw [← htext] at hcall
    exact hcall.parse (d := '(') (by simp) (by decide)
  · obtain ⟨elements, rfl, ha⟩ := hf.anywhere
    obtain ⟨more, rfl, ha'⟩ := hg.anywhere
    have htext : (first ++ " " ++ op.symbol.toString ++ " " ++ second).toList =
        first.toList ++ ([' '] ++ ([op.symbol] ++ ([' '] ++ second.toList))) := by simp
    have hboth := ha.operator op ha'
    rw [← htext] at hboth
    exact hboth.parse (d := op.symbol) (by simp) (by cases op <;> decide)

section Composed

def namesProduct (scope : Scope) : Formula :=
  .mk scope [.variable "a", .operator .multiply, .variable "b"]

def negatedName (scope : Scope) : Formula := .mk scope [.operator .subtract, .variable "c"]

theorem parsesAs_namesProduct (scope : Scope) : ParsesAs scope "a b" (namesProduct scope) := by
  have hb : "a b".toList.all Text.isBlank = false := by decide
  have hs : scan "a b".toList = .ok ([⟨.identifier, ['a'], 0⟩, ⟨.operator, ['*'], 1⟩,
      ⟨.identifier, ['b'], 2⟩] ++ [.atEnd 3]) := by decide +kernel
  have ha : IsFormula scope false [⟨.identifier, ['a'], 0⟩] [.variable "a"] :=
    .start .nil (.variable rfl)
  have hb' : IsOperand scope false [⟨.identifier, ['b'], 2⟩] (.variable "b") := .variable rfl
  have htimes : Token.IsOperator ⟨.operator, ['*'], 1⟩ .multiply := ⟨rfl, rfl⟩
  exact ⟨hb, (ha.term htimes .nil hb').parse hb hs⟩

theorem parsesAs_negatedName (scope : Scope) : ParsesAs scope "-c" (negatedName scope) := by
  have hb : "-c".toList.all Text.isBlank = false := by decide
  have hs : scan "-c".toList = .ok ([⟨.operator, ['-'], 0⟩, ⟨.identifier, ['c'], 1⟩] ++
      [.atEnd 2]) := by decide +kernel
  have hc : IsFormula scope false [⟨.operator, ['-'], 0⟩, ⟨.identifier, ['c'], 1⟩]
      [.operator .subtract, .variable "c"] :=
    .start (.snoc .nil ⟨rfl, rfl⟩ (.inr rfl)) (.variable rfl)
  exact ⟨hb, hc.parse hb hs⟩

theorem isName_f : IsName "f".toList := ⟨'f', [], rfl, by decide, List.forall_mem_nil _⟩

/-- A multiplication that is understood in a text and a sign in front of it stay inside. -/
theorem parse_composes_signed :
    (Formula.parse ⟨0, 0⟩ "(a b)").result = .ok (.mk ⟨0, 0⟩ [.group (namesProduct ⟨0, 0⟩)]) ∧
      (Formula.parse ⟨0, 0⟩ "f(a b,-c)").result =
        .ok (.mk ⟨0, 0⟩ [.call "f" [namesProduct ⟨0, 0⟩, negatedName ⟨0, 0⟩]]) ∧
      (Formula.parse ⟨0, 0⟩ "f()").result = .ok (.mk ⟨0, 0⟩ [.call "f" []]) ∧
      (Formula.parse ⟨0, 0⟩ "a b ^ -c").result = .ok (.mk ⟨0, 0⟩ [.variable "a",
        .operator .multiply, .variable "b", .operator .power, .operator .subtract,
        .variable "c"]) := by
  obtain ⟨hgroup, hcall, hoperator⟩ := parse_composes ⟨0, 0⟩
  have hab := parsesAs_namesProduct ⟨0, 0⟩
  have hc := parsesAs_negatedName ⟨0, 0⟩
  have hgrouped := hgroup _ _ hab
  have hproducts := hcall "f" _ _ isName_f (.cons hab (.cons hc .nil))
  have hnone := hcall "f" [] [] isName_f .nil
  have hpower := hoperator .power _ _ _ _ hab hc
  have hgroupText : "(" ++ "a b" ++ ")" = "(a b)" := by decide
  have hproductsText : "f" ++ "(" ++ ",".intercalate ["a b", "-c"] ++ ")" = "f(a b,-c)" := by decide
  have hnoneText : "f" ++ "(" ++ ",".intercalate [] ++ ")" = "f()" := by decide
  have hpowerText : "a b" ++ " " ++ Operator.power.symbol.toString ++ " " ++ "-c" = "a b ^ -c" := by
    decide
  rw [hgroupText] at hgrouped
  rw [hproductsText] at hproducts
  rw [hnoneText] at hnone
  rw [hpowerText] at hpower
  exact ⟨hgrouped, hproducts, hnone, hpower⟩

end Composed

end Calculator
