import Calculator.Parsing
import Calculator.Proofs.Scanning
import Calculator.Proofs.Sequence
/-!
The grammar of formulas. `IsFormula` derives the elements of a formula from its tokens; what it
derives is plain (`FormulaOf.plain`), and `IsOperand.induct` is induction over derivations.
-/
namespace Calculator

def Token.IsOperator (t : Token) (op : Operator) : Prop :=
  t.kind = .operator ∧ t.lexeme = [op.symbol]

theorem Token.IsOperator.ofLexeme? {t : Token} {op : Operator} (h : t.IsOperator op) :
    Operator.ofLexeme? t.lexeme = some op := by
  rw [h.2]
  cases op <;> rfl

/-- `Sign*`, where the signs are `+` and `-`. -/
inductive SignRun : List Token → List Operator → Prop
  | nil : SignRun [] []
  | snoc {ts : List Token} {run : List Operator} {t : Token} {op : Operator} (h : SignRun ts run)
      (ht : t.IsOperator op) (hs : op = .add ∨ op = .subtract) : SignRun (ts ++ [t]) (run ++ [op])

/-- `Sign* Operand Tail*`, where a tail is `BinaryOp Sign* Operand` or a bare group. `bare` tells
whether a bare group may follow, and the elements have a multiplication in front of each of them. -/
inductive FormulaOf (operand : Bool → List Token → Element → Prop) :
    Bool → List Token → List Element → Prop
  | start {bare : Bool} {ss us : List Token} {signs : List Operator} {e : Element}
      (hs : SignRun ss signs) (hu : operand bare us e) :
      FormulaOf operand bare (ss ++ us) (signs.map .operator ++ [e])
  | term {before bare : Bool} {ts ss us : List Token} {t : Token} {op : Operator}
      {signs : List Operator} {elements : List Element} {e : Element}
      (h : FormulaOf operand before ts elements) (ht : t.IsOperator op) (hs : SignRun ss signs)
      (hu : operand bare us e) :
      FormulaOf operand bare (ts ++ t :: (ss ++ us))
        (elements ++ .operator op :: (signs.map .operator ++ [e]))
  | product {bare : Bool} {ts us : List Token} {elements : List Element} {inner : Formula}
      (h : FormulaOf operand true ts elements) (hg : operand bare us (.group inner)) :
      FormulaOf operand bare (ts ++ us) (elements ++ [.operator .multiply, .group inner])

/-- `Expr (',' Expr)*`, one formula for each part. -/
inductive ArgumentsOf (scope : Scope) (operand : Bool → List Token → Element → Prop) :
    List Token → List Formula → Prop
  | one {bare : Bool} {us : List Token} {elements : List Element}
      (h : FormulaOf operand bare us elements) : ArgumentsOf scope operand us [.mk scope elements]
  | more {bare : Bool} {us vs : List Token} {t : Token} {elements : List Element}
      {fs : List Formula} (hf : ArgumentsOf scope operand us fs) (ht : t.kind = .comma)
      (h : FormulaOf operand bare vs elements) :
      ArgumentsOf scope operand (us ++ t :: vs) (fs ++ [.mk scope elements])

/-- An operand is a number, a name, a call of a name or a group. A bare group may stand only behind
a number or a group. -/
inductive IsOperand (scope : Scope) : Bool → List Token → Element → Prop
  | number {t : Token} {x : Float} (ht : t.kind = .number)
      (hx : Decimal.readChars? t.lexeme = some x) : IsOperand scope true [t] (.number x)
  | variable {t : Token} (ht : t.kind = .identifier) :
      IsOperand scope false [t] (.variable t.text)
  | callOfNone {t o c : Token} (ht : t.kind = .identifier) (ho : o.kind = .opening)
      (hc : c.kind = .closing) : IsOperand scope false [t, o, c] (.call t.text [])
  | call {t o c : Token} {us : List Token} {fs : List Formula} (ht : t.kind = .identifier)
      (ho : o.kind = .opening) (h : ArgumentsOf scope (IsOperand scope) us fs)
      (hc : c.kind = .closing) : IsOperand scope false (t :: o :: (us ++ [c])) (.call t.text fs)
  | group {bare : Bool} {o c : Token} {us : List Token} {elements : List Element}
      (ho : o.kind = .opening) (h : FormulaOf (IsOperand scope) bare us elements)
      (hc : c.kind = .closing) : IsOperand scope true (o :: (us ++ [c])) (.group (.mk scope elements))

/-- `IsFormula scope bare tokens elements`: the grammar derives the elements from the tokens, with
all names in the given scope. -/
abbrev IsFormula (scope : Scope) : Bool → List Token → List Element → Prop :=
  FormulaOf (IsOperand scope)

abbrev IsArguments (scope : Scope) : List Token → List Formula → Prop :=
  ArgumentsOf scope (IsOperand scope)

section Derivations

variable {operand operand' : Bool → List Token → Element → Prop} {scope : Scope} {bare : Bool}
  {ts us : List Token} {e : Element} {elements : List Element} {fs : List Formula}

theorem FormulaOf.imp (ho : ∀ bare us e, operand bare us e → operand' bare us e)
    (h : FormulaOf operand bare ts elements) : FormulaOf operand' bare ts elements := by
  induction h with
  | start hs hu => exact .start hs (ho _ _ _ hu)
  | term h ht hs hu ih => exact .term ih ht hs (ho _ _ _ hu)
  | product h hg ih => exact .product ih (ho _ _ _ hg)

theorem ArgumentsOf.imp (ho : ∀ bare us e, operand bare us e → operand' bare us e)
    (h : ArgumentsOf scope operand ts fs) : ArgumentsOf scope operand' ts fs := by
  induction h with
  | one h => exact .one (h.imp ho)
  | more hf ht h ih => exact .more ih ht (h.imp ho)

theorem ArgumentsOf.cons {vs : List Token} {t : Token} (h : FormulaOf operand bare us elements)
    (ht : t.kind = .comma) (ha : ArgumentsOf scope operand vs fs) :
    ArgumentsOf scope operand (us ++ t :: vs) (.mk scope elements :: fs) := by
  induction ha with
  | one h' => exact .more (.one h) ht h'
  | more hf ht' h' ih =>
    rw [List.append_cons, ← List.append_assoc, List.append_assoc us]
    exact .more ih ht' h'

/-- Induction over derivations: the formulas and arguments inside of an operand may be taken to have
operands for which the statement holds. -/
theorem IsOperand.induct {motive : Bool → List Token → Element → Prop}
    (number : ∀ {t x}, t.kind = .number → Decimal.readChars? t.lexeme = some x →
      motive true [t] (.number x))
    (name : ∀ {t : Token}, t.kind = .identifier → motive false [t] (.variable t.text))
    (callOfNone : ∀ {t o c : Token}, t.kind = .identifier → o.kind = .opening →
      c.kind = .closing → motive false [t, o, c] (.call t.text []))
    (call : ∀ {t o c : Token} {us fs}, t.kind = .identifier → o.kind = .opening →
      ArgumentsOf scope (fun bare us e => IsOperand scope bare us e ∧ motive bare us e) us fs →
      c.kind = .closing → motive false (t :: o :: (us ++ [c])) (.call t.text fs))
    (group : ∀ {bare : Bool} {o c : Token} {us elements}, o.kind = .opening →
      FormulaOf (fun bare us e => IsOperand scope bare us e ∧ motive bare us e) bare us elements →
      c.kind = .closing → motive true (o :: (us ++ [c])) (.group (.mk scope elements)))
    (h : IsOperand scope bare us e) : motive bare us e := by
  have hm : IsOperand scope bare us e ∧ motive bare us e := by
    refine @IsOperand.rec scope (fun bare us e _ => IsOperand scope bare us e ∧ motive bare us e)
      (fun us fs _ =>
        ArgumentsOf scope (fun bare us e => IsOperand scope bare us e ∧ motive bare us e) us fs)
      (fun bare us elements _ =>
        FormulaOf (fun bare us e => IsOperand scope bare us e ∧ motive bare us e) bare us elements)
      ?_ ?_ ?_ ?_ ?_ ?_ ?_ ?_ ?_ ?_ bare us e h
    · intro t x ht hx
      exact ⟨.number ht hx, number ht hx⟩
    · intro t ht
      exact ⟨.variable ht, name ht⟩
    · intro t o c ht ho hc
      exact ⟨.callOfNone ht ho hc, callOfNone ht ho hc⟩
    · intro t o c us fs ht ho h hc ih
      exact ⟨.call ht ho h hc, call ht ho ih hc⟩
    · intro bare o c us elements ho h hc ih
      exact ⟨.group ho h hc, group ho ih hc⟩
    · intro bare us elements h ih
      exact .one ih
    · intro bare us vs t elements fs hf ht h ihf ih
      exact .more ihf ht ih
    · intro bare ss us signs e hs hu ih
      exact .start hs ih
    · intro before bare ts ss us t op signs elements e h ht hs hu ih ihu
      exact .term ih ht hs ihu
    · intro bare ts us elements inner h hg ih ihg
      exact .product ih ihg
  exact hm.2

theorem IsOperand.isOperand (h : IsOperand scope bare us e) : e.isOperand = true := by
  cases h <;> rfl

theorem IsOperand.bare_iff (h : IsOperand scope bare us e) :
    bare = true ↔ e.kind = .number ∨ e.kind = .group := by
  cases h <;> simp [Element.kind]

theorem IsOperand.exists_opening {inner : Formula} (h : IsOperand scope bare us (.group inner)) :
    ∃ o vs, us = o :: vs ∧ o.kind = .opening := by
  cases h with
  | group ho h hc => exact ⟨_, _, rfl, ho⟩

/-- A formula ends with an operand, which tells whether a bare group may follow. -/
theorem FormulaOf.exists_last (h : IsFormula scope bare ts elements) :
    ∃ before e, elements = before ++ [e] ∧ e.isOperand = true ∧
      (bare = true ↔ e.kind = .number ∨ e.kind = .group) := by
  cases h with
  | start hs hu => exact ⟨_, _, rfl, hu.isOperand, hu.bare_iff⟩
  | @term _ _ _ _ _ _ op signs elements e h ht hs hu =>
    exact ⟨elements ++ .operator op :: signs.map .operator, e, by simp, hu.isOperand, hu.bare_iff⟩
  | @product _ _ _ elements inner h hg =>
    exact ⟨elements ++ [.operator .multiply], .group inner, by simp, hg.isOperand, hg.bare_iff⟩

theorem SignRun.allSigns {run : List Operator} (h : SignRun ts run) : AllSigns run := by
  induction h with
  | nil => exact .nil
  | snoc h ht hs ih =>
    intro op hm
    rcases List.mem_append.1 hm with hm | hm
    · exact ih op hm
    · rw [List.mem_singleton.1 hm]; exact hs

/-- What a formula derives begins with signs and an operand and goes on with terms. -/
theorem FormulaOf.plain (h : IsFormula scope bare ts elements) : Plain elements := by
  induction h with
  | start hs hu => exact .mk hs.allSigns hu.isOperand .nil
  | term h ht hs hu ih => exact ih.append_term _ hs.allSigns hu.isOperand
  | product h hg ih => exact ih.append_term .multiply .nil hg.isOperand

end Derivations

end Calculator
