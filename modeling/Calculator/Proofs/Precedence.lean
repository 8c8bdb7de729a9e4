import Calculator.Proofs.Reduction
import Calculator.Proofs.Sequence
import Mathlib.Algebra.BigOperators.Group.List.Basic
import Mathlib.Algebra.Order.Ring.Int
/-!
Precedence. `Reads` reads a sequence of numbers and operators as a tree: powers bind tightest, then
products and quotients, then sums and differences, and every level associates to the left. The scans
that reduce a row in place give the value of the tree of what the operands come to.
-/
namespace Calculator

/-- A formula as a tree; each operand comes with the product of the signs in front of it. -/
inductive Tree where
  | operand (sign : Int) (value : Float)
  | node (op : Operator) (left right : Tree)

/-- What an operator makes of the operand behind it when it stands as a sign. -/
def Operator.modifier : Operator → Int
  | .subtract => -1
  | _ => 1

def signProduct (signs : List Operator) : Int := (signs.map Operator.modifier).prod

def Tree.value (negate : Float → Float) (combine : Operator → Float → Float → Float) :
    Tree → Float
  | .operand sign value => if sign < 0 then negate value else value
  | .node op left right => combine op (left.value negate combine) (right.value negate combine)

inductive Operator.HasLevel : Operator → Nat → Prop
  | power : HasLevel .power 0
  | multiply : HasLevel .multiply 1
  | divide : HasLevel .divide 1
  | add : HasLevel .add 2
  | subtract : HasLevel .subtract 2

/-- The tiers fire in the order of the levels. -/
theorem Operator.hasLevel_tier (op : Operator) : op.HasLevel op.tier := by
  cases op <;> constructor

theorem Operator.HasLevel.tier_eq {op : Operator} {n : Nat} (h : op.HasLevel n) : op.tier = n := by
  cases h <;> rfl

/-- `Reads n elements t`: the elements are numbers and operators with the tree `t`, whose operators,
signs apart, are of the first `n` levels. -/
inductive Reads : Nat → List Element → Tree → Prop
  | operand {signs : List Operator} (hs : AllSigns signs) (x : Float) :
      Reads 0 (signs.map .operator ++ [.number x]) (.operand (signProduct signs) x)
  | level {n : Nat} {elements : List Element} {t : Tree} (h : Reads n elements t) :
      Reads (n + 1) elements t
  | node {n : Nat} {op : Operator} {xs ys : List Element} {l r : Tree} (ho : op.HasLevel n)
      (hl : Reads (n + 1) xs l) (hr : Reads n ys r) :
      Reads (n + 1) (xs ++ .operator op :: ys) (.node op l r)

/-- Operators stay, and in the place of each operand stands the number that it comes to; the first
element stands at the index. -/
inductive Evaluates (env : Environment) (scope : Scope) : Nat → List Element → List Element → Prop
  | nil {i : Nat} : Evaluates env scope i [] []
  | operator {i : Nat} {rest numbers : List Element} (op : Operator)
      (h : Evaluates env scope (i + 1) rest numbers) :
      Evaluates env scope i (.operator op :: rest) (.operator op :: numbers)
  | operand {i : Nat} {e : Element} {x : Float} {rest numbers : List Element}
      (he : e.isOperand = true) (hx : (e.evaluate (env.inside i) scope).result = .ok x)
      (h : Evaluates env scope (i + 1) rest numbers) :
      Evaluates env scope i (e :: rest) (.number x :: numbers)

section Unambiguous

variable {n : Nat} {elements xs ys : List Element} {t u : Tree} {signs run : List Operator}
  {e : Element} {op : Operator}

/-- Behind an operand stands an operator of one of the first `n` tiers. -/
def GapsBelow (n : Nat) (elements : List Element) : Prop :=
  elements.IsChain fun e next =>
    e.isOperand = true → ∃ op : Operator, next = .operator op ∧ op.tier < n

theorem gapsBelow_signs (n : Nat) (signs : List Operator) (e : Element) :
    GapsBelow n (signs.map .operator ++ [e]) := by
  induction signs with
  | nil => exact List.isChain_singleton _
  | cons s signs ih =>
    cases signs with
    | nil => exact List.isChain_pair.2 (nomatch ·)
    | cons s' signs => exact List.isChain_cons_cons.2 ⟨(nomatch ·), ih⟩

theorem Reads.exists_last (h : Reads n elements t) :
    ∃ xs e, elements = xs ++ [e] ∧ e.isOperand = true := by
  induction h with
  | operand hs x => exact ⟨_, _, rfl, rfl⟩
  | level h ih => exact ih
  | node ho hl hr ihl ihr =>
    obtain ⟨xs, e, hx, he⟩ := ihr
    exact ⟨_ ++ _ :: xs, e, by rw [hx, List.append_assoc]; rfl, he⟩

theorem GapsBelow.mono {m : Nat} (h : GapsBelow n elements) (hm : n ≤ m) :
    GapsBelow m elements := by
  refine List.IsChain.imp (fun e next hn he => ?_) h
  obtain ⟨op, ho, ht⟩ := hn he
  exact ⟨op, ho, Nat.lt_of_lt_of_le ht hm⟩

theorem Reads.gapsBelow (h : Reads n elements t) : GapsBelow n elements := by
  induction h with
  | operand hs x => exact gapsBelow_signs _ _ _
  | level h ih => exact ih.mono (Nat.le_succ _)
  | @node n op xs ys l r ho hl hr ihl ihr =>
    have hg : GapsBelow (n + 1) (.operator op :: ys) := by
      cases ys with
      | nil => exact List.isChain_singleton _
      | cons y ys => exact List.isChain_cons_cons.2 ⟨(nomatch ·), ihr.mono (Nat.le_succ _)⟩
    refine List.isChain_append.2 ⟨ihl, hg, fun x hx y hy hxo => ?_⟩
    cases hy
    exact ⟨op, rfl, Nat.lt_succ_of_le ho.tier_eq.le⟩

/-- An operator behind an operand inside of a formula belongs to one of its tiers. -/
theorem Reads.tier_lt {zs : List Element} (h : Reads n elements t)
    (he : elements = xs ++ e :: .operator op :: zs) (ho : e.isOperand = true) : op.tier < n := by
  have hg := h.gapsBelow
  rw [he] at hg
  obtain ⟨op', hop, ht⟩ := (List.isChain_cons_cons.1 (List.isChain_append.1 hg).2.1).1 ho
  cases hop
  exact ht

/-- A formula cannot be split behind an operand of its right part, where the operators belong to
lower tiers. -/
theorem Reads.no_later_split {op' : Operator} {as zs : List Element}
    (hr : Reads op.tier ys r) (hl : Reads n (xs ++ as) l) (ht : op'.tier = op.tier)
    (hy : .operator op :: ys = as ++ .operator op' :: zs) : as = [] := by
  cases as with
  | nil => rfl
  | cons a as =>
    have ha : .operator op = a := (List.cons.inj hy).1
    have hys : ys = as ++ .operator op' :: zs := (List.cons.inj hy).2
    obtain ⟨bs, e, hb, he⟩ := hl.exists_last
    rcases List.eq_nil_or_concat as with has | ⟨cs, c, has⟩
    · rw [has] at hb
      have hea := (List.append_inj' hb rfl).2
      cases hea
      rw [← ha] at he
      cases he
    · rw [has, List.concat_eq_append, ← List.cons_append, ← List.append_assoc] at hb
      have hce := (List.append_inj' hb rfl).2
      cases hce
      rw [has, List.concat_eq_append, List.append_assoc] at hys
      have hlt := hr.tier_lt hys he
      omega

/-- The last operator of its tier is the only place where a formula is split. -/
theorem Reads.split_unique {op' : Operator} {xs' ys' : List Element} {l l' r r' : Tree}
    (hl : Reads (op.tier + 1) xs l) (hr : Reads op.tier ys r)
    (hl' : Reads (op'.tier + 1) xs' l') (hr' : Reads op'.tier ys' r')
    (ht : op'.tier = op.tier) (he : xs ++ .operator op :: ys = xs' ++ .operator op' :: ys') :
    xs = xs' ∧ op = op' ∧ ys = ys' := by
  rcases List.append_eq_append_iff.1 he with ⟨as, hx, hy⟩ | ⟨as, hx, hy⟩
  · rw [hx] at hl'
    have has := hr.no_later_split hl' ht hy
    rw [has] at hx hy
    cases hy
    exact ⟨by rw [hx, List.append_nil], rfl, rfl⟩
  · rw [hx] at hl
    have has := hr'.no_later_split hl ht.symm hy
    rw [has] at hx hy
    cases hy
    exact ⟨by rw [hx, List.append_nil], rfl, rfl⟩

theorem Reads.not_split {op : Operator} {xs ys : List Element} {l : Tree}
    (h : Reads op.tier (xs ++ .operator op :: ys) t) (hl : Reads n xs l) : False := by
  obtain ⟨zs, e, hz, he⟩ := hl.exists_last
  rw [hz, List.append_assoc] at h
  exact Nat.lt_irrefl _ (h.tier_lt rfl he)

theorem signs_unique {signs' : List Operator} {e' : Element}
    (h : signs.map Element.operator ++ [e] = signs'.map .operator ++ [e']) :
    signs = signs' ∧ e = e' := by
  obtain ⟨hs, he⟩ := List.append_inj' h rfl
  cases he
  exact ⟨List.map_injective_iff.2 (fun _ _ ho => Element.operator.inj ho) hs, rfl⟩

theorem Reads.unique (ht : Reads n elements t) (hu : Reads n elements u) : t = u := by
  induction ht generalizing u with
  | @operand signs hs x =>
    generalize hx : signs.map Element.operator ++ [.number x] = xs at hu
    cases hu with
    | operand hs' y =>
      obtain ⟨rfl, hxy⟩ := signs_unique hx
      cases hxy
      rfl
  | @level n elements t h ih =>
    generalize hm : n + 1 = m at hu
    cases hu with
    | operand => cases hm
    | level hu =>
      cases hm
      exact ih hu
    | node ho hl hr =>
      cases hm
      cases ho.tier_eq
      exact (h.not_split hl).elim
  | @node n op xs ys l r ho hl hr ihl ihr =>
    -- The other tree is split at the same operator, because none of its level stands behind it.
    cases ho.tier_eq
    generalize hm : op.tier + 1 = m at hu
    generalize hz : xs ++ Element.operator op :: ys = zs at hu
    cases hu with
    | operand => cases hm
    | level hu =>
      cases hm
      rw [← hz] at hu
      exact (hu.not_split hl).elim
    | node ho' hl' hr' =>
      cases ho'.tier_eq
      obtain ⟨hx, ho, hy⟩ := hl.split_unique hr hl' hr' (Nat.succ.inj hm).symm hz
      cases hx
      cases ho
      cases hy
      rw [ihl hl', ihr hr']

end Unambiguous

section Signs

theorem Sign.toInt_mul (a b : Sign) : (a.mul b).toInt = a.toInt * b.toInt := by
  cases a <;> cases b <;> rfl

theorem Operator.toInt_sign (op : Operator) : (op.sign?.getD .plus).toInt = op.modifier := by
  cases op <;> rfl

theorem toInt_runSign (run : List Operator) : (Operator.runSign run).toInt = signProduct run := by
  have hfold (s : Sign) : (run.foldl (fun s op => s.mul (op.sign?.getD .plus)) s).toInt =
      s.toInt * signProduct run := by
    induction run generalizing s with
    | nil => simp [signProduct]
    | cons op run ih =>
      rw [List.foldl_cons, ih, Sign.toInt_mul, Operator.toInt_sign, Int.mul_assoc]
      rfl
  rw [Operator.runSign, hfold]
  exact Int.one_mul _

theorem runSign_apply (negate : Float → Float) (run : List Operator) (value : Float) :
    (Operator.runSign run).apply negate value =
      if signProduct run < 0 then negate value else value := by
  rw [← toInt_runSign]
  cases Operator.runSign run <;> rfl

end Signs

section Value

variable (negate : Float → Float) (combine : Operator → Float → Float → Float)

/-- An operand of a partly reduced row stands for a part of the formula. -/
def Stands (n : Nat) (part : List Element) (x : Signed Float) : Prop :=
  ∃ t, Reads n part t ∧ x.resolve negate = t.value negate combine

/-- The operands behind the first one stand for the elements behind its part; no gap is left of the
first `n` tiers. -/
inductive Follows (n : Nat) : List Element → List (Operator × Signed Float) → Prop
  | nil : Follows n [] []
  | cons {op : Operator} {part rest : List Element} {y : Signed Float}
      {tail : List (Operator × Signed Float)} (ho : n ≤ op.tier)
      (hy : Stands negate combine n part y) (ht : Follows n rest tail) :
      Follows n (.operator op :: (part ++ rest)) ((op, y) :: tail)

def Spells (n : Nat) (elements : List Element)
    (row : Signed Float × List (Operator × Signed Float)) : Prop :=
  ∃ part rest, elements = part ++ rest ∧ Stands negate combine n part row.1 ∧
    Follows negate combine n rest row.2

variable {negate combine} {n : Nat} {part rest elements : List Element} {x y : Signed Float}
  {tail : List (Operator × Signed Float)} {op : Operator}

theorem Stands.level (h : Stands negate combine n part x) :
    Stands negate combine (n + 1) part x := by
  obtain ⟨t, ht, hx⟩ := h
  exact ⟨t, ht.level, hx⟩

theorem Stands.node {ys : List Element} (hx : Stands negate combine (op.tier + 1) part x)
    (hy : Stands negate combine op.tier ys y) :
    Stands negate combine (op.tier + 1) (part ++ .operator op :: ys)
      ⟨.plus, combine op (x.resolve negate) (y.resolve negate)⟩ := by
  obtain ⟨l, hl, hxl⟩ := hx
  obtain ⟨r, hr, hyr⟩ := hy
  refine ⟨.node op l r, .node op.hasLevel_tier hl hr, ?_⟩
  rw [hxl, hyr]
  rfl

/-- Firing a tier joins the parts of its operands and keeps the rest of the row. -/
theorem Follows.fire (h : Follows negate combine n rest tail)
    (hx : Stands negate combine (n + 1) part x) :
    Spells negate combine (n + 1) (part ++ rest) (fire negate combine n x tail) := by
  induction h generalizing part x with
  | nil => exact ⟨part, [], rfl, hx, .nil⟩
  | @cons op ys rest y tail ho hy ht ih =>
    by_cases hop : op.tier = n
    · subst hop
      have hj := ih (hx.node hy)
      simp only [Calculator.fire, ↓reduceIte]
      rw [List.append_assoc] at hj
      exact hj
    · obtain ⟨part', rest', he, hp, hf⟩ := ih hy.level
      simp only [Calculator.fire, hop, ↓reduceIte]
      rw [he]
      exact ⟨part, _, rfl, hx, .cons (by omega) hp hf⟩

theorem Spells.fire {row : Signed Float × List (Operator × Signed Float)}
    (h : Spells negate combine n elements row) :
    Spells negate combine (n + 1) elements (fire negate combine n row.1 row.2) := by
  obtain ⟨part, rest, he, hx, hf⟩ := h
  rw [he]
  exact hf.fire hx.level

/-- When all tiers have fired the row is a single operand, which stands for all elements. -/
theorem Spells.reads (h : Spells negate combine 3 elements (x, tail)) :
    tail = [] ∧ ∃ t, Reads 3 elements t ∧ x.resolve negate = t.value negate combine := by
  obtain ⟨part, rest, he, hx, hf⟩ := h
  cases hf with
  | nil =>
    rw [he, List.append_nil]
    exact ⟨rfl, hx⟩
  | @cons op _ _ _ _ ho =>
    have h2 := op.tier_le_two
    omega

/-- The reduction of a row gives the value of the tree that its elements read as. -/
theorem Spells.reduce (h : Spells negate combine 0 elements (x, tail)) :
    ∃ t, Reads 3 elements t ∧
      (Row.zip [] x tail).reduce negate combine = some (t.value negate combine) := by
  obtain ⟨hn, t, ht, hx⟩ := h.fire.fire.fire.reads
  exact ⟨t, ht, (Row.reduce_zip hn).trans (congrArg some hx)⟩

end Value

section Evaluation

variable {env : Environment} {scope : Scope} {elements numbers rest : List Element} {e : Element}
  {signs : List Operator} {i : Nat} {x : Float}

theorem evaluates_signs
    (h : Evaluates env scope i (signs.map .operator ++ e :: rest) numbers)
    (he : e.isOperand = true) :
    ∃ x more, numbers = signs.map .operator ++ .number x :: more ∧
      (e.evaluate (env.inside (i + signs.length)) scope).result = .ok x ∧
      Evaluates env scope (i + signs.length + 1) rest more := by
  induction signs generalizing i numbers with
  | nil =>
    cases h with
    | operator => cases he
    | operand _ hx h => exact ⟨_, _, rfl, hx, h⟩
  | cons s signs ih =>
    have hlength : i + 1 + signs.length = i + (s :: signs).length :=
      Nat.add_right_comm i 1 signs.length
    cases h with
    | operator _ h =>
      obtain ⟨x, more, rfl, hx, hmore⟩ := ih h
      rw [hlength] at hx hmore
      exact ⟨x, more, rfl, hx, hmore⟩
    | operand ho => cases ho

theorem stands_number {negate : Float → Float} {combine : Operator → Float → Float → Float}
    (hs : AllSigns signs) (x : Float) :
    Stands negate combine 0 (signs.map .operator ++ [.number x]) ⟨Operator.runSign signs, x⟩ :=
  ⟨_, .operand hs x, runSign_apply negate signs x⟩

theorem Terms.row (h : Terms rest) (hv : Evaluates env scope i rest numbers) :
    ∃ tail : List (Operator × Signed Float),
      (nextOperands env scope i [] rest).result =
        .ok ⟨tail.map (·.2.value), tail.map (·.2.sign), tail.map (·.1)⟩ ∧
      ∀ negate combine, Follows negate combine 0 numbers tail := by
  induction h generalizing i numbers with
  | nil =>
    cases hv
    exact ⟨[], rfl, fun _ _ => .nil⟩
  | @cons signs e rest op hs he ht ih =>
    cases hv with
    | operand ho => cases ho
    | operator _ hv =>
      obtain ⟨x, more, rfl, hx, hmore⟩ := evaluates_signs hv he
      obtain ⟨tail, hr, hf⟩ := ih hmore
      refine ⟨(op, ⟨Operator.runSign signs, x⟩) :: tail, ?_, fun negate combine => ?_⟩
      · rw [nextOperands_term env scope hs he, Run.bind_ok hx, Run.bind_ok hr]
        rfl
      · have hf' := Follows.cons (Nat.zero_le op.tier) (stands_number hs x) (hf negate combine)
        rw [List.append_assoc] at hf'
        exact hf'

theorem Plain.row (h : Plain elements) (hv : Evaluates env scope 0 elements numbers) :
    ∃ x tail, (firstOperand env scope 0 [] elements).result = .ok (Row.zip [] x tail) ∧
      ∀ negate combine, Spells negate combine 0 numbers (x, tail) := by
  cases h with
  | @mk signs e rest hs he ht =>
    obtain ⟨x, more, rfl, hx, hmore⟩ := evaluates_signs hv he
    obtain ⟨tail, hr, hf⟩ := ht.row hmore
    refine ⟨⟨Operator.runSign signs, x⟩, tail, ?_, fun negate combine => ?_⟩
    · rw [firstOperand_plain env scope hs he, Run.bind_ok hx, Run.bind_ok hr]
      rfl
    · have hl : signs.map Element.operator ++ .number x :: more =
          signs.map .operator ++ [.number x] ++ more := by
        rw [List.append_assoc]
        rfl
      exact ⟨_, more, hl, stands_number hs x, hf negate combine⟩

/-- A sequence that keeps the rules of adjacency, has no bare group and whose operands come to
numbers evaluates to the value of the only tree of these, whatever the operators compute. Until then
the row has one value and one sign more than gaps, each turn of a scan succeeds and leaves fewer
gaps to look at, and the last scan leaves one value and no gap. -/
theorem evaluateElements_reads (hv : findViolation elements = none) (hb : NoBareGroup elements)
    (he : Evaluates env scope 0 elements numbers) :
    ∃ row t, (firstOperand env scope 0 [] elements).result = .ok row ∧
      (∀ u, Reads 3 numbers u ↔ u = t) ∧
      (evaluateElements env scope elements).result = .ok (t.value Float.neg Operator.combine) ∧
      ∀ (negate : Float → Float) (combine : Operator → Float → Float → Float),
        row.reduce negate combine = some (t.value negate combine) ∧
        ∀ tier s, Reached negate combine row tier s →
          s.row.values.length = s.row.gaps.length + 1 ∧
          s.row.signs.length = s.row.gaps.length + 1 ∧
          (∀ op, s.row.gaps[s.index]? = some op → ∃ next,
            s.turn negate combine tier op = some next ∧ next.remaining < s.remaining) ∧
          (tier = 2 → s.row.gaps[s.index]? = none →
            s.row.values.length = 1 ∧ s.row.gaps = []) := by
  obtain ⟨x, tail, hr, hs⟩ := (Plain.of_findViolation hv hb).row he
  obtain ⟨t, ht, hred⟩ := (hs Float.neg Operator.combine).reduce
  refine ⟨_, t, hr, fun u => ⟨fun hu => hu.unique ht, fun hu => hu ▸ ht⟩, ?_, ?_⟩
  · rw [evaluateElements, Run.bind_ok hr, Row.value, hred]
    rfl
  · intro negate combine
    obtain ⟨u, hu, hred'⟩ := (hs negate combine).reduce
    cases hu.unique ht
    refine ⟨hred', fun tier s hreach => ?_⟩
    have ho := hreach.orderly (Row.zip_balanced x tail)
    refine ⟨ho.balanced.1, ho.balanced.2, fun op hg => ?_, fun htier hg => ?_⟩
    · obtain ⟨next, hn⟩ := ho.turn_isSome negate combine hg
      have hrem := Scan.turn_remaining negate combine hg hn
      exact ⟨next, hn, by omega⟩
    · subst htier
      exact (ho.single hg).symm

/-- The elements of `-1 - 2 * -+3 ^ 2 ^ -4 / 5`. -/
def signsAndTiers : List Element :=
  [.operator .subtract, .number 1, .operator .subtract, .number 2, .operator .multiply,
    .operator .subtract, .operator .add, .number 3, .operator .power, .number 2, .operator .power,
    .operator .subtract, .number 4, .operator .divide, .number 5]

/-- The powers come first although they stand behind a difference and a product; they associate to
the left, and a sign belongs to the operand behind it only. -/
def signsAndTiersTree : Tree :=
  .node .subtract (.operand (-1) 1)
    (.node .divide
      (.node .multiply (.operand 1 2)
        (.node .power (.node .power (.operand (-1) 3) (.operand 1 2)) (.operand (-1) 4)))
      (.operand 1 5))

theorem reads_signsAndTiers : Reads 3 signsAndTiers signsAndTiersTree := by
  have plain (x : Float) : Reads 0 [.number x] (.operand 1 x) := .operand .nil x
  have minus (x : Float) : Reads 0 [.operator .subtract, .number x] (.operand (-1) x) :=
    .operand (AllSigns.nil.cons rfl) x
  have three : Reads 0 [.operator .subtract, .operator .add, .number 3] (.operand (-1) 3) :=
    @Reads.operand [.subtract, .add] ((AllSigns.nil.cons rfl).cons rfl) 3
  have powers : Reads 1 _ (.node .power (.node .power _ _) _) :=
    .node .power (.node .power three.level (plain 2)) (minus 4)
  have product : Reads 2 _ (.node .multiply _ _) :=
    .node .multiply (plain 2).level.level powers
  have quotient : Reads 2 _ (.node .divide _ _) := .node .divide product (plain 5).level
  exact .node .subtract (minus 1).level.level.level quotient

/-- Numbers come to themselves. -/
theorem evaluates_numbers (h : ∀ e ∈ elements, (∃ op, e = .operator op) ∨ ∃ x, e = .number x) :
    Evaluates env scope i elements elements := by
  induction elements generalizing i with
  | nil => exact .nil
  | cons e rest ih =>
    obtain ⟨he, hrest⟩ := List.forall_mem_cons.1 h
    rcases he with ⟨op, rfl⟩ | ⟨x, rfl⟩
    · exact .operator op (ih hrest)
    · exact .operand rfl (by rw [Element.evaluate]; rfl) (ih hrest)

theorem evaluateElements_signsAndTiers :
    findViolation signsAndTiers = none ∧ NoBareGroup signsAndTiers ∧
      Evaluates .empty ⟨0, 0⟩ 0 signsAndTiers signsAndTiers ∧
      (∀ u, Reads 3 signsAndTiers u ↔ u = signsAndTiersTree) ∧
      (evaluateElements .empty ⟨0, 0⟩ signsAndTiers).result =
        .ok (signsAndTiersTree.value Float.neg Operator.combine) := by
  have hv : findViolation signsAndTiers = none := rfl
  have hb : NoBareGroup signsAndTiers := by
    simp [NoBareGroup, signsAndTiers, Element.kind]
  have he : Evaluates .empty ⟨0, 0⟩ 0 signsAndTiers signsAndTiers :=
    evaluates_numbers (by simp [signsAndTiers])
  obtain ⟨row, t, _, hu, hr, _⟩ := evaluateElements_reads hv hb he
  cases (hu signsAndTiersTree).1 reads_signsAndTiers
  exact ⟨hv, hb, he, hu, hr⟩

end Evaluation

end Calculator
