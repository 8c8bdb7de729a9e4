import Calculator.Proofs.Grammar
/-!
What the grammar derives is read. From a frame that waits for an operand the tokens of a formula
lead to the frame with the elements of the formula (`FormulaOf.runs`), a name at its end being held
back, and the frames below stay as they are.
-/
namespace Calculator

variable {scope : Scope} {bare : Bool} {f : Frame} {below : List Frame} {r r' : Reading}
  {t : Token} {ts us : List Token} {e last : Element} {op : Operator} {elements : List Element}
  {fs : List Formula}

section Commas

theorem splitAtCommas_cons (he : e.kind ≠ .comma) :
    splitAtCommas (e :: elements) =
      match splitAtCommas elements with
      | part :: parts => (e :: part) :: parts
      | [] => [[e]] := by
  cases e <;> first | rfl | exact absurd rfl he

theorem splitAtCommas_eq_cons (elements : List Element) :
    ∃ part parts, splitAtCommas elements = part :: parts := by
  cases elements with
  | nil => exact ⟨[], [], rfl⟩
  | cons e elements =>
    by_cases he : e.kind = .comma
    · cases e with
      | comma => exact ⟨[], splitAtCommas elements, rfl⟩
      | _ => cases he
    · rw [splitAtCommas_cons he]
      split
      · next part parts _ => exact ⟨e :: part, parts, rfl⟩
      · exact ⟨[e], [], rfl⟩

theorem splitAtCommas_append (xs ys : List Element) :
    splitAtCommas (xs ++ .comma :: ys) = splitAtCommas xs ++ splitAtCommas ys := by
  induction xs with
  | nil => rfl
  | cons e xs ih =>
    by_cases he : e.kind = .comma
    · cases e with
      | comma => simp only [List.cons_append, splitAtCommas, ih]
      | _ => cases he
    · obtain ⟨part, parts, hp⟩ := splitAtCommas_eq_cons xs
      rw [List.cons_append, splitAtCommas_cons he, splitAtCommas_cons he, ih, hp]
      rfl

theorem splitAtCommas_of_ne (h : ∀ e ∈ elements, e.kind ≠ .comma) :
    splitAtCommas elements = [elements] := by
  induction elements with
  | nil => rfl
  | cons e elements ih =>
    rw [splitAtCommas_cons (h e List.mem_cons_self),
      ih fun e' hm => h e' (List.mem_cons_of_mem e hm)]

end Commas

namespace Frame

def extend (f : Frame) (elements : List Element) : Frame :=
  { f with elements := f.elements ++ elements }

theorem extend_nil (f : Frame) : f.extend [] = f := by
  simp [extend]

theorem extend_extend (f : Frame) (xs ys : List Element) :
    (f.extend xs).extend ys = f.extend (xs ++ ys) := by
  simp [extend]

theorem last?_extend_concat (f : Frame) (xs : List Element) (e : Element) :
    (f.extend (xs ++ [e])).last? = some e := by
  simp [last?, extend]

/-- An operand or a sign may come next: the frame is empty or ends with an operator or a comma. -/
def Awaits (f : Frame) : Prop :=
  ∀ last ∈ f.last?, last.kind = .operator ∨ last.kind = .comma

theorem Awaits.empty (position : Nat) (callee : Option String) :
    (⟨position, callee, []⟩ : Frame).Awaits := by
  intro last hl
  cases hl

theorem Awaits.of_last? (hl : f.last? = some last)
    (hk : last.kind = .operator ∨ last.kind = .comma) : f.Awaits := by
  intro last' hl'
  rw [hl] at hl'
  cases hl'
  exact hk

theorem Awaits.check (h : f.Awaits) (he : e.canStart = true) : f.check e t = .ok () := by
  rw [Frame.check]
  cases hl : f.last? with
  | none => simp only [he, ↓reduceIte]
  | some last => simp only [allows_of_canStart (h last hl) he, ↓reduceIte]

theorem Awaits.beforeGroup (h : f.Awaits) : f.beforeGroup = f := by
  rw [Frame.beforeGroup]
  cases hl : f.last? with
  | none => rfl
  | some last =>
    have ho : last.isOperand = false := by
      rcases h last hl with hk | hk <;> cases last <;> first | rfl | cases hk
    simp only [ho, Bool.false_eq_true, ↓reduceIte]

theorem check_of_last? (hl : f.last? = some last) (ha : last.allows e = true) :
    f.check e t = .ok () := by
  simp only [Frame.check, hl, ha, ↓reduceIte]

theorem push_eq (h : f.check e t = .ok ()) : f.push e t = .ok (f.extend [e]) := by
  rw [Frame.push, h]
  rfl

theorem checkComplete_of_last? (hl : f.last? = some last) (ho : last.isOperand = true)
    (position : Nat) : f.checkComplete position = .ok () := by
  simp only [Frame.checkComplete, hl, Element.isComplete, ho, ↓reduceIte]

end Frame

namespace Reading

/-- The reading has come to the frame `f` on top of `below`, up to a name that is held back and that
only a variable without a bare group behind it can be. -/
structure At (r : Reading) (bare : Bool) (f : Frame) (below : List Frame) : Prop where
  release (t : Token) (ht : t.kind ≠ .number) : r.release t = .ok ⟨f, below, none⟩
  bare (hb : bare = true) : r = ⟨f, below, none⟩

theorem At.weaken (h : r.At bare f below) : r.At false f below where
  release := h.release
  bare hb := nomatch hb

theorem At.refl : At ⟨f, below, none⟩ bare f below where
  release _ _ := rfl
  bare _ := rfl

/-- A token that is no name, no number and no opening parenthesis releases a name. -/
theorem At.step (h : r.At bare f below) (hi : t.kind ≠ .identifier) (ho : t.kind ≠ .opening)
    (hn : t.kind ≠ .number) : r.step scope t = Reading.plain ⟨f, below, none⟩ scope t := by
  have hs : r.step scope t = (do (← r.release t).plain scope t) := by
    rw [Reading.step.eq_def]
    split
    · next hk => exact absurd hk hi
    · next hk => exact absurd hk ho
    · rfl
  rw [hs, h.release t hn]
  rfl

theorem At.step_operator (h : r.At bare f below) (ht : t.IsOperator op)
    (hc : f.check (.operator op) t = .ok ()) :
    r.step scope t = .ok ⟨f.extend [.operator op], below, none⟩ := by
  have hk := ht.1
  rw [h.step (by simp [hk]) (by simp [hk]) (by simp [hk])]
  simp only [Reading.plain, hk, Reading.operator, ht.ofLexeme?]
  change (do let top ← f.push (.operator op) t; _) = _
  rw [Frame.push_eq hc]
  rfl

theorem At.step_comma (h : r.At bare f below) (ht : t.kind = .comma) (hf : f.callee.isSome = true)
    (hl : f.last? = some last) (ho : last.isOperand = true) :
    r.step scope t = .ok ⟨f.extend [.comma], below, none⟩ := by
  have hc : f.check .comma t = .ok () :=
    Frame.check_of_last? hl (allows_behind_operand ho (.inr rfl))
  have hn : f.callee.isNone = false := by cases hf' : f.callee <;> simp_all
  rw [h.step (by simp [ht]) (by simp [ht]) (by simp [ht])]
  simp only [Reading.plain, ht, hn, Bool.false_eq_true, ↓reduceIte]
  change (do let top ← f.push .comma t; _) = _
  rw [Frame.push_eq hc]
  rfl

theorem At.step_closing {inner : Frame} (h : r.At bare inner (f :: below)) (ht : t.kind = .closing)
    (hc : inner.close scope t = .ok e) : r.step scope t = .ok ⟨f.extend [e], below, none⟩ := by
  rw [h.step (by simp [ht]) (by simp [ht]) (by simp [ht])]
  simp only [Reading.plain, ht, Reading.closing, hc]
  rfl

theorem step_number {x : Float} (hf : f.Awaits) (ht : t.kind = .number)
    (hx : Decimal.readChars? t.lexeme = some x) :
    Reading.step scope ⟨f, below, none⟩ t = .ok ⟨f.extend [.number x], below, none⟩ := by
  simp only [Reading.step, ht, Reading.release]
  change Reading.plain ⟨f, below, none⟩ scope t = _
  simp only [Reading.plain, ht, Reading.number, hx]
  change (do let top ← f.push (.number x) t; _) = _
  rw [Frame.push_eq (hf.check rfl)]
  rfl

theorem step_identifier (ht : t.kind = .identifier) :
    Reading.step scope ⟨f, below, none⟩ t = .ok ⟨f, below, some t⟩ := by
  simp only [Reading.step, ht]
  rfl

theorem At.held (hf : f.Awaits) :
    At ⟨f, below, some t⟩ false (f.extend [.variable t.text]) below where
  release next hn := by
    have hp : f.push (.variable t.text) t = .ok (f.extend [.variable t.text]) :=
      Frame.push_eq (hf.check rfl)
    simp only [Reading.release, hn, ↓reduceIte, hp]
    rfl
  bare hb := nomatch hb

theorem step_call {name : Token} (hf : f.Awaits) (ht : t.kind = .opening) :
    Reading.step scope ⟨f, below, some name⟩ t =
      .ok ⟨⟨t.position, some name.text, []⟩, f :: below, none⟩ := by
  simp only [Reading.step, ht, Reading.opening, hf.check (e := .callOf name.text []) rfl]
  rfl

theorem step_group (hf : f.Awaits) (ht : t.kind = .opening) :
    Reading.step scope ⟨f, below, none⟩ t =
      .ok ⟨⟨t.position, none, []⟩, f :: below, none⟩ := by
  simp only [Reading.step, ht, Reading.opening, hf.check (e := .group (.mk scope [])) rfl,
    hf.beforeGroup]
  rfl

/-- A bare group is read as if a multiplication stood in front of it. -/
theorem step_bareGroup (hl : f.last? = some last) (hk : last.kind = .number ∨ last.kind = .group)
    (ht : t.kind = .opening) :
    Reading.step scope ⟨f, below, none⟩ t =
      Reading.step scope ⟨f.extend [.operator .multiply], below, none⟩ t := by
  have ha : last.allows (.group (.mk scope [])) = true := by
    rcases hk with hk | hk <;> cases last <;>
      simp_all [Element.allows, Element.kind, Kind.successors]
  have ho : last.isOperand = true := by
    rcases hk with hk | hk <;> cases last <;> simp_all [Element.isOperand, Element.kind]
  have hf : (f.extend [.operator .multiply]).Awaits :=
    .of_last? (f.last?_extend_concat [] (.operator .multiply)) (.inl rfl)
  rw [step_group hf ht]
  simp only [Reading.step, ht, Reading.opening, Frame.check_of_last? hl ha, Frame.beforeGroup, hl,
    ho, ↓reduceIte]
  rfl

end Reading

section Runs

theorem foldlM_append_ok (h : ts.foldlM (Reading.step scope) r = .ok r') :
    (ts ++ us).foldlM (Reading.step scope) r = us.foldlM (Reading.step scope) r' := by
  rw [List.foldlM_append, h]
  rfl

theorem foldlM_cons_ok (h : r.step scope t = .ok r') :
    (t :: ts).foldlM (Reading.step scope) r = ts.foldlM (Reading.step scope) r' := by
  rw [List.foldlM_cons, h]
  rfl

theorem SignRun.run {run : List Operator} (h : SignRun ts run) (scope : Scope)
    (below : List Frame) (hf : f.Awaits) :
    ts.foldlM (Reading.step scope) ⟨f, below, none⟩ =
        .ok ⟨f.extend (run.map .operator), below, none⟩ ∧
      (f.extend (run.map .operator)).Awaits := by
  induction h with
  | nil => exact ⟨by simp [Frame.extend_nil, pure, Except.pure], by rwa [List.map_nil, f.extend_nil]⟩
  | @snoc ts run t op h ht hs ih =>
    obtain ⟨hrun, ha⟩ := ih
    have hat : Reading.At ⟨f.extend (run.map .operator), below, none⟩ true _ below := .refl
    have hstep : Reading.step scope _ t = _ :=
      hat.step_operator ht (ha.check (Operator.isSign_iff.2 hs))
    rw [foldlM_append_ok hrun, foldlM_cons_ok hstep, Frame.extend_extend, List.map_append]
    exact ⟨rfl, .of_last? (f.last?_extend_concat _ (.operator op)) (.inl rfl)⟩

/-- The tokens lead from a frame that waits for an operand to the frame with the elements. -/
def Runs (scope : Scope) (bare : Bool) (ts : List Token) (elements : List Element) : Prop :=
  ∀ (f : Frame) (below : List Frame), f.Awaits →
    ∃ r, ts.foldlM (Reading.step scope) ⟨f, below, none⟩ = .ok r ∧
      r.At bare (f.extend elements) below

/-- The operands of a derivation, of which it is already known that they are read. -/
def ReadOperand (scope : Scope) (bare : Bool) (us : List Token) (e : Element) : Prop :=
  IsOperand scope bare us e ∧ Runs scope bare us [e]

theorem ReadOperand.formula (h : FormulaOf (ReadOperand scope) bare ts elements) :
    IsFormula scope bare ts elements := h.imp fun _ _ _ ho => ho.1

theorem FormulaOf.runs_of (h : FormulaOf (ReadOperand scope) bare ts elements) :
    Runs scope bare ts elements := by
  induction h with
  | @start bare ss us signs e hs hu =>
    intro f below hf
    obtain ⟨hrun, ha⟩ := hs.run scope below hf
    obtain ⟨r, hr, hat⟩ := hu.2 _ below ha
    rw [Frame.extend_extend] at hat
    exact ⟨r, by rw [foldlM_append_ok hrun, hr], hat⟩
  | @term before bare ts ss us t op signs elements e h ht hs hu ih =>
    intro f below hf
    obtain ⟨r, hr, hat⟩ := ih f below hf
    obtain ⟨xs, last, rfl, ho, _⟩ := (ReadOperand.formula h).exists_last
    have hstep : r.step scope t = _ := hat.step_operator ht
      (Frame.check_of_last? (f.last?_extend_concat xs last) (allows_behind_operand ho (.inl rfl)))
    rw [Frame.extend_extend] at hstep
    obtain ⟨hrun, ha⟩ := hs.run scope below
      (.of_last? (f.last?_extend_concat _ (.operator op)) (.inl rfl))
    obtain ⟨r', hr', hat'⟩ := hu.2 _ below ha
    rw [Frame.extend_extend, Frame.extend_extend, List.append_assoc, List.append_assoc] at hat'
    refine ⟨r', ?_, by rw [List.append_assoc]; exact hat'⟩
    rw [foldlM_append_ok hr, foldlM_cons_ok hstep, foldlM_append_ok hrun, hr']
  | @product bare ts us elements inner h hg ih =>
    intro f below hf
    obtain ⟨r, hr, hat⟩ := ih f below hf
    obtain ⟨xs, last, rfl, _, hb⟩ := (ReadOperand.formula h).exists_last
    rw [hat.bare rfl] at hr
    obtain ⟨o, vs, rfl, ho⟩ := hg.1.exists_opening
    have hbare : Reading.step scope ⟨f.extend (xs ++ [last]), below, none⟩ o = _ :=
      Reading.step_bareGroup (f.last?_extend_concat xs last) (hb.1 rfl) ho
    obtain ⟨r', hr', hat'⟩ := hg.2 ((f.extend (xs ++ [last])).extend [.operator .multiply]) below
      (.of_last? (Frame.last?_extend_concat _ [] _) (.inl rfl))
    rw [Frame.extend_extend, Frame.extend_extend, List.append_assoc] at hat'
    refine ⟨r', ?_, by rw [List.append_assoc]; exact hat'⟩
    rw [foldlM_append_ok hr, List.foldlM_cons, hbare, ← List.foldlM_cons, hr']

theorem ArgumentsOf.isEmpty (h : ArgumentsOf scope (ReadOperand scope) us fs) :
    ∀ f ∈ fs, f.isEmpty = false := by
  have hne {bare : Bool} {us : List Token} {elements : List Element}
      (h : FormulaOf (ReadOperand scope) bare us elements) :
      (Formula.mk scope elements).isEmpty = false := by
    obtain ⟨xs, last, rfl, _⟩ := (ReadOperand.formula h).exists_last
    simp [Formula.isEmpty, Formula.elements]
  induction h with
  | one h =>
    intro f hm
    rw [List.mem_singleton.1 hm, hne h]
  | more hf ht h ih =>
    intro f hm
    rcases List.mem_append.1 hm with hm | hm
    · exact ih f hm
    · rw [List.mem_singleton.1 hm, hne h]

/-- The parts of an argument list are read into one frame, from which they are taken apart again. -/
theorem ArgumentsOf.runs_of (h : ArgumentsOf scope (ReadOperand scope) us fs)
    (below : List Frame) (hf : f.Awaits) (hc : f.callee.isSome = true) :
    ∃ r xs last, us.foldlM (Reading.step scope) ⟨f, below, none⟩ = .ok r ∧
      r.At false (f.extend (xs ++ [last])) below ∧ last.isOperand = true ∧
      (splitAtCommas (xs ++ [last])).map (.mk scope) = fs := by
  induction h with
  | one h =>
    obtain ⟨r, hr, hat⟩ := h.runs_of f below hf
    have hplain := (ReadOperand.formula h).plain
    obtain ⟨xs, last, rfl, ho, _⟩ := (ReadOperand.formula h).exists_last
    exact ⟨r, xs, last, hr, hat.weaken, ho, by rw [splitAtCommas_of_ne hplain.kind_ne_comma]; rfl⟩
  | @more bare us vs t elements fs _ ht h ih =>
    -- The frame keeps all parts with commas between them; they are only split when it is closed.
    obtain ⟨r, xs, last, hr, hat, ho, hs⟩ := ih
    have hstep : r.step scope t = _ := hat.step_comma ht hc (f.last?_extend_concat xs last) ho
    rw [Frame.extend_extend] at hstep
    obtain ⟨r', hr', hat'⟩ := h.runs_of (f.extend (xs ++ [last] ++ [.comma])) below
      (.of_last? (f.last?_extend_concat _ .comma) (.inr rfl))
    have hplain := (ReadOperand.formula h).plain
    obtain ⟨ys, last', rfl, ho', _⟩ := (ReadOperand.formula h).exists_last
    refine ⟨r', xs ++ last :: .comma :: ys, last', ?_, ?_, ho', ?_⟩
    · rw [foldlM_append_ok hr, foldlM_cons_ok hstep, hr']
    · rw [Frame.extend_extend] at hat'
      simpa using hat'.weaken
    · have hsplit := splitAtCommas_append (xs ++ [last]) (ys ++ [last'])
      rw [splitAtCommas_of_ne hplain.kind_ne_comma] at hsplit
      rw [← hs, ← List.map_singleton, ← List.map_append, ← hsplit]
      simp

theorem Frame.close_group (scope : Scope) (t : Token) (xs : List Element) (position : Nat)
    (ho : last.isOperand = true) :
    ((⟨position, none, []⟩ : Frame).extend (xs ++ [last])).close scope t =
      .ok (.group (.mk scope (xs ++ [last]))) := by
  rw [Frame.close, Frame.checkComplete_of_last? (Frame.last?_extend_concat _ xs last) ho]
  simp [Frame.extend]
  rfl

theorem Frame.close_call (scope : Scope) (t : Token) (name : String) (xs : List Element)
    (position : Nat) (ho : last.isOperand = true) :
    ((⟨position, some name, []⟩ : Frame).extend (xs ++ [last])).close scope t =
      .ok (.callOf name ((splitAtCommas (xs ++ [last])).map (.mk scope))) := by
  rw [Frame.close, Frame.checkComplete_of_last? (Frame.last?_extend_concat _ xs last) ho]
  rfl

theorem callOf_of_isEmpty {name : String} (h : ∀ f ∈ fs, f.isEmpty = false) :
    Element.callOf name fs = .call name fs := by
  rw [Element.callOf, List.filter_eq_self.2 (by simpa using h)]

theorem IsOperand.runs (h : IsOperand scope bare us e) : Runs scope bare us [e] := by
  refine IsOperand.induct (motive := fun bare us e => Runs scope bare us [e]) ?_ ?_ ?_ ?_ ?_ h
  · intro t x ht hx f below hf
    exact ⟨_, by rw [foldlM_cons_ok (Reading.step_number hf ht hx)]; rfl, .refl⟩
  · intro t ht f below hf
    exact ⟨_, by rw [foldlM_cons_ok (Reading.step_identifier ht)]; rfl, .held hf⟩
  · intro t o c ht ho hc f below hf
    have hclose : (⟨o.position, some t.text, []⟩ : Frame).close scope c = .ok (.call t.text []) := rfl
    have hat : Reading.At ⟨⟨o.position, some t.text, []⟩, f :: below, none⟩ true _ (f :: below) :=
      .refl
    have hstep := hat.step_closing hc hclose
    refine ⟨_, ?_, .refl⟩
    rw [foldlM_cons_ok (Reading.step_identifier ht), foldlM_cons_ok (Reading.step_call hf ho),
      foldlM_cons_ok hstep]
    rfl
  · intro t o c us fs ht ho h hc f below hf
    obtain ⟨r, xs, last, hr, hat, hl, hs⟩ :=
      h.runs_of (f :: below) (Frame.Awaits.empty o.position (some t.text)) rfl
    have hclose := Frame.close_call scope c t.text xs o.position hl
    rw [hs, callOf_of_isEmpty h.isEmpty] at hclose
    have hstep := hat.step_closing hc hclose
    refine ⟨_, ?_, .refl⟩
    rw [foldlM_cons_ok (Reading.step_identifier ht), foldlM_cons_ok (Reading.step_call hf ho),
      foldlM_append_ok hr, foldlM_cons_ok hstep]
    rfl
  · intro bare o c us elements ho h hc f below hf
    obtain ⟨r, hr, hat⟩ := h.runs_of ⟨o.position, none, []⟩ (f :: below) (.empty _ _)
    obtain ⟨xs, last, rfl, hl, _⟩ := (ReadOperand.formula h).exists_last
    have hstep := hat.step_closing hc (Frame.close_group scope c xs o.position hl)
    refine ⟨_, ?_, .refl⟩
    rw [foldlM_cons_ok (Reading.step_group hf ho), foldlM_append_ok hr, foldlM_cons_ok hstep]
    rfl

theorem FormulaOf.runs (h : IsFormula scope bare ts elements) : Runs scope bare ts elements :=
  FormulaOf.runs_of (h.imp fun _ _ _ ho => ⟨ho, ho.runs⟩)

end Runs

end Calculator
