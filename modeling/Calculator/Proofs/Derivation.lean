import Calculator.Proofs.Acceptance
/-!
What is read is derived. `Frames` says which part of a derivation the frames hold after some tokens;
every step of the reading keeps it (`HasRead.step`), and a reading that ends has a formula.
-/
namespace Calculator

variable {scope : Scope} {bare : Bool} {f top outer : Frame} {below : List Frame}
  {r r' : Reading} {t o n : Token} {ts us vs ss tokens : List Token} {e last : Element}
  {op : Operator} {xs ys elements : List Element} {callee : Option String}

/-- The beginning of a formula that ends with signs or with a binary operator and signs. -/
inductive Waiting (scope : Scope) : List Token → List Element → Prop
  | start {ss : List Token} {signs : List Operator} (hs : SignRun ss signs) :
      Waiting scope ss (signs.map .operator)
  | term {bare : Bool} {ts ss : List Token} {t : Token} {op : Operator} {signs : List Operator}
      {elements : List Element} (h : IsFormula scope bare ts elements) (ht : t.IsOperator op)
      (hs : SignRun ss signs) :
      Waiting scope (ts ++ t :: ss) (elements ++ .operator op :: signs.map .operator)

theorem Waiting.sign (h : Waiting scope ts elements) (ht : t.IsOperator op)
    (hs : op.isSign = true) : Waiting scope (ts ++ [t]) (elements ++ [.operator op]) := by
  cases h with
  | start hr =>
    rw [show [Element.operator op] = [op].map .operator from rfl, ← List.map_append]
    exact .start (hr.snoc ht (Operator.isSign_iff.1 hs))
  | term h ht' hr =>
    have hw := Waiting.term h ht' (hr.snoc ht (Operator.isSign_iff.1 hs))
    simpa using hw

theorem Waiting.operand (h : Waiting scope ts elements) (hu : IsOperand scope bare us e) :
    IsFormula scope bare (ts ++ us) (elements ++ [e]) := by
  cases h with
  | start hs => exact .start hs hu
  | term h ht hs =>
    have hf := FormulaOf.term h ht hs hu
    simpa using hf

theorem Waiting.kind_of_last (h : Waiting scope ts elements) :
    ∀ last ∈ elements.getLast?, last.kind = .operator := by
  have hmap (run : List Operator) (e : Element) (he : e ∈ run.map Element.operator) :
      e.kind = .operator := by
    obtain ⟨op, _, rfl⟩ := List.mem_map.1 he
    rfl
  intro last hl
  cases h with
  | start hs => exact hmap _ last (List.mem_of_getLast? hl)
  | @term bare ts ss t op signs elements h ht hs =>
    rw [← List.map_cons, List.getLast?_append_of_ne_nil _ (by simp)] at hl
    exact hmap _ last (List.mem_of_getLast? hl)

theorem SignRun.eq_nil (h : SignRun ts []) : ts = [] := by
  generalize hr : ([] : List Operator) = run at h
  cases h with
  | nil => rfl
  | snoc => simp at hr

theorem Waiting.eq_nil (h : Waiting scope ts []) : ts = [] := by
  generalize he : ([] : List Element) = elements at h
  cases h with
  | start hs =>
    rw [List.map_eq_nil_iff.1 he.symm] at hs
    exact hs.eq_nil
  | term => simp at he

/-- The arguments in front of the last one, each with its comma; a group has none. -/
inductive Leading (scope : Scope) : Option String → List Token → List Element → Prop
  | nil {callee : Option String} : Leading scope callee [] []
  | parts {name : String} {us : List Token} {t : Token} {xs : List Element} {fs : List Formula}
      (h : IsArguments scope us fs) (hs : (splitAtCommas xs).map (.mk scope) = fs)
      (ht : t.kind = .comma) : Leading scope (some name) (us ++ [t]) (xs ++ [.comma])

/-- The part of a formula in front of an operand that is still open, and its opening tokens. -/
inductive Opens (scope : Scope) : Option String → List Token → List Element → Prop
  | group {ts : List Token} {o : Token} {elements : List Element}
      (h : Waiting scope ts elements) (ho : o.kind = .opening) :
      Opens scope none (ts ++ [o]) elements
  | product {ts : List Token} {o : Token} {elements : List Element}
      (h : IsFormula scope true ts elements) (ho : o.kind = .opening) :
      Opens scope none (ts ++ [o]) (elements ++ [.operator .multiply])
  | call {ts : List Token} {n o : Token} {elements : List Element} (h : Waiting scope ts elements)
      (hn : n.kind = .identifier) (ho : o.kind = .opening) :
      Opens scope (some n.text) (ts ++ [n, o]) elements

/-- The tokens of the frames below a frame with the given name in front of it. -/
inductive Below (scope : Scope) : Option String → List Frame → List Token → Prop
  | nil : Below scope none [] []
  | cons {callee : Option String} {f : Frame} {below : List Frame} {ts us vs : List Token}
      {xs ys : List Element} (hb : Below scope f.callee below ts)
      (hl : Leading scope f.callee us xs) (ho : Opens scope callee vs ys)
      (he : f.elements = xs ++ ys) : Below scope callee (f :: below) (ts ++ us ++ vs)

/-- After the tokens the frames hold the beginning of a derivation, with `part` as what the top one
holds of its last formula. -/
structure Frames (scope : Scope) (part : List Token → List Element → Prop) (tokens : List Token)
    (top : Frame) (below : List Frame) : Prop where
  shape : ∃ ts us vs xs ys, tokens = ts ++ us ++ vs ∧ top.elements = xs ++ ys ∧
    Below scope top.callee below ts ∧ Leading scope top.callee us xs ∧ part vs ys

def Partly (scope : Scope) (ts : List Token) (elements : List Element) : Prop :=
  Waiting scope ts elements ∨ ∃ bare, IsFormula scope bare ts elements

theorem Partly.eq_nil (h : Partly scope ts []) : ts = [] := by
  rcases h with hw | ⟨bare, hf⟩
  · exact hw.eq_nil
  · obtain ⟨xs, last, he, _⟩ := hf.exists_last
    simp at he

section Checks

variable {part part' : List Token → List Element → Prop}

theorem Frames.imp (hp : ∀ ts elements, part ts elements → part' ts elements)
    (h : Frames scope part tokens top below) : Frames scope part' tokens top below := by
  obtain ⟨ts, us, vs, xs, ys, ht, he, hb, hl, hpart⟩ := h
  exact ⟨ts, us, vs, xs, ys, ht, he, hb, hl, hp vs ys hpart⟩

theorem Frames.partly : Frames scope (Partly scope) tokens top below →
    Frames scope (Waiting scope) tokens top below ∨
      ∃ bare, Frames scope (IsFormula scope bare) tokens top below := by
  rintro ⟨ts, us, vs, xs, ys, ht, he, hb, hl, hw | ⟨bare, hf⟩⟩
  · exact .inl ⟨ts, us, vs, xs, ys, ht, he, hb, hl, hw⟩
  · exact .inr ⟨bare, ts, us, vs, xs, ys, ht, he, hb, hl, hf⟩

theorem Frames.extend (h : Frames scope part tokens top below)
    (hp : ∀ ts elements, part ts elements → part' (ts ++ us) (elements ++ ys)) :
    Frames scope part' (tokens ++ us) (top.extend ys) below := by
  obtain ⟨ts, us', vs, xs, ys', rfl, he, hb, hl, hpart⟩ := h
  refine ⟨ts, us', vs ++ us, xs, ys' ++ ys, by simp, ?_, hb, hl, hp vs ys' hpart⟩
  rw [Frame.extend, he, List.append_assoc]

theorem Leading.kind_of_last (h : Leading scope callee us xs) :
    ∀ last ∈ xs.getLast?, last.kind = .comma := by
  intro last hl
  cases h with
  | nil => cases hl
  | parts =>
    rw [List.getLast?_concat] at hl
    cases hl
    rfl

theorem Frames.awaits (h : Frames scope (Waiting scope) tokens top below) : top.Awaits := by
  obtain ⟨ts, us, vs, xs, ys, _, he, _, hl, hw⟩ := h
  intro last hlast
  rw [Frame.last?, he, List.getLast?_append] at hlast
  rcases Option.or_eq_some_iff.1 hlast with hy | ⟨_, hx⟩
  · exact .inl (hw.kind_of_last last hy)
  · exact .inr (hl.kind_of_last last hx)

theorem Frames.exists_last (h : Frames scope (IsFormula scope bare) tokens top below) :
    ∃ last, top.last? = some last ∧ last.isOperand = true ∧
      (bare = true ↔ last.kind = .number ∨ last.kind = .group) := by
  obtain ⟨ts, us, vs, xs, ys, _, he, _, _, hf⟩ := h
  obtain ⟨zs, last, rfl, ho, hb⟩ := hf.exists_last
  exact ⟨last, by simp [Frame.last?, he], ho, hb⟩

theorem check_ok (h : f.check e t = .ok ()) :
    (f.last? = none ∧ e.canStart = true) ∨ ∃ last, f.last? = some last ∧ last.allows e = true := by
  rw [Frame.check] at h
  split at h
  · next hl =>
    split at h
    · next hs => exact .inl ⟨hl, hs⟩
    · cases h
  · next last hl =>
    split at h
    · next ha => exact .inr ⟨last, hl, ha⟩
    · cases h

/-- An operand is let through where one is waited for, and a group as a bare one. -/
theorem Frames.check_operand (h : Frames scope (Partly scope) tokens top below)
    (he : e.isOperand = true) (hc : top.check e t = .ok ()) :
    Frames scope (Waiting scope) tokens top below ∨
      (e.kind = .group ∧ Frames scope (IsFormula scope true) tokens top below) := by
  rcases h.partly with hw | ⟨bare, hf⟩
  · exact .inl hw
  · obtain ⟨last, hl, ho, hb⟩ := hf.exists_last
    rcases check_ok hc with ⟨hn, _⟩ | ⟨last', hl', ha⟩
    · rw [hn] at hl; cases hl
    · rw [hl] at hl'
      cases hl'
      obtain ⟨hg, hk⟩ := allows_operand ho he ha
      rw [hb.2 hk] at hf
      exact .inr ⟨hg, hf⟩

/-- An operator that is let through where an operand is waited for is a sign. -/
theorem Frame.Awaits.check_operator (h : f.Awaits) (hc : f.check (.operator op) t = .ok ()) :
    op.isSign = true := by
  rcases check_ok hc with ⟨_, hs⟩ | ⟨last, hl, ha⟩
  · exact hs
  · rcases h last hl with hk | hk <;> cases last <;>
      simp_all [Element.kind, Element.allows, Kind.successors]

theorem Frame.Awaits.check_comma (h : f.Awaits) : f.check .comma t ≠ .ok () := by
  intro hc
  rcases check_ok hc with ⟨_, hs⟩ | ⟨last, hl, ha⟩
  · cases hs
  · rcases h last hl with hk | hk <;> cases last <;>
      simp_all [Element.kind, Element.allows, Kind.successors]

end Checks

section Steps

theorem exists_number (scope : Scope) (h : Reading.number t = .ok e) (ht : t.kind = .number) :
    ∃ x, e = .number x ∧ IsOperand scope true [t] (.number x) := by
  rw [Reading.number] at h
  split at h
  · next x hx => cases h; exact ⟨x, rfl, .number ht hx⟩
  · cases h

theorem exists_operator (h : Reading.operator t = .ok e) (ht : t.kind = .operator) :
    ∃ op, e = .operator op ∧ t.IsOperator op := by
  rw [Reading.operator] at h
  split at h
  · next op hop =>
    cases h
    have hs := List.find?_some hop
    exact ⟨op, rfl, ht, (of_decide_eq_true hs).symm⟩
  · cases h

theorem check_of_push (h : f.push e t = .ok top) : f.check e t = .ok () ∧ top = f.extend [e] := by
  obtain ⟨_, hc, ht⟩ := exists_of_bind_ok h
  cases ht
  exact ⟨hc, rfl⟩

theorem Frames.push_operand (h : Frames scope (Partly scope) tokens f below)
    (hu : IsOperand scope bare us e) (hg : e.kind ≠ .group) (hp : f.push e t = .ok top) :
    Frames scope (IsFormula scope bare) (tokens ++ us) top below := by
  obtain ⟨hc, rfl⟩ := check_of_push hp
  rcases h.check_operand hu.isOperand hc with hw | ⟨hk, _⟩
  · exact hw.extend fun ts elements hw => hw.operand hu
  · exact absurd hk hg

theorem Frames.push_operator (h : Frames scope (Partly scope) tokens f below)
    (ht : t.IsOperator op) (hp : f.push (.operator op) t = .ok top) :
    Frames scope (Waiting scope) (tokens ++ [t]) top below := by
  obtain ⟨hc, rfl⟩ := check_of_push hp
  rcases h.partly with hw | ⟨bare, hf⟩
  · exact hw.extend fun ts elements hpart => hpart.sign ht (hw.awaits.check_operator hc)
  · exact hf.extend fun ts elements hpart => .term hpart ht .nil

/-- With the formula behind them the leading arguments are all arguments of a call. -/
theorem Leading.arguments (hl : Leading scope callee us xs) (hf : IsFormula scope bare vs ys) :
    IsArguments scope (us ++ vs) ((splitAtCommas (xs ++ ys)).map (.mk scope)) := by
  have hys : splitAtCommas ys = [ys] := splitAtCommas_of_ne hf.plain.kind_ne_comma
  cases hl with
  | nil =>
    rw [List.nil_append, List.nil_append, hys]
    exact .one hf
  | parts h hs ht =>
    rw [List.append_assoc, List.singleton_append, List.append_assoc, List.singleton_append,
      splitAtCommas_append, hys, List.map_append, hs]
    exact .more h ht hf

theorem Frames.push_comma (h : Frames scope (Partly scope) tokens f below) (ht : t.kind = .comma)
    (hn : f.callee.isNone = false) (hp : f.push .comma t = .ok top) :
    Frames scope (Waiting scope) (tokens ++ [t]) top below := by
  obtain ⟨hc, rfl⟩ := check_of_push hp
  rcases h.partly with hw | ⟨bare, hf⟩
  · exact absurd hc hw.awaits.check_comma
  · obtain ⟨ts, us, vs, xs, ys, rfl, he, hb, hl, hpart⟩ := hf
    obtain ⟨name, hname⟩ : ∃ name, f.callee = some name :=
      Option.isSome_iff_exists.1 (by simpa using hn)
    refine ⟨ts, us ++ vs ++ [t], [], xs ++ ys ++ [.comma], [], by simp, by simp [Frame.extend, he],
      hb, ?_, .start .nil⟩
    change Leading scope f.callee _ _
    rw [hname]
    exact .parts (hl.arguments hpart) rfl ht

/-- A frame that may be closed is empty or ends with a formula. -/
theorem Frames.complete {position : Nat} (h : Frames scope (Partly scope) tokens top below)
    (hc : top.checkComplete position = .ok ()) :
    top.elements = [] ∨ ∃ bare, Frames scope (IsFormula scope bare) tokens top below := by
  rcases h.partly with hw | hf
  · left
    cases hl : top.last? with
    | none => exact List.getLast?_eq_none_iff.1 hl
    | some last =>
      rcases hw.awaits last hl with hk | hk <;> cases last <;>
        simp_all [Element.kind, Frame.checkComplete, Element.isComplete, Element.isOperand, refuse]
  · exact .inr hf

theorem Opens.group_formula (ho : Opens scope none us xs)
    (hu : ∀ o : Token, o.kind = .opening → IsOperand scope true (o :: vs) (.group (.mk scope ys))) :
    IsFormula scope true (us ++ vs) (xs ++ [.group (.mk scope ys)]) := by
  cases ho with
  | group h ho => simpa using h.operand (hu _ ho)
  | product h ho => simpa using FormulaOf.product h (hu _ ho)

theorem Opens.call_formula {name : String} {fs : List Formula}
    (ho : Opens scope (some name) us xs)
    (hu : ∀ n o : Token, n.kind = .identifier → o.kind = .opening →
      IsOperand scope false (n :: o :: vs) (.call n.text fs)) :
    IsFormula scope false (us ++ vs) (xs ++ [.call name fs]) := by
  cases ho with
  | call h hn ho => simpa using h.operand (hu _ _ hn ho)

theorem IsArguments.isEmpty {fs : List Formula} (h : IsArguments scope us fs) :
    ∀ f ∈ fs, f.isEmpty = false :=
  ArgumentsOf.isEmpty (h.imp fun _ _ _ ho => ⟨ho, ho.runs⟩)

theorem Leading.eq_nil (h : Leading scope callee us []) : us = [] := by
  generalize hx : ([] : List Element) = xs at h
  cases h with
  | nil => rfl
  | parts => simp at hx

theorem close_ok (h : f.close scope t = .ok e) :
    f.checkComplete t.position = .ok () ∧
      ((∃ name, f.callee = some name ∧
          e = .callOf name ((splitAtCommas f.elements).map (.mk scope))) ∨
        (f.callee = none ∧ f.elements ≠ [] ∧ e = .group (.mk scope f.elements))) := by
  obtain ⟨_, hc, he⟩ := exists_of_bind_ok h
  refine ⟨hc, ?_⟩
  split at he
  · next name hn => cases he; exact .inl ⟨name, hn, rfl⟩
  · next hn =>
    split at he
    · cases he
    · next hne => cases he; exact .inr ⟨hn, by simpa using hne, rfl⟩

/-- The operand that a frame becomes completes a formula of the frame below. -/
theorem Below.close (hb : Below scope callee (outer :: below) tokens)
    (hu : ∀ us xs, Opens scope callee us xs → IsFormula scope bare (us ++ vs) (xs ++ [e])) :
    Frames scope (IsFormula scope bare) (tokens ++ vs) (outer.extend [e]) below := by
  cases hb with
  | @cons _ _ _ ts us ws xs ys hb hl ho he =>
    refine ⟨ts, us, ws ++ vs, xs, ys ++ [e], by simp, ?_, hb, hl, hu ws ys ho⟩
    rw [Frame.extend, he, List.append_assoc]

theorem Frames.close_empty {name : String}
    (h : Frames scope (Partly scope) tokens f (outer :: below)) (ht : t.kind = .closing)
    (hnil : f.elements = []) (hname : f.callee = some name) :
    Frames scope (IsFormula scope false) (tokens ++ [t]) (outer.extend [.call name []]) below := by
  obtain ⟨ts, us, vs, xs, ys, rfl, he, hb, hl, hpart⟩ := h
  obtain ⟨rfl, rfl⟩ : xs = [] ∧ ys = [] := List.append_eq_nil_iff.1 (he.symm.trans hnil)
  rw [hname] at hb
  rw [hl.eq_nil, hpart.eq_nil, List.append_nil, List.append_nil]
  exact hb.close fun us xs ho => ho.call_formula fun n o hn ho => IsOperand.callOfNone hn ho ht

theorem Frames.close_call {name : String}
    (h : Frames scope (IsFormula scope bare) tokens f (outer :: below)) (ht : t.kind = .closing)
    (hname : f.callee = some name) :
    Frames scope (IsFormula scope false) (tokens ++ [t])
      (outer.extend [.callOf name ((splitAtCommas f.elements).map (.mk scope))]) below := by
  obtain ⟨ts, us, vs, xs, ys, rfl, he, hb, hl, hpart⟩ := h
  rw [hname] at hb hl
  have hargs := hl.arguments hpart
  rw [he, callOf_of_isEmpty (IsArguments.isEmpty hargs), List.append_assoc, List.append_assoc,
    ← List.append_assoc us]
  exact hb.close fun _ _ ho => ho.call_formula fun n o hn ho => IsOperand.call hn ho hargs ht

theorem Frames.close_group (h : Frames scope (IsFormula scope bare) tokens f (outer :: below))
    (ht : t.kind = .closing) (hnone : f.callee = none) :
    Frames scope (IsFormula scope true) (tokens ++ [t])
      (outer.extend [.group (.mk scope f.elements)]) below := by
  obtain ⟨ts, us, vs, xs, ys, rfl, he, hb, hl, hpart⟩ := h
  rw [hnone] at hb hl
  cases hl with
  | nil =>
    rw [he, List.append_nil, List.nil_append, List.append_assoc]
    exact hb.close fun _ _ ho => ho.group_formula fun o ho => IsOperand.group ho hpart ht

/-- A closing parenthesis makes an operand of what the top frame holds. -/
theorem Frames.close (h : Frames scope (Partly scope) tokens f (outer :: below))
    (ht : t.kind = .closing) (hc : f.close scope t = .ok e) :
    ∃ bare, Frames scope (IsFormula scope bare) (tokens ++ [t]) (outer.extend [e]) below := by
  obtain ⟨hcomplete, hclose⟩ := close_ok hc
  rcases h.complete hcomplete with hnil | ⟨bare, hf⟩
  · rcases hclose with ⟨name, hname, rfl⟩ | ⟨_, hne, _⟩
    · rw [hnil]
      exact ⟨false, h.close_empty ht hnil hname⟩
    · exact absurd hnil hne
  · rcases hclose with ⟨name, hname, rfl⟩ | ⟨hnone, _, rfl⟩
    · exact ⟨false, hf.close_call ht hname⟩
    · exact ⟨true, hf.close_group ht hnone⟩

theorem Frames.opened {callee : Option String} {position : Nat}
    (hb : Below scope callee (f :: below) tokens) :
    Frames scope (Partly scope) tokens ⟨position, callee, []⟩ (f :: below) :=
  ⟨tokens, [], [], [], [], by simp, rfl, hb, .nil, .inl (.start .nil)⟩

theorem Frames.open_call (h : Frames scope (Partly scope) tokens f below)
    (hn : n.kind = .identifier) (ho : o.kind = .opening)
    (hc : f.check (.callOf n.text []) n = .ok ()) :
    Below scope (some n.text) (f :: below) (tokens ++ [n, o]) := by
  rcases h.check_operand rfl hc with hw | ⟨hk, _⟩
  · obtain ⟨ts, us, vs, xs, ys, rfl, he, hb, hl, hpart⟩ := hw
    rw [List.append_assoc]
    exact hb.cons hl (.call hpart hn ho) he
  · cases hk

theorem Frames.open_group (h : Frames scope (Partly scope) tokens f below)
    (ho : o.kind = .opening) (hc : f.check (.group (.mk scope [])) o = .ok ()) :
    Below scope none (f.beforeGroup :: below) (tokens ++ [o]) := by
  rcases h.check_operand rfl hc with hw | ⟨_, hf⟩
  · rw [hw.awaits.beforeGroup]
    obtain ⟨ts, us, vs, xs, ys, rfl, he, hb, hl, hpart⟩ := hw
    rw [List.append_assoc]
    exact hb.cons hl (.group hpart ho) he
  · obtain ⟨last, hlast, hop, _⟩ := hf.exists_last
    have hbefore : f.beforeGroup = f.extend [.operator .multiply] := by
      simp only [Frame.beforeGroup, hlast, hop, ↓reduceIte]
      rfl
    obtain ⟨ts, us, vs, xs, ys, rfl, he, hb, hl, hpart⟩ := hf
    rw [hbefore, List.append_assoc]
    have hext : (f.extend [.operator .multiply]).elements = xs ++ (ys ++ [.operator .multiply]) := by
      rw [Frame.extend, he, List.append_assoc]
    exact .cons hb hl (.product hpart ho) hext

/-- What a reading has come to after the tokens; a name that is held back is the last of them. -/
inductive HasRead (scope : Scope) : List Token → Reading → Prop
  | released {tokens : List Token} {top : Frame} {below : List Frame}
      (h : Frames scope (Partly scope) tokens top below) : HasRead scope tokens ⟨top, below, none⟩
  | held {tokens : List Token} {top : Frame} {below : List Frame} {n : Token}
      (h : Frames scope (Partly scope) tokens top below) (hn : n.kind = .identifier) :
      HasRead scope (tokens ++ [n]) ⟨top, below, some n⟩

theorem HasRead.start : HasRead scope [] {} :=
  .released ⟨[], [], [], [], [], rfl, rfl, .nil, .nil, .inl (.start .nil)⟩

theorem HasRead.release (h : HasRead scope tokens r) (hr : r.release t = .ok r') :
    r'.held = none ∧ Frames scope (Partly scope) tokens r'.top r'.below := by
  cases h with
  | released h =>
    cases hr
    exact ⟨rfl, h⟩
  | @held _ _ _ n h hn =>
    simp only [Reading.release] at hr
    split at hr
    · cases hr
    · obtain ⟨top, hp, ht⟩ := exists_of_bind_ok hr
      cases ht
      have hf := h.push_operand (IsOperand.variable hn) (by intro h; cases h) hp
      exact ⟨rfl, hf.imp fun _ _ hpart => .inr ⟨false, hpart⟩⟩

theorem HasRead.opening (h : HasRead scope tokens r) (ho : o.kind = .opening)
    (hr : r.opening scope o = .ok r') : HasRead scope (tokens ++ [o]) r' := by
  cases h with
  | released h =>
    obtain ⟨_, hc, ht⟩ := exists_of_bind_ok hr
    cases ht
    exact .released (.opened (h.open_group ho hc))
  | held h hn =>
    obtain ⟨_, hc, ht⟩ := exists_of_bind_ok hr
    cases ht
    rw [List.append_assoc]
    exact .released (.opened (h.open_call hn ho hc))

theorem exists_of_pushOnTop (hr : r.pushOnTop e t = .ok r') :
    ∃ top, r.top.push e t = .ok top ∧ r' = ⟨top, r.below, r.held⟩ := by
  obtain ⟨top, hp, ht⟩ := exists_of_bind_ok hr
  cases ht
  exact ⟨top, hp, rfl⟩

theorem HasRead.plain (h : Frames scope (Partly scope) tokens r.top r.below)
    (hheld : r.held = none) (hi : t.kind ≠ .identifier) (ho : t.kind ≠ .opening)
    (he : t.kind ≠ .ending) (hr : r.plain scope t = .ok r') : HasRead scope (tokens ++ [t]) r' := by
  have hwaiting {top : Frame} {below : List Frame}
      (hf : Frames scope (Waiting scope) (tokens ++ [t]) top below) :
      HasRead scope (tokens ++ [t]) ⟨top, below, none⟩ :=
    .released (hf.imp fun _ _ hpart => .inl hpart)
  have hformula {bare : Bool} {top : Frame} {below : List Frame}
      (hf : Frames scope (IsFormula scope bare) (tokens ++ [t]) top below) :
      HasRead scope (tokens ++ [t]) ⟨top, below, none⟩ :=
    .released (hf.imp fun _ _ hpart => .inr ⟨bare, hpart⟩)
  rw [Reading.plain.eq_def] at hr
  split at hr
  · next hk =>
    obtain ⟨e, hn, hpush⟩ := exists_of_bind_ok hr
    obtain ⟨top, hp, rfl⟩ := exists_of_pushOnTop hpush
    obtain ⟨x, rfl, hu⟩ := exists_number scope hn hk
    rw [hheld]
    exact hformula (h.push_operand hu (nomatch ·) hp)
  · next hk =>
    obtain ⟨e, hn, hpush⟩ := exists_of_bind_ok hr
    obtain ⟨top, hp, rfl⟩ := exists_of_pushOnTop hpush
    obtain ⟨op, rfl, hop⟩ := exists_operator hn hk
    rw [hheld]
    exact hwaiting (h.push_operator hop hp)
  · next hk =>
    split at hr
    · cases hr
    · next hn =>
      obtain ⟨top, hp, rfl⟩ := exists_of_pushOnTop hr
      rw [hheld]
      exact hwaiting (h.push_comma hk (Bool.eq_false_iff.2 hn) hp)
  · next hk =>
    rw [Reading.closing] at hr
    split at hr
    · cases hr
    · next outer below hbelow =>
      obtain ⟨e, hc, ht⟩ := exists_of_bind_ok hr
      cases ht
      rw [hbelow] at h
      obtain ⟨bare, hf⟩ := h.close hk hc
      rw [hheld]
      exact hformula hf
  · next hnumber hoperator hcomma hclosing =>
    cases hk : t.kind <;> simp_all

theorem HasRead.step (h : HasRead scope tokens r) (he : t.kind ≠ .ending)
    (hr : r.step scope t = .ok r') : HasRead scope (tokens ++ [t]) r' := by
  rw [Reading.step.eq_def] at hr
  split at hr
  · next hk =>
    split at hr
    · cases hr
    · next hheld =>
      cases hr
      cases h with
      | released h => exact .held h hk
      | held h hn => simp at hheld
  · next hk => exact h.opening hk hr
  · next hi ho =>
    obtain ⟨r₁, hrel, hp⟩ := exists_of_bind_ok hr
    obtain ⟨hheld, hf⟩ := h.release hrel
    exact .plain hf hheld hi ho he hp

theorem HasRead.run (h : HasRead scope tokens r) (he : ∀ t ∈ us, t.kind ≠ .ending)
    (hr : us.foldlM (Reading.step scope) r = .ok r') : HasRead scope (tokens ++ us) r' := by
  induction us generalizing tokens r with
  | nil =>
    cases hr
    rwa [List.append_nil]
  | cons t us ih =>
    rw [List.foldlM_cons] at hr
    obtain ⟨r₁, hs, hr⟩ := exists_of_bind_ok hr
    have hrest := ih (h.step (he t List.mem_cons_self) hs)
      (fun u hu => he u (List.mem_cons_of_mem t hu)) hr
    rwa [List.append_assoc] at hrest

/-- At the end of the text the bottom frame holds a formula. -/
theorem HasRead.finish {length : Nat} (h : HasRead scope tokens r) (hr : r.release t = .ok r')
    (hf : r'.finish length = .ok elements) : ∃ bare, IsFormula scope bare tokens elements := by
  obtain ⟨_, hframes⟩ := h.release hr
  rw [Reading.finish] at hf
  split at hf
  · cases hf
  · next hbelow =>
    split at hf
    · cases hf
    · next hne =>
      obtain ⟨_, hc, he⟩ := exists_of_bind_ok hf
      cases he
      rcases hframes.complete hc with hnil | ⟨bare, hform⟩
      · simp [hnil] at hne
      · obtain ⟨ts, us, vs, xs, ys, rfl, he, hb, hl, hpart⟩ := hform
        have hnil : r'.below = [] := by simpa using hbelow
        rw [hnil] at hb
        generalize r'.top.callee = callee at hb hl
        cases hb with
        | nil =>
          cases hl with
          | nil =>
            rw [he]
            exact ⟨bare, hpart⟩

end Steps

end Calculator
