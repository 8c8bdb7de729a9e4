import Calculator.Proofs.Location
import Calculator.Proofs.Unclosed
import Calculator.Proofs.WellFormed
import Mathlib.Logic.Relation
/-!
The stack of frames. After any tokens of a text there is one frame more than there are unclosed
parentheses, the elements of each frame keep the rules of adjacency, and a frame that is suspended
admits what it is suspended for (`wellStacked_of_read`). A closed element and a multiplication in
front of a group are appended without a check: a suspended frame awaits an operand, and nothing but
closing the frame above changes it.
-/
namespace Calculator

variable {scope : Scope} {f outer : Frame} {below stack stack' : List Frame}
  {r r' : Reading} {t : Token} {read rest tokens : List Token} {e : Element} {text : List Char}

/-- The frames, the innermost one first. -/
def Reading.frames (r : Reading) : List Frame := r.top :: r.below

/-- The frame can be closed to the element, whatever it holds by then. -/
def Frame.ClosesTo (f : Frame) (e : Element) : Prop :=
  ∃ elements scope t, Frame.close ⟨f.position, f.callee, elements⟩ scope t = .ok e

def Frame.Admits (f : Frame) (e : Element) : Prop :=
  f.elements = [] ∨ ∃ last, f.last? = some last ∧ last.allows e = true

/-- The frames above the bottom one belong to the unclosed parentheses of the tokens, all frames are
well-formed, and each admits what the frame above it can be closed to. -/
structure Reading.WellStacked (read : List Token) (r : Reading) : Prop where
  height : r.frames.length = (unclosed read).length + 1
  count : occurrences .opening read = occurrences .closing read + (unclosed read).length
  positions : r.frames.dropLast.reverse.map Frame.position = (unclosed read).map Token.position
  ordered : (r.frames.dropLast.reverse.map Frame.position).Pairwise (· < ·)
  wellFormed : ∀ f ∈ r.frames, f.WellFormed
  suspended : r.frames.IsChain fun inner outer => ∀ e, inner.ClosesTo e → outer.Admits e

theorem Frame.ClosesTo.isOperand (h : f.ClosesTo e) : e.isOperand = true := by
  obtain ⟨elements, scope, t, h⟩ := h
  rcases (close_ok h).2 with ⟨name, _, rfl⟩ | ⟨_, _, rfl⟩ <;> rfl

theorem Frame.Awaits.admits (h : f.Awaits) (he : e.isOperand = true) : f.Admits e := by
  cases hl : f.last? with
  | none => exact .inl (List.getLast?_eq_none_iff.1 hl)
  | some last => exact .inr ⟨last, hl, allows_of_canStart (h last hl) (canStart_of_isOperand he)⟩

section Turns

/-- An element that owns no formulas is put behind those of the top frame after a check, and a comma
only in a frame with a name in front of it. -/
inductive Pushed : List Frame → List Frame → Prop
  | mk {f : Frame} {below : List Frame} {e : Element} {t : Token} (hc : f.check e t = .ok ())
      (hp : e.parts = []) (hm : e.kind = .comma → f.callee.isSome = true) :
      Pushed (f :: below) (f.extend [e] :: below)

/-- What a token does to the frames once no name is held back. -/
inductive Turn (scope : Scope) (t : Token) : List Frame → List Frame → Prop
  | push {stack stack' : List Frame} (ho : t.kind ≠ .opening) (hc : t.kind ≠ .closing)
      (h : Relation.ReflGen Pushed stack stack') : Turn scope t stack stack'
  | call {f : Frame} {below : List Frame} {name : String} {u : Token} (ho : t.kind = .opening)
      (hc : f.check (.callOf name []) u = .ok ()) :
      Turn scope t (f :: below) (⟨t.position, some name, []⟩ :: f :: below)
  | group {f : Frame} {below : List Frame} (ho : t.kind = .opening)
      (hc : f.check (.group (.mk scope [])) t = .ok ()) :
      Turn scope t (f :: below) (⟨t.position, none, []⟩ :: f.beforeGroup :: below)
  | close {f outer : Frame} {below : List Frame} {e : Element} (ht : t.kind = .closing)
      (hc : f.close scope t = .ok e) :
      Turn scope t (f :: outer :: below) (outer.extend [e] :: below)

theorem pushed_of_pushOnTop (hr : r.pushOnTop e t = .ok r') (he : e.parts = [])
    (hm : e.kind = .comma → r.top.callee.isSome = true) : Pushed r.frames r'.frames := by
  obtain ⟨top, hp, rfl⟩ := exists_of_pushOnTop hr
  obtain ⟨hc, rfl⟩ := check_of_push hp
  exact .mk hc he hm

theorem pushed_of_release (hr : r.release t = .ok r') :
    Relation.ReflGen Pushed r.frames r'.frames := by
  rw [Reading.release] at hr
  split at hr
  · cases hr
    exact .refl
  · split at hr
    · cases hr
    · obtain ⟨top, hp, ht⟩ := exists_of_bind_ok hr
      cases ht
      obtain ⟨hc, rfl⟩ := check_of_push hp
      exact .single (.mk hc rfl (by simp [Element.kind]))

theorem turn_of_opening (ho : t.kind = .opening) (hr : r.opening scope t = .ok r') :
    Turn scope t r.frames r'.frames := by
  rw [Reading.opening] at hr
  split at hr
  · obtain ⟨_, hc, ht⟩ := exists_of_bind_ok hr
    cases ht
    exact .call ho hc
  · obtain ⟨_, hc, ht⟩ := exists_of_bind_ok hr
    cases ht
    exact .group ho hc

theorem turn_of_plain (ho : t.kind ≠ .opening) (hr : r.plain scope t = .ok r') :
    Turn scope t r.frames r'.frames := by
  rw [Reading.plain.eq_def] at hr
  split at hr
  · next hk =>
    obtain ⟨e, hn, hpush⟩ := exists_of_bind_ok hr
    obtain ⟨x, rfl, _⟩ := exists_number scope hn hk
    exact .push ho (by simp [hk]) (.single (pushed_of_pushOnTop hpush rfl (by simp [Element.kind])))
  · next hk =>
    obtain ⟨e, hn, hpush⟩ := exists_of_bind_ok hr
    obtain ⟨op, rfl, _⟩ := exists_operator hn hk
    exact .push ho (by simp [hk]) (.single (pushed_of_pushOnTop hpush rfl (by simp [Element.kind])))
  · next hk =>
    split at hr
    · cases hr
    · next hcallee =>
      have hsome : r.top.callee.isSome = true :=
        Option.isSome_iff_ne_none.2 (by simpa using hcallee)
      exact .push ho (by simp [hk]) (.single (pushed_of_pushOnTop hr rfl fun _ => hsome))
  · next hk =>
    rw [Reading.closing] at hr
    split at hr
    · cases hr
    · next outer below hbelow =>
      obtain ⟨e, hc, ht⟩ := exists_of_bind_ok hr
      cases ht
      rw [Reading.frames, hbelow]
      exact .close hk hc
  · next hc =>
    cases hr
    exact .push ho hc .refl

/-- A step releases a name, where one is held back, and then lets the token act on the frames. -/
theorem turn_of_step (hr : r.step scope t = .ok r') :
    ∃ between, Relation.ReflGen Pushed r.frames between ∧ Turn scope t between r'.frames := by
  rw [Reading.step.eq_def] at hr
  split at hr
  · next hk =>
    split at hr
    · cases hr
    · cases hr
      exact ⟨r.frames, .refl, .push (by simp [hk]) (by simp [hk]) .refl⟩
  · next hk => exact ⟨r.frames, .refl, turn_of_opening hk hr⟩
  · next ho =>
    obtain ⟨r₁, hrelease, hplain⟩ := exists_of_bind_ok hr
    exact ⟨r₁.frames, pushed_of_release hrelease, turn_of_plain ho hplain⟩

end Turns

section Invariant

/-- What the frames keep while tokens are read. An element that a frame is closed to is not checked
again: it fits because suspended frames await an operand. -/
structure Stacked (read : List Token) (stack : List Frame) : Prop where
  wellFormed : ∀ f ∈ stack, f.WellFormed
  awaits : ∀ f ∈ stack.tail, f.Awaits
  positions : (stack.map Frame.position).dropLast = ((unclosed read).map Token.position).reverse
  count : occurrences .opening read + 1 = occurrences .closing read + stack.length

theorem Stacked.start : Stacked [] (Reading.frames {}) where
  wellFormed := List.forall_mem_singleton.2 (.empty 0 none)
  awaits := nofun
  positions := rfl
  count := rfl

theorem Stacked.pushed (h : Stacked read stack) (hp : Relation.ReflGen Pushed stack stack') :
    Stacked read stack' := by
  cases hp with
  | refl => exact h
  | single hp =>
    cases hp with
    | mk hc he hm =>
      obtain ⟨hf, hbelow⟩ := List.forall_mem_cons.1 h.wellFormed
      exact ⟨List.forall_mem_cons.2 ⟨hf.push hc he hm, hbelow⟩, h.awaits, h.positions, h.count⟩

theorem Stacked.opened (h : Stacked read (f :: below)) (ho : t.kind = .opening)
    (hw : outer.WellFormed) (ha : outer.Awaits) (hp : outer.position = f.position)
    (callee : Option String) :
    Stacked (read ++ [t]) (⟨t.position, callee, []⟩ :: outer :: below) where
  wellFormed := List.forall_mem_cons.2 ⟨.empty _ _,
    List.forall_mem_cons.2 ⟨hw, (List.forall_mem_cons.1 h.wellFormed).2⟩⟩
  awaits := List.forall_mem_cons.2 ⟨ha, h.awaits⟩
  positions := by
    have hrest := h.positions
    rw [List.map_cons] at hrest
    rw [List.map_cons, List.map_cons, List.dropLast_cons_cons, hp, hrest, unclosed_opening ho,
      List.map_append, List.reverse_append]
    rfl
  count := by
    have hcount := h.count
    simp only [occurrences_concat, ho, List.length_cons, reduceCtorEq, ↓reduceIte] at hcount ⊢
    omega

/-- The element that a frame is closed to is appended to the suspended frame without a check. -/
theorem Stacked.closed (h : Stacked read (f :: outer :: below)) (ht : t.kind = .closing)
    (hc : f.close scope t = .ok e) : Stacked (read ++ [t]) (outer.extend [e] :: below) where
  wellFormed := by
    obtain ⟨hf, hrest⟩ := List.forall_mem_cons.1 h.wellFormed
    obtain ⟨houter, hbelow⟩ := List.forall_mem_cons.1 hrest
    obtain ⟨ho, hv⟩ := hf.close hc
    exact List.forall_mem_cons.2 ⟨houter.operand (h.awaits outer List.mem_cons_self) ho hv, hbelow⟩
  awaits := (List.forall_mem_cons.1 h.awaits).2
  positions := by
    have hrest := h.positions
    rw [List.map_cons, List.map_cons, List.dropLast_cons_cons] at hrest
    rw [(unclosed_closing ht read).1, List.map_dropLast, ← List.tail_reverse, ← hrest]
    rfl
  count := by
    have hcount := h.count
    simp only [occurrences_concat, ht, List.length_cons, reduceCtorEq, ↓reduceIte] at hcount ⊢
    omega

theorem Stacked.turn (h : Stacked read stack) (ht : Turn scope t stack stack') :
    Stacked (read ++ [t]) stack' := by
  cases ht with
  | push ho hc hp =>
    obtain ⟨hwell, hawaits, hpositions, hcount⟩ := h.pushed hp
    refine ⟨hwell, hawaits, ?_, ?_⟩
    · rw [unclosed_other ho hc, hpositions]
    · simpa only [occurrences_concat, ho, hc, ↓reduceIte, Nat.add_zero] using hcount
  | call ho hc =>
    have hf := (List.forall_mem_cons.1 h.wellFormed).1
    exact h.opened ho hf (awaits_of_check_call hc) rfl _
  | @group f below ho hc =>
    obtain ⟨hf, ha⟩ := (List.forall_mem_cons.1 h.wellFormed).1.beforeGroup
    exact h.opened ho hf ha f.position_beforeGroup none
  | close ht hc => exact h.closed ht hc

theorem Stacked.step (h : Stacked read r.frames) (hr : r.step scope t = .ok r') :
    Stacked (read ++ [t]) r'.frames := by
  obtain ⟨between, hp, ht⟩ := turn_of_step hr
  exact (h.pushed hp).turn ht

theorem Stacked.run (h : Stacked read r.frames)
    (hr : rest.foldlM (Reading.step scope) r = .ok r') : Stacked (read ++ rest) r'.frames := by
  induction rest generalizing read r with
  | nil =>
    cases hr
    rwa [List.append_nil]
  | cons t rest ih =>
    rw [List.foldlM_cons] at hr
    obtain ⟨r₁, hs, hr⟩ := exists_of_bind_ok hr
    have hrest := ih (h.step hs) hr
    rwa [List.append_assoc] at hrest

theorem Stacked.length_eq (h : Stacked read r.frames) :
    r.frames.length = (unclosed read).length + 1 := by
  have hlength := congrArg List.length h.positions
  simpa [Reading.frames] using hlength

theorem Stacked.positions_eq (h : Stacked read stack) :
    stack.dropLast.reverse.map Frame.position = (unclosed read).map Token.position := by
  rw [List.map_reverse, List.map_dropLast, h.positions, List.reverse_reverse]

/-- Each frame below another one admits what that one is closed to. -/
theorem Stacked.suspended (h : Stacked read stack) :
    stack.IsChain fun inner outer => ∀ e, inner.ClosesTo e → outer.Admits e := by
  have hawaits := h.awaits
  clear h
  induction stack with
  | nil => exact .nil
  | cons inner rest ih =>
    cases rest with
    | nil => exact List.isChain_singleton _
    | cons outer rest =>
      obtain ⟨ha, hrest⟩ := List.forall_mem_cons.1 hawaits
      exact List.isChain_cons_cons.2 ⟨fun e he => ha.admits he.isOperand, ih hrest⟩

end Invariant

/-- After any of the tokens of a text that are read without a failure, the frames above the bottom
one belong to the parentheses that are not closed yet, and all frames are well-formed and admit what
they are suspended for. -/
theorem wellStacked_of_read (hs : scanText text = .ok tokens) (hp : read <+: tokens)
    (hr : read.foldlM (Reading.step scope) {} = .ok r) : r.WellStacked read := by
  have h : Stacked read r.frames := Stacked.start.run hr
  have hcount := h.count
  rw [h.length_eq] at hcount
  have hordered : ((unclosed read).map Token.position).Pairwise (· < ·) :=
    List.pairwise_map.2 (pairwise_unclosed hs hp)
  exact {
    height := h.length_eq
    count := by omega
    positions := h.positions_eq
    ordered := by rwa [h.positions_eq]
    wellFormed := h.wellFormed
    suspended := h.suspended }

/-- The tokens of `x*f(y,(z)(-w` but the one for the end. -/
def unclosedCall : List Token :=
  [⟨.identifier, ['x'], 0⟩, ⟨.operator, ['*'], 1⟩, ⟨.identifier, ['f'], 2⟩, ⟨.opening, ['('], 3⟩,
    ⟨.identifier, ['y'], 4⟩, ⟨.comma, [','], 5⟩, ⟨.opening, ['('], 6⟩, ⟨.identifier, ['z'], 7⟩,
    ⟨.closing, [')'], 8⟩, ⟨.opening, ['('], 9⟩, ⟨.operator, ['-'], 10⟩, ⟨.identifier, ['w'], 11⟩]

/-- A call and a group in it are open, and a name is held back. -/
def readingOfUnclosedCall (scope : Scope) : Reading where
  top := ⟨9, none, [.operator .subtract]⟩
  below := [⟨3, some "f", [.variable "y", .comma, .group (.mk scope [.variable "z"]),
      .operator .multiply]⟩, ⟨0, none, [.variable "x", .operator .multiply]⟩]
  held := some ⟨.identifier, ['w'], 11⟩

theorem wellStacked_of_read_unclosedCall :
    scanText "x*f(y,(z)(-w".toList = .ok (unclosedCall ++ [.atEnd 12]) ∧
      unclosedCall.foldlM (Reading.step ⟨0, 0⟩) {} = .ok (readingOfUnclosedCall ⟨0, 0⟩) ∧
      (unclosed unclosedCall).map Token.position = [3, 9] ∧
      (readingOfUnclosedCall ⟨0, 0⟩).WellStacked unclosedCall := by
  have hscan : scan "x*f(y,(z)(-w".toList = .ok (unclosedCall ++ [.atEnd 12]) := by
    decide +kernel
  have hs : scanText "x*f(y,(z)(-w".toList = .ok (unclosedCall ++ [.atEnd 12]) := by
    rw [scanText, hscan]
  have hr : unclosedCall.foldlM (Reading.step ⟨0, 0⟩) {} =
      .ok (readingOfUnclosedCall ⟨0, 0⟩) := rfl
  exact ⟨hs, hr, by decide, wellStacked_of_read hs (List.prefix_append _ _) hr⟩

end Calculator
