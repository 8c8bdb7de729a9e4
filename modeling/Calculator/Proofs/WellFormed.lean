import Calculator.Proofs.Derivation
import Calculator.Proofs.Sentences
import Calculator.Proofs.Validity
/-!
Well-formed frames. A frame stays well-formed when an element is appended that its check lets
through, and also when an operand is appended without a check to a frame that awaits one. What a
well-formed frame is closed to owns valid formulas only (`Frame.WellFormed.close`).
-/
namespace Calculator

variable {scope : Scope} {f : Frame} {t : Token} {e previous : Element}
  {elements rest part : List Element} {position : Nat}

/-- The elements begin as a sequence may begin, each is allowed behind the one in front of it, no
group is behind an operand, commas are between the arguments of a call only, and all formulas that
the elements own are valid. -/
structure Frame.WellFormed (f : Frame) : Prop where
  starts : ∀ e ∈ f.elements.head?, e.canStart = true
  allowed : f.elements.IsChain fun e next => e.allows next = true
  apart : f.elements.IsChain fun e next => ¬ (e.isOperand = true ∧ next.kind = .group)
  comma : ∀ e ∈ f.elements, e.kind = .comma → f.callee.isSome = true
  owned : ∀ e ∈ f.elements, e.partsValid = true

section Appending

theorem Frame.WellFormed.empty (position : Nat) (callee : Option String) :
    (⟨position, callee, []⟩ : Frame).WellFormed where
  starts := nofun
  allowed := .nil
  apart := .nil
  comma := nofun
  owned := nofun

theorem Frame.WellFormed.extend (h : f.WellFormed) (hs : f.last? = none → e.canStart = true)
    (ha : ∀ last ∈ f.last?,
      last.allows e = true ∧ ¬ (last.isOperand = true ∧ e.kind = .group))
    (hc : e.kind = .comma → f.callee.isSome = true) (ho : e.partsValid = true) :
    (f.extend [e]).WellFormed where
  starts := by
    intro first hf
    rw [Frame.extend, List.head?_append] at hf
    rcases Option.or_eq_some_iff.1 hf with hf | ⟨hn, hf⟩
    · exact h.starts first hf
    · cases hf
      rw [List.head?_eq_none_iff] at hn
      exact hs (by rw [Frame.last?, hn]; rfl)
  allowed := List.isChain_append.2 ⟨h.allowed, List.isChain_singleton e, fun last hl next hn => by
    cases hn
    exact (ha last hl).1⟩
  apart := List.isChain_append.2 ⟨h.apart, List.isChain_singleton e, fun last hl next hn => by
    cases hn
    exact (ha last hl).2⟩
  comma := List.forall_mem_append.2 ⟨h.comma, List.forall_mem_singleton.2 hc⟩
  owned := List.forall_mem_append.2 ⟨h.owned, List.forall_mem_singleton.2 ho⟩

theorem partsValid_of_parts (hp : e.parts = []) : e.partsValid = true := by
  rw [Element.partsValid_iff, hp]
  exact List.forall_mem_nil _

theorem fits_of_check (hc : f.check e t = .ok ()) :
    (f.last? = none → e.canStart = true) ∧ ∀ last ∈ f.last?, last.allows e = true := by
  rcases check_ok hc with ⟨hn, hs⟩ | ⟨last, hl, ha⟩
  · refine ⟨fun _ => hs, fun last hl => ?_⟩
    rw [hn] at hl
    cases hl
  · refine ⟨fun hn => ?_, fun last' hl' => ?_⟩
    · rw [hl] at hn
      cases hn
    · rw [hl] at hl'
      cases hl'
      exact ha

theorem Frame.WellFormed.push (h : f.WellFormed) (hc : f.check e t = .ok ()) (hp : e.parts = [])
    (hm : e.kind = .comma → f.callee.isSome = true) : (f.extend [e]).WellFormed := by
  have hg : e.kind ≠ .group := by
    intro hk
    cases e <;> cases hk
    cases hp
  obtain ⟨hs, ha⟩ := fits_of_check hc
  exact h.extend hs (fun last hl => ⟨ha last hl, fun hk => hg hk.2⟩) hm (partsValid_of_parts hp)

/-- A frame that awaits an operand takes any of them without a check. -/
theorem Frame.WellFormed.operand (h : f.WellFormed) (ha : f.Awaits) (he : e.isOperand = true)
    (ho : e.partsValid = true) : (f.extend [e]).WellFormed := by
  have hs := canStart_of_isOperand he
  refine h.extend (fun _ => hs) (fun last hl => ⟨allows_of_canStart (ha last hl) hs, ?_⟩)
    (fun hk => absurd hk (kind_ne_comma_of_isOperand he)) ho
  rintro ⟨hlast, _⟩
  rcases ha last hl with hk | hk <;> cases last <;> simp_all [Element.kind, Element.isOperand]

/-- A frame in which a call is let through awaits an operand. -/
theorem awaits_of_check_call {name : String} (hc : f.check (.callOf name []) t = .ok ()) :
    f.Awaits := by
  intro last hl
  have ha := (fits_of_check hc).2 last hl
  cases last <;> simp_all [Element.allows, Element.kind, Kind.successors, Element.callOf]

theorem awaits_of_not_operand (h : ∀ last ∈ f.last?, ¬ last.isOperand = true) : f.Awaits := by
  intro last hl
  have ho := h last hl
  cases last <;> simp_all [Element.isOperand, Element.kind]

/-- With the multiplication that a group implies behind an operand, a frame awaits an operand. -/
theorem Frame.WellFormed.beforeGroup (h : f.WellFormed) :
    f.beforeGroup.WellFormed ∧ f.beforeGroup.Awaits := by
  by_cases ho : ∃ last ∈ f.last?, last.isOperand = true
  · obtain ⟨last, hl, ho⟩ := ho
    rw [Option.mem_def] at hl
    have hbefore : f.beforeGroup = f.extend [.operator .multiply] := by
      simp only [Frame.beforeGroup, hl, ho, ↓reduceIte]
      rfl
    have ha : last.allows (.operator .multiply) = true := allows_behind_operand ho (.inl rfl)
    rw [hbefore]
    refine ⟨h.extend ?_ ?_ (by simp [Element.kind]) (partsValid_of_parts rfl), ?_⟩
    · simp [hl]
    · simp [hl, ha, Element.kind]
    · exact .of_last? (f.last?_extend_concat [] (.operator .multiply)) (.inl rfl)
  · have ha : f.Awaits := awaits_of_not_operand fun last hl ho' => ho ⟨last, hl, ho'⟩
    rw [ha.beforeGroup]
    exact ⟨h, ha⟩

end Appending

section Closing

theorem mem_of_mem_split (hp : part ∈ splitAtCommas elements) (he : e ∈ part) : e ∈ elements := by
  induction elements generalizing part with
  | nil =>
    cases List.mem_singleton.1 hp
    cases he
  | cons first rest ih =>
    by_cases hc : first.kind = .comma
    · cases first with
      | comma =>
        rcases List.mem_cons.1 hp with rfl | hp
        · cases he
        · exact List.mem_cons_of_mem _ (ih hp he)
      | _ => cases hc
    · obtain ⟨head, more, hsplit⟩ := splitAtCommas_eq_cons rest
      rw [splitAtCommas_cons hc, hsplit] at hp
      rcases List.mem_cons.1 hp with rfl | hp
      · rcases List.mem_cons.1 he with rfl | he
        · exact List.mem_cons_self
        · exact List.mem_cons_of_mem _ (ih (hsplit ▸ List.mem_cons_self) he)
      · exact List.mem_cons_of_mem _ (ih (hsplit ▸ List.mem_cons_of_mem _ hp) he)

/-- Behind a comma a sequence begins, as it does behind an operator. -/
theorem allows_behind_comma (ha : Element.comma.allows e = true) :
    (Element.operator .add).allows e = true := by
  cases e <;> exact ha

theorem isOperand_of_allows_comma (ha : previous.allows .comma = true) :
    previous.isOperand = true := by
  cases previous <;> simp_all [Element.allows, Element.kind, Kind.successors, Element.isOperand]

/-- A sequence that is allowed and ends with an operand is taken apart at its commas into what goes
on behind `previous` and sentences. -/
theorem continues_split (hp : previous.kind ≠ .comma)
    (ha : (previous :: rest).IsChain fun e next => e.allows next = true)
    (hl : ∀ last ∈ (previous :: rest).getLast?, last.isOperand = true) :
    ∃ part parts, splitAtCommas rest = part :: parts ∧ Continues previous part ∧
      ∀ p ∈ parts, Sentence p := by
  induction rest generalizing previous with
  | nil => exact ⟨[], [], rfl, (continues_nil hp).2 (hl previous rfl), List.forall_mem_nil _⟩
  | cons e rest ih =>
    obtain ⟨hallows, hrest⟩ := List.isChain_cons_cons.1 ha
    rw [List.getLast?_cons_cons] at hl
    by_cases hc : e.kind = .comma
    · cases e with
      | comma =>
        have hbehind : (Element.operator .add :: rest).IsChain fun e next => e.allows next = true :=
          hrest.imp_head fun ha => allows_behind_comma ha
        cases rest with
        | nil => cases hl .comma rfl
        | cons next rest =>
          rw [List.getLast?_cons_cons] at hl
          obtain ⟨part, parts, hsplit, hpart, hparts⟩ := ih (by simp [Element.kind]) hbehind
            (by rwa [List.getLast?_cons_cons])
          refine ⟨[], part :: parts, by rw [splitAtCommas, hsplit], ?_, ?_⟩
          · exact (continues_nil hp).2 (isOperand_of_allows_comma hallows)
          · exact List.forall_mem_cons.2 ⟨hpart, hparts⟩
      | _ => cases hc
    · obtain ⟨part, parts, hsplit, hpart, hparts⟩ := ih hc hrest hl
      refine ⟨e :: part, parts, ?_, (continues_cons hp).2 ⟨hc, hallows, hpart⟩, hparts⟩
      rw [splitAtCommas_cons hc, hsplit]

theorem isOperand_of_checkComplete (hc : f.checkComplete position = .ok ()) :
    ∀ last ∈ f.last?, last.isOperand = true := by
  intro last hl
  rw [Frame.checkComplete, hl] at hc
  by_contra ho
  simp [Element.isComplete, ho, refuse] at hc

/-- The parts of a frame that may be closed are sentences. -/
theorem Frame.WellFormed.sentences (h : f.WellFormed) (hn : f.elements ≠ [])
    (hc : f.checkComplete position = .ok ()) :
    ∀ part ∈ splitAtCommas f.elements, Sentence part := by
  have hlast := isOperand_of_checkComplete hc
  have hstarts := h.starts
  have hallowed := h.allowed
  rw [Frame.last?] at hlast
  obtain ⟨first, rest, he⟩ := List.exists_cons_of_ne_nil hn
  rw [he] at hlast hstarts hallowed ⊢
  have hbehind : (Element.operator .add :: first :: rest).IsChain
      fun e next => e.allows next = true :=
    List.isChain_cons_cons.2 ⟨allows_of_canStart (.inl rfl) (hstarts first rfl), hallowed⟩
  obtain ⟨part, parts, hsplit, hpart, hparts⟩ := continues_split (by simp [Element.kind]) hbehind
    (by rwa [List.getLast?_cons_cons])
  rw [hsplit]
  exact List.forall_mem_cons.2 ⟨hpart, hparts⟩

/-- What a well-formed frame is closed to is an operand that owns valid formulas only. -/
theorem Frame.WellFormed.close (h : f.WellFormed) (hc : f.close scope t = .ok e) :
    e.isOperand = true ∧ e.partsValid = true := by
  have hvalid (part : List Element) (hn : f.elements ≠ [])
      (hp : part ∈ splitAtCommas f.elements) (hcomplete : f.checkComplete t.position = .ok ()) :
      (Formula.mk scope part).isValid = true := by
    refine Formula.isValid_iff.2 ⟨findViolation_eq_none.2 (h.sentences hn hcomplete part hp), ?_⟩
    intro e he
    exact Element.partsValid_iff.1 (h.owned e (mem_of_mem_split hp he))
  obtain ⟨hcomplete, ⟨name, hname, rfl⟩ | ⟨hnone, hn, rfl⟩⟩ := close_ok hc
  · refine ⟨rfl, Element.partsValid_iff.2 fun g hg => ?_⟩
    obtain ⟨hg, hne⟩ := List.mem_filter.1 hg
    obtain ⟨part, hp, rfl⟩ := List.mem_map.1 hg
    have hpart : part ≠ [] := by simpa [Formula.isEmpty, Formula.elements] using hne
    obtain ⟨first, rest, rfl⟩ := List.exists_cons_of_ne_nil hpart
    have hn : f.elements ≠ [] := List.ne_nil_of_mem (mem_of_mem_split hp List.mem_cons_self)
    exact hvalid _ hn hp hcomplete
  · have hcomma : ∀ e ∈ f.elements, e.kind ≠ .comma := by
      intro e he hk
      have hsome := h.comma e he hk
      rw [hnone] at hsome
      cases hsome
    refine ⟨rfl, Element.partsValid_iff.2 (List.forall_mem_singleton.2 ?_)⟩
    refine hvalid _ hn ?_ hcomplete
    rw [splitAtCommas_of_ne hcomma]
    exact List.mem_singleton_self _

end Closing

end Calculator
