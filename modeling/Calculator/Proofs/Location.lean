import Calculator.Proofs.Derivation
import Calculator.Proofs.Tiling
/-!
Locations of faults. Every failure of the reading is a fault that lies in the text, where the token
that it tells of stands (`parse_located`): each step of a reading over tokens that stand in the text,
or are multiplications put behind a number or a name, keeps what its own faults need.
-/
namespace Calculator

/-- The lexeme of the token stands at its position. -/
structure Token.StandsIn (text : List Char) (t : Token) : Prop where
  lexical : t.IsLexical
  front : t.lexeme <+: text.drop t.position

/-- The fault is at a position in the text, where the token stands that it tells of; it is neither a
second name in a row nor a text without elements. -/
structure ParseFault.LiesIn (text : List Char) (position : Nat) (fault : ParseFault) : Prop where
  inside : position ≤ text.length
  token : ∀ token, fault.token? = some token → token ≠ "" ∧ token.toList <+: text.drop position
  not_name : ∀ name, fault ≠ .unexpectedName name
  not_empty : fault ≠ .emptyText

def Failure.LiesIn (text : List Char) (failure : Failure) : Prop :=
  ∃ fault position, failure = .parse fault position ∧ fault.LiesIn text position

/-- The attempt gives what is asked of it, or fails as it may. -/
def Attempt.Meets {α : Type} (fails : Failure → Prop) (gives : α → Prop) : Attempt α → Prop
  | .ok a => gives a
  | .error failure => fails failure

section Attempts

variable {α β : Type} {fails : Failure → Prop} {gives : α → Prop} {more : β → Prop}
  {attempt : Attempt α} {next : α → Attempt β}

theorem Attempt.Meets.bind (h : attempt.Meets fails gives)
    (hn : ∀ a, attempt = .ok a → gives a → (next a).Meets fails more) :
    Attempt.Meets fails more (attempt >>= next) := by
  cases ha : attempt with
  | error failure =>
    rw [ha] at h
    exact h
  | ok a =>
    rw [ha] at h
    exact hn a ha h

end Attempts

variable {scope : Scope} {text : List Char} {kind : TokenKind} {t name last : Token}
  {tokens found : List Token} {f : Frame} {r r' : Reading} {e : Element} {fault : ParseFault}
  {position : Nat}

section Faults

/-- The fault is neither a second name in a row nor a text without elements. -/
def ParseFault.canArise : ParseFault → Bool
  | .unexpectedName _ | .emptyText => false
  | _ => true

theorem ParseFault.ne_unexpectedName (h : fault.canArise = true) (name : String) :
    fault ≠ .unexpectedName name := by
  rintro rfl
  exact Bool.false_ne_true h

theorem ParseFault.ne_emptyText (h : fault.canArise = true) : fault ≠ .emptyText := by
  rintro rfl
  exact Bool.false_ne_true h

theorem Token.StandsIn.position_lt (h : t.StandsIn text) : t.position < text.length := by
  have hpos := List.length_pos_iff.2 h.lexical.ne_nil
  have hle := h.front.length_le
  rw [List.length_drop] at hle
  omega

theorem refuse_lies {α : Type} {gives : α → Prop} (h : fault.LiesIn text position) :
    Attempt.Meets (Failure.LiesIn text) gives (refuse fault position) :=
  ⟨fault, position, rfl, h⟩

/-- A fault that tells of a token at its position. -/
theorem Token.StandsIn.lies (h : t.StandsIn text) (ht : fault.token? = some t.text)
    (ha : fault.canArise = true) : fault.LiesIn text t.position where
  inside := h.position_lt.le
  token k hk := by
    rw [ht] at hk
    cases hk
    rw [Token.text, String.toList_ofList]
    refine ⟨fun hempty => h.lexical.ne_nil ?_, h.front⟩
    exact String.ofList_eq_empty_iff.1 hempty
  not_name := ParseFault.ne_unexpectedName ha
  not_empty := ParseFault.ne_emptyText ha

theorem Frame.checkComplete_meets (f : Frame) (hp : position ≤ text.length) :
    (f.checkComplete position).Meets (Failure.LiesIn text) fun _ => True := by
  rw [Frame.checkComplete]
  split
  · trivial
  · split
    · trivial
    · refine refuse_lies ⟨hp, fun token ht => ?_, ParseFault.ne_unexpectedName rfl,
        ParseFault.ne_emptyText rfl⟩
      cases ht

theorem Frame.check_meets (f : Frame) (e : Element) (h : t.StandsIn text) :
    (f.check e t).Meets (Failure.LiesIn text) fun _ => True := by
  rw [Frame.check]
  split
  · split
    · trivial
    · exact refuse_lies (h.lies rfl rfl)
  · split
    · trivial
    · exact refuse_lies (h.lies rfl rfl)

theorem Frame.push_meets (f : Frame) (e : Element) (h : t.StandsIn text) :
    (f.push e t).Meets (Failure.LiesIn text) (· = f.extend [e]) :=
  (f.check_meets e h).bind fun _ _ _ => rfl

/-- The mark of a token of a kind with one lexeme only. -/
theorem Token.StandsIn.mark (h : t.StandsIn text) :
    (t.kind = .comma → t.text = ",") ∧ (t.kind = .opening → t.lexeme = ['(']) ∧
      (t.kind = .closing → t.text = ")") := by
  obtain ⟨kind, lexeme, position⟩ := t
  have hl : Lexical kind lexeme := h.lexical
  cases hl with
  | comma => exact ⟨fun _ => rfl, nofun, nofun⟩
  | opening => exact ⟨nofun, fun _ => rfl, nofun⟩
  | closing => exact ⟨nofun, nofun, fun _ => rfl⟩
  | _ => exact ⟨nofun, nofun, nofun⟩

theorem Frame.close_meets (f : Frame) (scope : Scope) (h : t.StandsIn text)
    (ht : t.kind = .closing) :
    (f.close scope t).Meets (Failure.LiesIn text) fun _ => True := by
  apply (f.checkComplete_meets h.position_lt.le).bind
  intro _ _ _
  split
  · trivial
  · split
    · exact refuse_lies (h.lies (congrArg some (h.mark.2.2 ht).symm) rfl)
    · trivial

end Faults

section Steps

/-- What may follow a token of the kind: a token that stands in the text, which is no second name in
a row, or behind a number or a name a multiplication that is understood. -/
inductive Token.MayFollow (text : List Char) (kind : TokenKind) (t : Token) : Prop
  | stands (h : t.StandsIn text) (hk : kind = .identifier → t.kind ≠ .identifier)
  | product (hk : kind = .number ∨ kind = .identifier) (h : t.IsOperator .multiply)

/-- What a reading that has come behind a token of the kind needs for its faults: the text has an
opening parenthesis for each frame but the bottom one, a name is held back behind a name only, and
behind a number or a name an operator may come. -/
structure Reading.Behind (text : List Char) (kind : TokenKind) (r : Reading) : Prop where
  opened : ∀ p ∈ ((r.top :: r.below).map Frame.position).dropLast, ['('] <+: text.drop p
  held : ∀ name, r.held = some name → name.StandsIn text ∧ kind = .identifier
  operand : kind = .number ∨ kind = .identifier →
    r.held.isSome = true ∨ ∃ last, r.top.last? = some last ∧ last.isOperand = true

theorem Reading.Behind.mark
    (ho : ∀ p ∈ ((r.top :: r.below).map Frame.position).dropLast, ['('] <+: text.drop p)
    (hheld : r.held = none) (hn : kind ≠ .number) (hi : kind ≠ .identifier) :
    r.Behind text kind where
  opened := ho
  held name hs := by
    rw [hheld] at hs
    cases hs
  operand hk := absurd hk (not_or.2 ⟨hn, hi⟩)

theorem Frame.position_beforeGroup (f : Frame) : f.beforeGroup.position = f.position := by
  rw [Frame.beforeGroup]
  split
  · split <;> rfl
  · rfl

theorem Reading.opening_meets (h : r.Behind text kind) (hs : t.StandsIn text)
    (ht : t.kind = .opening) :
    (r.opening scope t).Meets (Failure.LiesIn text) (Reading.Behind text t.kind) := by
  have hopen : ['('] <+: text.drop t.position := by
    rw [← hs.mark.2.1 ht]
    exact hs.front
  have hbehind (callee : Option String) (outer : Frame) (hp : outer.position = r.top.position) :
      Reading.Behind text t.kind ⟨⟨t.position, callee, []⟩, outer :: r.below, none⟩ := by
    refine .mark ?_ rfl (by rw [ht]; decide) (by rw [ht]; decide)
    simp only [List.map_cons, hp, List.dropLast_cons_cons]
    exact List.forall_mem_cons.2 ⟨hopen, h.opened⟩
  rw [Reading.opening]
  split
  · next name hheld =>
    apply (r.top.check_meets _ (h.held name hheld).1).bind
    intro _ _ _
    exact hbehind _ _ rfl
  · apply (r.top.check_meets _ hs).bind
    intro _ _ _
    exact hbehind _ _ r.top.position_beforeGroup

/-- Once a name is released, an operator may come behind a number or a name. -/
theorem Reading.release_meets (h : r.Behind text kind) (ht : t.kind = .number → t.StandsIn text) :
    (r.release t).Meets (Failure.LiesIn text) fun r' => r'.Behind text kind ∧ r'.held = none := by
  rw [Reading.release]
  split
  · next hheld => exact ⟨h, hheld⟩
  · next name hheld =>
    split
    · next hk => exact refuse_lies ((ht hk).lies rfl rfl)
    · apply (r.top.push_meets _ (h.held name hheld).1).bind
      rintro top - rfl
      refine ⟨⟨h.opened, fun _ hn => ?_, fun _ => .inr ⟨.variable name.text, ?_, rfl⟩⟩, rfl⟩
      · cases hn
      · exact r.top.last?_extend_concat [] (.variable name.text)

theorem Reading.pushOnTop_meets (h : r.Behind text kind) (hheld : r.held = none)
    (hs : t.StandsIn text) (hi : t.kind ≠ .identifier)
    (he : t.kind = .number → e.isOperand = true) :
    (r.pushOnTop e t).Meets (Failure.LiesIn text) (Reading.Behind text t.kind) := by
  apply (r.top.push_meets e hs).bind
  rintro top - rfl
  refine ⟨h.opened, fun name hn => ?_, fun hk => .inr ⟨e, ?_, he (hk.resolve_right hi)⟩⟩
  · rw [hheld] at hn
    cases hn
  · exact r.top.last?_extend_concat [] e

theorem exists_value (h : t.IsLexical) (ht : t.kind = .number) :
    ∃ x, Decimal.readChars? t.lexeme = some x := by
  rw [Token.IsLexical, ht] at h
  cases h with
  | number h =>
    obtain ⟨x, _, hx⟩ := h.read
    exact ⟨x, hx⟩

theorem exists_isOperator (h : t.IsLexical) (ht : t.kind = .operator) : ∃ op, t.IsOperator op := by
  have hl := h
  rw [Token.IsLexical, ht] at hl
  generalize hm : t.lexeme = lexeme at hl
  cases hl with
  | operator op => exact ⟨op, ht, hm⟩

/-- A multiplication that is understood is pushed without a fault. -/
theorem Reading.product_meets (h : r.Behind text kind) (hheld : r.held = none)
    (hk : kind = .number ∨ kind = .identifier) (ht : t.IsOperator .multiply) :
    (r.pushOnTop (.operator .multiply) t).Meets (Failure.LiesIn text)
      (Reading.Behind text t.kind) := by
  obtain ⟨last, hl, ho⟩ : ∃ last, r.top.last? = some last ∧ last.isOperand = true := by
    rcases h.operand hk with hsome | hlast
    · rw [hheld] at hsome
      cases hsome
    · exact hlast
  have hcheck : r.top.check (.operator .multiply) t = .ok () :=
    Frame.check_of_last? hl (allows_behind_operand ho (.inl rfl))
  rw [Reading.pushOnTop, Frame.push_eq hcheck]
  exact .mark h.opened hheld (by rw [ht.1]; decide) (by rw [ht.1]; decide)

theorem Reading.closing_meets (h : r.Behind text kind) (hheld : r.held = none)
    (hs : t.StandsIn text) (ht : t.kind = .closing) :
    (r.closing scope t).Meets (Failure.LiesIn text) (Reading.Behind text t.kind) := by
  rw [Reading.closing]
  split
  · exact refuse_lies (hs.lies (congrArg some (hs.mark.2.2 ht).symm) rfl)
  · next outer below hbelow =>
    apply (r.top.close_meets scope hs ht).bind
    intro e _ _
    refine .mark (fun p hp => ?_) hheld (by rw [ht]; decide) (by rw [ht]; decide)
    apply h.opened p
    rw [hbelow]
    exact List.mem_cons_of_mem _ hp

theorem Reading.plain_meets (h : r.Behind text kind) (hheld : r.held = none)
    (hf : t.MayFollow text kind) (hi : t.kind ≠ .identifier) :
    (r.plain scope t).Meets (Failure.LiesIn text) (Reading.Behind text t.kind) := by
  cases hf with
  | product hk ht =>
    simp only [Reading.plain, ht.1, Reading.operator, ht.ofLexeme?]
    have hmeets := Reading.product_meets h hheld hk ht
    rw [ht.1] at hmeets
    exact hmeets
  | stands hs _ =>
    rw [Reading.plain.eq_def]
    split
    · next hk =>
      obtain ⟨x, hx⟩ := exists_value hs.lexical hk
      rw [Reading.number, hx]
      exact Reading.pushOnTop_meets h hheld hs hi fun _ => rfl
    · next hk =>
      obtain ⟨op, hop⟩ := exists_isOperator hs.lexical hk
      rw [Reading.operator, hop.ofLexeme?]
      exact Reading.pushOnTop_meets h hheld hs hi fun hn => by rw [hk] at hn; cases hn
    · next hk =>
      split
      · exact refuse_lies (hs.lies (congrArg some (hs.mark.1 hk).symm) rfl)
      · exact Reading.pushOnTop_meets h hheld hs hi fun hn => by rw [hk] at hn; cases hn
    · next hk => exact Reading.closing_meets h hheld hs hk
    · next hn _ _ _ => exact .mark h.opened hheld hn hi

theorem Reading.step_meets (h : r.Behind text kind) (hf : t.MayFollow text kind) :
    (r.step scope t).Meets (Failure.LiesIn text) (Reading.Behind text t.kind) := by
  have hstands (hk : t.kind ≠ .operator) : t.StandsIn text := by
    cases hf with
    | stands hs _ => exact hs
    | product _ ht => exact absurd ht.1 hk
  rw [Reading.step.eq_def]
  split
  · next hk =>
    have hs := hstands (by rw [hk]; decide)
    have hnone : r.held = none := by
      cases hheld : r.held with
      | none => rfl
      | some name =>
        cases hf with
        | stands _ hn => exact absurd hk (hn (h.held name hheld).2)
        | product _ ht =>
          rw [ht.1] at hk
          cases hk
    rw [hnone]
    refine ⟨h.opened, ?_, fun _ => .inl rfl⟩
    rintro name ⟨⟩
    exact ⟨hs, hk⟩
  · next hk => exact Reading.opening_meets h (hstands (by rw [hk]; decide)) hk
  · next hi _ =>
    apply (Reading.release_meets h fun hk => hstands (by rw [hk]; decide)).bind
    rintro r' - ⟨hr', hheld⟩
    exact Reading.plain_meets hr' hheld hf hi

/-- Tokens each of which may follow the one in front of it, the first one a token of the kind. -/
inductive Sourced (text : List Char) : TokenKind → List Token → Prop
  | nil {kind : TokenKind} : Sourced text kind []
  | cons {kind : TokenKind} {t : Token} {tokens : List Token} (h : t.MayFollow text kind)
      (hr : Sourced text t.kind tokens) : Sourced text kind (t :: tokens)

theorem Sourced.run (hs : Sourced text kind tokens) (h : r.Behind text kind) :
    Attempt.Meets (Failure.LiesIn text) (fun r' => ∃ kind, r'.Behind text kind)
      (tokens.foldlM (Reading.step scope) r) := by
  induction hs generalizing r with
  | nil => exact ⟨_, h⟩
  | cons hf _ ih =>
    rw [List.foldlM_cons]
    apply (Reading.step_meets h hf).bind
    intro r' _ hr'
    exact ih hr'

theorem Reading.start_behind : Reading.Behind text .opening {} :=
  .mark nofun rfl nofun nofun

theorem Reading.finish_meets (h : r.Behind text kind)
    (hne : r.below = [] → r.top.elements ≠ []) :
    (r.finish text.length).Meets (Failure.LiesIn text) fun _ => True := by
  rw [Reading.finish]
  split
  · next hbelow =>
    obtain ⟨outer, below, hb⟩ := List.exists_cons_of_ne_nil (by simpa using hbelow)
    have hopen : ['('] <+: text.drop r.top.position := by
      apply h.opened
      rw [hb, List.map_cons, List.map_cons, List.dropLast_cons_cons]
      exact List.mem_cons_self
    have hle := hopen.length_le
    rw [List.length_drop, List.length_singleton] at hle
    refine refuse_lies ⟨by omega, ?_, ParseFault.ne_unexpectedName rfl,
      ParseFault.ne_emptyText rfl⟩
    rintro token ⟨⟩
    exact ⟨by decide, hopen⟩
  · next hbelow =>
    have hnil : r.below = [] := by simpa using hbelow
    split
    · next he => exact absurd (List.isEmpty_iff.1 he) (hne hnil)
    · exact (r.top.checkComplete_meets le_rfl).bind fun _ _ _ => trivial

end Steps

section Texts

theorem Tiles.standsIn {start stop : Nat} (h : Tiles text start stop found) (ht : t ∈ found) :
    t.StandsIn text :=
  ⟨(h.longest t ht).lexical, (h.longest t ht).front⟩

/-- What is found in a text may follow one another, with the multiplications that are understood. -/
theorem sourced_multiplied (hs : ∀ t ∈ found, t.StandsIn text)
    (hk : kind = .identifier → ∀ t, found.head? = some t → t.kind ≠ .identifier) :
    Sourced text kind (multiplied found (.atEnd position)) := by
  induction found generalizing kind with
  | nil => exact .nil
  | cons t found ih =>
    have ht : t.MayFollow text kind := .stands (hs t List.mem_cons_self) fun hi => hk hi t rfl
    cases found with
    | nil =>
      rw [multiplied_singleton, Token.product_atEnd]
      exact .cons ht .nil
    | cons next found =>
      have hrest := fun u hu => hs u (List.mem_cons_of_mem t hu)
      rw [multiplied_cons, Token.product]
      refine .cons ht ?_
      split
      · next hp => exact .cons (.product hp.1 ⟨rfl, rfl⟩) (ih hrest fun hi => by cases hi)
      · next hp =>
        refine ih hrest fun hi u hu => ?_
        cases hu
        exact fun hn => hp ⟨.inr hi, hn⟩

theorem Tiles.sourced (h : Tiles text 0 text.length found) :
    Sourced text .opening (multiplied found (.atEnd position)) :=
  sourced_multiplied (fun _ ht => h.standsIn ht) nofun

theorem Sourced.lexical (h : Sourced text kind tokens) : ∀ t ∈ tokens, t.IsLexical := by
  induction h with
  | nil => exact List.forall_mem_nil _
  | cons hf _ ih =>
    refine List.forall_mem_cons.2 ⟨?_, ih⟩
    cases hf with
    | stands hs _ => exact hs.lexical
    | product _ ht =>
      rw [Token.IsLexical, ht.1, ht.2]
      exact .operator .multiply

theorem Lexical.kind_ne_ending {kind : TokenKind} {lexeme : List Char} (h : Lexical kind lexeme) :
    kind ≠ .ending := by
  cases h <;> exact (nomatch ·)

/-- The token behind all others only releases a name. -/
theorem Reading.step_atEnd (r : Reading) (scope : Scope) (position : Nat) :
    r.step scope (.atEnd position) = r.release (.atEnd position) := by
  change (r.release (.atEnd position) >>= fun r => pure r) = _
  exact bind_pure _

/-- Behind some tokens the bottom frame is not empty, once a name is released. -/
theorem HasRead.elements_ne_nil (h : HasRead scope tokens r) (ht : tokens ≠ [])
    (hr : r.release t = .ok r') (hb : r'.below = []) : r'.top.elements ≠ [] := by
  intro hnil
  obtain ⟨_, ts, us, vs, xs, ys, rfl, he, hbelow, hl, hpart⟩ := h.release hr
  obtain ⟨rfl, rfl⟩ := List.append_eq_nil_iff.1 (he.symm.trans hnil)
  rw [hb] at hbelow
  generalize r'.top.callee = callee at hbelow hl
  cases hbelow with
  | nil => exact ht (by rw [hl.eq_nil, hpart.eq_nil]; rfl)

theorem read_meets (hs : Sourced text .opening tokens) (ht : tokens ≠ []) :
    Attempt.Meets (Failure.LiesIn text) (fun _ => True)
      ((tokens ++ [Token.atEnd position]).foldlM (Reading.step scope) {} >>= fun r =>
        r.finish text.length) := by
  rw [List.foldlM_append, bind_assoc]
  apply (hs.run Reading.start_behind).bind
  rintro r hr ⟨kind, hbehind⟩
  have hread := HasRead.start.run (fun t ht => (hs.lexical t ht).kind_ne_ending) hr
  rw [List.foldlM_cons, Reading.step_atEnd, bind_assoc]
  apply (Reading.release_meets hbehind fun hk => by cases hk).bind
  rintro r' hr' ⟨hbehind', _⟩
  exact Reading.finish_meets hbehind' (hread.elements_ne_nil ht hr')

theorem ParseFault.StopsScan.token {cs : List Char} (h : fault.StopsScan cs) :
    ∀ token, fault.token? = some token → token ≠ "" ∧ token.toList <+: cs := by
  intro token hk
  rcases h with ⟨_, run, hrun, ht⟩ | ⟨_, ⟨c, hc, _, ht⟩, _⟩
  · rw [ht] at hk
    cases hk
    rw [String.toList_ofList]
    refine ⟨fun he => ?_, hrun.longest ▸ List.takeWhile_prefix _⟩
    have hpoints := hrun.points
    rw [String.ofList_eq_empty_iff.1 he] at hpoints
    cases hpoints
  · rw [ht] at hk
    cases hk
    obtain ⟨rest, rfl⟩ := List.head?_eq_some_iff.1 hc
    rw [Char.toString_eq_singleton, String.toList_singleton]
    exact ⟨String.singleton_ne_empty, ⟨rest, rfl⟩⟩

theorem ParseFault.StopsScan.message {cs : List Char} (h : fault.StopsScan cs) :
    fault.message = "Malformed numeric literal" ∨ fault.message = "Invalid character" :=
  h.imp And.left And.left

theorem ParseFault.StopsScan.lies (h : fault.StopsScan (text.drop position))
    (hp : position ≤ text.length) : fault.LiesIn text position where
  inside := hp
  token := h.token
  not_name name he := by
    have hne : ¬ ("Unexpected name" = "Malformed numeric literal" ∨
        "Unexpected name" = "Invalid character") := by decide
    have hm := h.message
    rw [he] at hm
    exact hne hm
  not_empty he := by
    have hne : ¬ ("Empty expression" = "Malformed numeric literal" ∨
        "Empty expression" = "Invalid character") := by decide
    have hm := h.message
    rw [he] at hm
    exact hne hm

theorem scanText_meets (text : List Char) :
    (scanText text).Meets (Failure.LiesIn text) fun tokens =>
      ∃ found, Tiles text 0 text.length found ∧
        tokens = multiplied found (.atEnd text.length) ++ [.atEnd text.length] := by
  cases h : scanText text with
  | ok tokens => exact tiles_of_scanText h
  | error failure =>
    obtain ⟨_, fault, position, rfl, _, hlt, hfault⟩ := stops_of_scanText h
    exact ⟨fault, position, rfl, hfault.lies hlt.le⟩

theorem readElements_meets (scope : Scope) (text : List Char) :
    (readElements scope text).Meets (Failure.LiesIn text) fun _ => True := by
  rw [readElements]
  split
  · trivial
  · next hb =>
    apply (scanText_meets text).bind
    rintro tokens _ ⟨found, htiles, rfl⟩
    exact read_meets htiles.sourced (multiplied_ne_nil (htiles.ne_nil (Bool.eq_false_iff.2 hb)))

theorem parse_meets (scope : Scope) (text : String) :
    Attempt.Meets (Failure.LiesIn text.toList) (fun _ => True)
      (Formula.parse scope text).result := by
  rw [Formula.parse_result, Formula.ofText]
  exact (readElements_meets scope text.toList).bind fun _ _ _ => trivial

/-- Behind a token there are only blanks up to the next one. -/
theorem Tiles.blank_between {start stop i : Nat} {next : Token}
    (h : Tiles text start stop found) (hn : [t, next] <:+: found) (ht : t.stop ≤ i)
    (hi : i < next.position) : ∃ c, text[i]? = some c ∧ Text.isBlank c = true := by
  have hmem : t ∈ found ∧ next ∈ found :=
    ⟨hn.subset List.mem_cons_self, hn.subset (List.mem_cons_of_mem t List.mem_cons_self)⟩
  have hstart : start ≤ i := by
    have hle := (h.within t hmem.1).1
    rw [Token.stop] at ht
    omega
  have hstop : i < stop := by
    have hle := (h.within next hmem.2).2
    rw [Token.stop] at hle
    omega
  rcases h.covered i hstart hstop with ⟨u, hu, hui, hiu⟩ | hb
  · exfalso
    obtain ⟨before, behind, rfl⟩ := hn
    have hordered := h.ordered
    rw [List.append_assoc, List.pairwise_append, List.pairwise_append] at hordered
    obtain ⟨-, ⟨-, -, hbehind⟩, hbefore⟩ := hordered
    simp only [List.mem_append, List.mem_cons, List.not_mem_nil, or_false] at hu hbehind hbefore
    rcases hu with (hu | rfl | rfl) | hu
    · have hle := (hbefore u hu t (.inl (.inl rfl))).2
      rw [Token.stop] at ht
      omega
    · omega
    · omega
    · have hlt := (hbehind next (.inr rfl) u hu).1
      omega
  · exact hb

/-- Where a multiplication is put between two tokens, the text has none. -/
theorem Tiles.product_not_front {start stop : Nat} {next star : Token}
    (h : Tiles text start stop found) (hn : [t, next] <:+: found) (hs : star ∈ t.product next) :
    ¬ star.lexeme <+: text.drop star.position := by
  rw [Token.product] at hs
  split at hs
  · next hk =>
    cases List.mem_singleton.1 hs
    rintro ⟨rest, hrest⟩
    have hnext : next ∈ found := hn.subset (List.mem_cons_of_mem t List.mem_cons_self)
    have hle : t.stop ≤ next.position := by
      obtain ⟨before, behind, rfl⟩ := hn
      have hordered := (h.ordered.sublist (List.sublist_append_left _ behind)).sublist
        (List.sublist_append_right before _)
      exact (List.rel_of_pairwise_cons hordered List.mem_cons_self).2
    rcases Nat.eq_or_lt_of_le hle with he | hlt
    · have hlexeme := (h.longest next hnext).lexical
      have hfront := (h.longest next hnext).front
      rw [hk.2] at hlexeme
      cases hlexeme with
      | identifier hname =>
        obtain ⟨c, cs, hcs, hc, _⟩ := hname
        rw [hcs, ← he, ← hrest] at hfront
        obtain ⟨rfl, _⟩ := List.cons_prefix_cons.1 hfront
        cases hc
    · obtain ⟨c, hc, hb⟩ := h.blank_between hn le_rfl hlt
      rw [getElem?_of_drop hrest.symm] at hc
      cases hc
      cases hb
  · cases hs

/-- A text is read as a formula or refused with a fault that lies in it; the fault never tells of a
multiplication that is put in. Every number that is scanned has a value, and every operator a
meaning. -/
theorem parse_located (scope : Scope) (text : String) :
    ((∃ f, (Formula.parse scope text).result = .ok f) ∨
      ∃ fault position, (Formula.parse scope text).result = .error (.parse fault position) ∧
        fault.LiesIn text.toList position ∧
        ∀ found, Tiles text.toList 0 text.toList.length found → ∀ t next, [t, next] <:+: found →
          ∀ star ∈ t.product next, star.position = position → fault.token? ≠ some star.text) ∧
    ∀ tokens, scanText text.toList = .ok tokens → ∀ t ∈ tokens,
      (t.kind = .number → ∃ x, Decimal.readChars? t.lexeme = some x) ∧
      (t.kind = .operator → ∃ op, Operator.ofLexeme? t.lexeme = some op) := by
  refine ⟨?_, fun tokens hs t ht => ?_⟩
  · have hmeets := parse_meets scope text
    cases h : (Formula.parse scope text).result with
    | ok f => exact .inl ⟨f, rfl⟩
    | error failure =>
      rw [h] at hmeets
      obtain ⟨fault, position, rfl, hlies⟩ := hmeets
      refine .inr ⟨fault, position, rfl, hlies, ?_⟩
      rintro found htiles t next hn star hstar rfl htoken
      have hfront := (hlies.token star.text htoken).2
      rw [Token.text, String.toList_ofList] at hfront
      exact htiles.product_not_front hn hstar hfront
  · obtain ⟨found, htiles, rfl⟩ := tiles_of_scanText hs
    rcases List.mem_append.1 ht with ht | ht
    · have hl := htiles.sourced.lexical t ht
      refine ⟨exists_value hl, fun hk => ?_⟩
      obtain ⟨op, hop⟩ := exists_isOperator hl hk
      exact ⟨op, hop.ofLexeme?⟩
    · cases List.mem_singleton.1 ht
      exact ⟨nofun, nofun⟩

end Texts

end Calculator
