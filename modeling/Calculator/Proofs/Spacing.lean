import Calculator.Proofs.Rendering
import Calculator.Proofs.Seams
/-!
Spacing. The lexemes of a text may be written anew with any blanks between them: the new text has
tokens of the same shapes, and it is read as the same formula or refused as the first text is
(`parse_spaced`).
-/
namespace Calculator

variable {ts us tokens body : List Token} {cs gap text : List Char} {position : Nat}

/-- The lexemes of the tokens in order, with blanks behind each, which are missing at most behind
the last one. -/
inductive Spelled : List Token → List Char → Prop
  | nil : Spelled [] []
  | cons {t : Token} {ts : List Token} {gap cs : List Char} (hg : Blanks gap)
      (hne : ts ≠ [] → gap ≠ []) (h : Spelled ts cs) : Spelled (t :: ts) (t.lexeme ++ (gap ++ cs))

/-- The lexemes of the tokens with blanks between them, in front of them and behind them. -/
def Spaced (ts : List Token) (cs : List Char) : Prop :=
  ∃ front rest, Blanks front ∧ Spelled ts rest ∧ cs = front ++ rest

section Scanned

theorem Blanks.stops {p : Char → Bool} (hg : Blanks gap)
    (hp : ∀ c, p c = true → Text.isBlank c = false) (hne : gap = [] → cs = []) :
    Stops p (gap ++ cs) := by
  cases gap with
  | nil =>
    rw [hne rfl]
    exact Stops.nil p
  | cons c gap =>
    intro d hd
    cases hd
    have hb := hg c List.mem_cons_self
    apply Bool.eq_false_iff.2
    intro hc
    rw [hp c hc] at hb
    cases hb

/-- Lexemes that are kept apart are scanned one by one. -/
theorem Spelled.scans (h : Spelled ts cs) (hl : ∀ t ∈ ts, t.IsLexical) (position : Nat) :
    ∃ us, Scans position cs [] us ∧ us.map Token.shape = ts.map Token.shape := by
  induction h generalizing position with
  | nil => exact ⟨[], .nil, rfl⟩
  | @cons t ts gap cs hg hne h ih =>
    obtain ⟨ht, hts⟩ := List.forall_mem_cons.1 hl
    obtain ⟨us, hs, hshape⟩ := ih hts (position + t.lexeme.length + gap.length)
    have hend : gap = [] → cs = [] := by
      intro hgap
      cases h with
      | nil => rfl
      | cons => exact absurd hgap (hne (List.cons_ne_nil _ _))
    have hstops {p : Char → Bool} (hp : ∀ c, p c = true → Text.isBlank c = false) :
        Stops p (gap ++ cs ++ []) := by
      rw [List.append_nil]
      exact hg.stops hp hend
    have hlexeme : Scans position t.lexeme (gap ++ cs ++ []) [⟨t.kind, t.lexeme, position⟩] :=
      ht.scans_of_stops (fun _ => hstops fun c => isBlank_of_continues)
        fun _ => hstops fun c => isBlank_of_isNameChar
    refine ⟨_, hlexeme.append ((scans_blanks hg).append hs), ?_⟩
    exact congrArg (t.shape :: ·) hshape

theorem Spaced.scans (h : Spaced ts cs) (hl : ∀ t ∈ ts, t.IsLexical) :
    ∃ us, Scans 0 cs [] us ∧ us.map Token.shape = ts.map Token.shape := by
  obtain ⟨front, rest, hfront, hrest, rfl⟩ := h
  obtain ⟨us, hs, hshape⟩ := hrest.scans hl (0 + front.length)
  exact ⟨us, (scans_blanks hfront).append hs, hshape⟩

theorem noProducts_iff : NoProducts ts ↔ (ts.map Token.shape).IsChain fun p q =>
    multiplies ⟨p.1, p.2, 0⟩ ⟨q.1, q.2, 0⟩ = false := by
  rw [List.isChain_map]
  rfl

theorem NoProducts.congr (h : NoProducts ts) (hu : us.map Token.shape = ts.map Token.shape) :
    NoProducts us := by
  rw [noProducts_iff] at h ⊢
  rw [hu]
  exact h

theorem head?_withMultiplications (t : Token) (ts : List Token) :
    (withMultiplications (t :: ts)).head? = some t := by
  cases ts with
  | nil => rfl
  | cons next ts =>
    rw [withMultiplications]
    split <;> rfl

/-- Where multiplications have been put in, none is understood any more. -/
theorem noProducts_withMultiplications (ts : List Token) :
    NoProducts (withMultiplications ts) := by
  induction ts with
  | nil => exact List.isChain_nil
  | cons t ts ih =>
    cases ts with
    | nil => exact noProducts_singleton t
    | cons next ts =>
      rw [withMultiplications]
      split
      · apply (noProducts_singleton t).append_cons (by simp)
        exact ih.cons (by simp)
      · next hm =>
        apply List.isChain_cons.2
        refine ⟨fun u hu => ?_, ih⟩
        rw [head?_withMultiplications] at hu
        cases hu
        exact Bool.eq_false_iff.2 hm

theorem exists_of_scanText (h : scanText text = .ok tokens) :
    ∃ body position, tokens = body ++ [.atEnd position] ∧ (∀ t ∈ body, t.IsLexical) ∧
      NoProducts body ∧ scan text = .ok (body ++ [.atEnd position]) := by
  cases hs : scan text with
  | error e =>
    rw [scanText, hs] at h
    cases h
  | ok scanned =>
    rw [scanText, hs] at h
    cases h
    obtain ⟨body, position, rfl, hl⟩ := scan_complete hs
    obtain ⟨found, _, hfound⟩ := exists_of_bind_ok hs
    have hall : NoProducts (body ++ [.atEnd position]) := by
      rw [← Except.ok.inj hfound]
      exact noProducts_withMultiplications found
    exact ⟨body, position, rfl, hl, (List.isChain_append.1 hall).1, rfl⟩

end Scanned

section Read

variable {text other : String}

/-- A text without tokens is blank. -/
theorem blank_iff (h : scanText text.toList = .ok (body ++ [.atEnd position])) :
    text.toList.all Text.isBlank = true ↔ body = [] := by
  constructor
  · intro hb
    have hs : scan text.toList = .ok ([] ++ [.atEnd _]) :=
      NoProducts.scan List.isChain_nil (scans_blanks (List.all_eq_true.1 hb)) rfl
    rw [scanText, hs] at h
    exact (List.append_inj' (Except.ok.inj h).symm rfl).1
  · intro hbody
    by_contra hb
    obtain ⟨found, htiles, hfound⟩ := tiles_of_scanText h
    obtain ⟨hnil, _⟩ := List.append_inj' hfound rfl
    exact multiplied_ne_nil (htiles.ne_nil (Bool.eq_false_iff.2 hb)) (hnil.symm.trans hbody)

/-- The lexemes of the tokens of a text, the multiplications that are understood included, may be
written with any blanks between them, in front of them and behind them. What is written has tokens
of the same shapes, and it parses as the formula that the text parses as, or like the text it does
not parse. -/
theorem parse_spaced (hs : scanText text.toList = .ok tokens)
    (ho : Spaced tokens.dropLast other.toList) :
    (∃ others, scanText other.toList = .ok others ∧
        others.map Token.shape = tokens.map Token.shape) ∧
      ∀ scope f, (Formula.parse scope other).result = .ok f ↔
        (Formula.parse scope text).result = .ok f := by
  obtain ⟨body, position, rfl, hl, hn, hscan⟩ := exists_of_scanText hs
  rw [List.dropLast_concat] at ho
  obtain ⟨us, hus, hshape⟩ := ho.scans hl
  obtain ⟨stop, hother⟩ : ∃ stop, scan other.toList = .ok (us ++ [.atEnd stop]) :=
    ⟨_, (hn.congr hshape).scan hus rfl⟩
  have hothers : scanText other.toList = .ok (us ++ [.atEnd stop]) := by rw [scanText, hother]
  have hempty : us = [] ↔ body = [] := by
    rw [← List.map_eq_nil_iff (f := Token.shape), hshape, List.map_eq_nil_iff]
  have hblank : other.toList.all Text.isBlank = text.toList.all Text.isBlank :=
    Bool.eq_iff_iff.2 ((blank_iff hothers).trans (hempty.trans (blank_iff hs).symm))
  constructor
  · refine ⟨_, hothers, ?_⟩
    rw [List.map_append, List.map_append, hshape]
    rfl
  · intro scope f
    cases hb : text.toList.all Text.isBlank with
    | true => rw [parse_blank hb, parse_blank (hblank.trans hb)]
    | false =>
      rw [parse_ok_iff hb hscan, parse_ok_iff (hblank.trans hb) hother]
      constructor
      · rintro ⟨bare, elements, hf, rfl⟩
        exact ⟨bare, elements, hf.congr hshape.symm, rfl⟩
      · rintro ⟨bare, elements, hf, rfl⟩
        exact ⟨bare, elements, hf.congr hshape, rfl⟩

def understoodProduct : List Token :=
  [⟨.identifier, ['a'], 0⟩, ⟨.operator, ['*'], 1⟩, ⟨.identifier, ['b'], 2⟩]

/-- The multiplication that is understood in `a b` may be written. -/
theorem parse_spaced_product :
    scanText "a b".toList = .ok (understoodProduct ++ [.atEnd 3]) ∧
      Spaced understoodProduct "\t a *\n b".toList ∧
      (Formula.parse ⟨0, 0⟩ "\t a *\n b").result =
        .ok (.mk ⟨0, 0⟩ [.variable "a", .operator .multiply, .variable "b"]) := by
  have hb : "a b".toList.all Text.isBlank = false := by decide
  have hs : scan "a b".toList = .ok (understoodProduct ++ [.atEnd 3]) := by decide +kernel
  have htokens : scanText "a b".toList = .ok (understoodProduct ++ [.atEnd 3]) := by
    rw [scanText, hs]
  have hblanks (gap : List Char) (h : gap.all Text.isBlank = true) : Blanks gap :=
    List.all_eq_true.1 h
  have hspelled : Spelled understoodProduct ['a', ' ', '*', '\n', ' ', 'b'] :=
    .cons (hblanks [' '] rfl) (by simp) (.cons (hblanks ['\n', ' '] rfl) (by simp)
      (.cons (hblanks [] rfl) (by simp) .nil))
  have ho : Spaced understoodProduct "\t a *\n b".toList :=
    ⟨['\t', ' '], _, hblanks _ rfl, hspelled, by decide⟩
  have ha : IsFormula ⟨0, 0⟩ false [⟨.identifier, ['a'], 0⟩] [.variable "a"] :=
    .start .nil (.variable rfl)
  have hf : IsFormula ⟨0, 0⟩ false understoodProduct
      [.variable "a", .operator .multiply, .variable "b"] :=
    .term ha ⟨rfl, rfl⟩ .nil (.variable rfl)
  exact ⟨htokens, ho, ((parse_spaced htokens ho).2 _ _).2 (hf.parse hb hs)⟩

end Read

end Calculator
