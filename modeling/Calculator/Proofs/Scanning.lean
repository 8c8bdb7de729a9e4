import Calculator.Operator
import Calculator.Proofs.Numeral
/-!
Scanned tokens. `Lexical` tells the lexemes of each kind of token; a lexeme that nothing goes on
with is scanned as one token (`Lexical.scans`), and pieces that are kept apart are scanned one by
one (`Scans.append`).
-/
namespace Calculator

theorem exists_of_bind_ok {ε α β : Type} {r : Except ε α} {next : α → Except ε β} {b : β}
    (h : (r >>= next) = .ok b) : ∃ a, r = .ok a ∧ next a = .ok b := by
  cases r with
  | error e => cases h
  | ok a => exact ⟨a, rfl, h⟩

def IsName (cs : List Char) : Prop :=
  ∃ c rest, cs = c :: rest ∧ Lexeme.isNameStart c = true ∧ ∀ d ∈ rest, Lexeme.isNameChar d = true

inductive Lexical : TokenKind → List Char → Prop
  | number {l : List Char} (h : Numeral l) : Lexical .number l
  | identifier {l : List Char} (h : IsName l) : Lexical .identifier l
  | operator (op : Operator) : Lexical .operator [op.symbol]
  | comma : Lexical .comma [',']
  | opening : Lexical .opening ['(']
  | closing : Lexical .closing [')']

def Token.IsLexical (t : Token) : Prop := Lexical t.kind t.lexeme

section Front

variable {c : Char} {rest l : List Char} {kind : TokenKind}

theorem exists_symbol (h : Lexeme.isOperator c = true) : ∃ op : Operator, op.symbol = c := by
  simp only [Lexeme.isOperator, Bool.or_eq_true, decide_eq_true_eq] at h
  rcases h with (((h | h) | h) | h) | h
  · exact ⟨.power, h.symm⟩
  · exact ⟨.multiply, h.symm⟩
  · exact ⟨.divide, h.symm⟩
  · exact ⟨.add, h.symm⟩
  · exact ⟨.subtract, h.symm⟩

/-- A text that begins neither with a digit nor with a point has no number in front. -/
theorem Front.no_number (rest : List Char) (hd : Text.isDigit c = false) (hp : c ≠ '.') :
    Lexeme.malformed? (c :: rest) = none ∧ Lexeme.number? (c :: rest) = none := by
  have hdp : Lexeme.isDigitOrPoint c = false := by simp [Lexeme.isDigitOrPoint, hd, hp]
  refine ⟨?_, ?_⟩
  · simp [Lexeme.malformed?, hdp]
  · simp [Lexeme.number?, Lexeme.fraction, hd, hp]

theorem isDigit_of_toNat (h : c.toNat < 0x30 ∨ (0x39 < c.toNat ∧ c.toNat < 0x660)) :
    Text.isDigit c = false := by
  refine Bool.eq_false_iff.2 fun hd => ne_of_isDigit hd h rfl

theorem isNameStart_toNat (h : Lexeme.isNameStart c = true) :
    0x41 ≤ c.toNat ∧ c.toNat ≤ 0x7A := by
  simp only [Lexeme.isNameStart, Bool.or_eq_true, decide_eq_true_eq] at h
  rcases h with h | h
  · rcases Bool.or_eq_true_iff.1 h with h | h
    · have hu : 0x41 ≤ c.toNat ∧ c.toNat ≤ 0x5A := of_decide_eq_true h
      omega
    · obtain ⟨hl, hu⟩ := Bool.and_eq_true_iff.1 h
      have hl' : 0x61 ≤ c.toNat := of_decide_eq_true hl
      have hu' : c.toNat ≤ 0x7A := of_decide_eq_true hu
      omega
  · rw [h]; decide

theorem isBlank_of_isNameStart (h : Lexeme.isNameStart c = true) : Text.isBlank c = false := by
  have hn := isNameStart_toNat h
  simp only [Text.isBlank, Bool.or_eq_false_iff, Bool.and_eq_false_iff, decide_eq_false_iff_not,
    beq_eq_false_iff_ne]
  omega

theorem isBlank_of_isNameChar (h : Lexeme.isNameChar c = true) : Text.isBlank c = false := by
  simp only [Lexeme.isNameChar, Char.isAlphanum, Bool.or_eq_true, decide_eq_true_eq] at h
  rcases h with (h | h) | h
  · exact isBlank_of_isNameStart (by simp [Lexeme.isNameStart, h])
  · obtain ⟨hl, hu⟩ := Bool.and_eq_true_iff.1 h
    have hl' : 0x30 ≤ c.toNat := of_decide_eq_true hl
    have hu' : c.toNat ≤ 0x39 := of_decide_eq_true hu
    simp only [Text.isBlank, Bool.or_eq_false_iff, Bool.and_eq_false_iff, decide_eq_false_iff_not,
      beq_eq_false_iff_ne]
    omega
  · exact isBlank_of_isNameStart (by simp [Lexeme.isNameStart, h])

theorem isBlank_of_continues (h : continues c = true) : Text.isBlank c = false := by
  simp only [continues, Bool.or_eq_true, decide_eq_true_eq] at h
  rcases h with ((h | h) | h) | h
  · exact isBlank_of_isDigit h
  all_goals rw [h]; decide

theorem Front.of_name (hc : Lexeme.isNameStart c = true) (hr : Stops Lexeme.isNameChar rest)
    (hl : ∀ d ∈ l, Lexeme.isNameChar d = true) :
    Front.of c (l ++ rest) = .token .identifier (c :: l) := by
  have hn := isNameStart_toNat hc
  have hp : c ≠ '.' := by
    intro he
    rw [he] at hn
    exact absurd hn.1 (by decide)
  have hd : Text.isDigit c = false := isDigit_of_toNat (.inr (by omega))
  obtain ⟨hm, hnum⟩ := Front.no_number (l ++ rest) hd hp
  simp only [Front.of, hm, hnum, hc, ↓reduceIte, takeWhile_append_of_stops hl hr]

/-- A character that begins no number and no name is a token of its own or none. -/
theorem Front.of_mark (hd : Text.isDigit c = false) (hp : c ≠ '.')
    (hn : Lexeme.isNameStart c = false) :
    Front.of c rest =
      if Lexeme.isOperator c then .token .operator [c]
      else if c = ',' then .token .comma [c]
      else if c = '(' then .token .opening [c]
      else if c = ')' then .token .closing [c]
      else if Text.isBlank c then .blank
      else .invalid := by
  obtain ⟨hm, hnum⟩ := Front.no_number rest hd hp
  simp only [Front.of, hm, hnum, hn, Bool.false_eq_true, ↓reduceIte]

theorem Front.of_blank (h : Text.isBlank c = true) : Front.of c rest = .blank := by
  have hne {p : Char → Bool} (hp : p c = true → Text.isBlank c = false) : p c = false := by
    by_contra hpc
    rw [hp (Bool.not_eq_false _ ▸ hpc)] at h
    cases h
  have hmark {d : Char} (hd : Text.isBlank d = false) : c ≠ d := by
    rintro rfl
    rw [hd] at h
    cases h
  have hop : Lexeme.isOperator c = false := by
    simp only [Lexeme.isOperator, Bool.or_eq_false_iff, decide_eq_false_iff_not]
    exact ⟨⟨⟨⟨hmark rfl, hmark rfl⟩, hmark rfl⟩, hmark rfl⟩, hmark rfl⟩
  rw [Front.of_mark (hne isBlank_of_isDigit) (hmark rfl) (hne isBlank_of_isNameStart), hop,
    if_neg (nomatch ·), if_neg (hmark rfl), if_neg (hmark rfl), if_neg (hmark rfl), if_pos h]

theorem Front.of_symbol (op : Operator) :
    Front.of op.symbol rest = .token .operator [op.symbol] := by
  cases op <;> rw [Front.of_mark (by decide) (by decide) (by decide)] <;> rfl

end Front

def Token.atEnd (position : Nat) : Token := ⟨.ending, [], position⟩

def Complete (tokens : List Token) : Prop :=
  ∃ body position, tokens = body ++ [.atEnd position] ∧ ∀ t ∈ body, t.IsLexical

section Pieces

variable {position : Nat} {kind : TokenKind} {cs ds rest l : List Char} {ts us : List Token}

/-- What follows goes on with no number and no name. -/
def Delimited (rest : List Char) : Prop :=
  ∀ c ∈ rest.head?, c = ' ' ∨ c = ',' ∨ c = '(' ∨ c = ')'

theorem Delimited.nil : Delimited [] := fun _ hc => nomatch hc

theorem delimited_cons {c : Char} (hc : c = ' ' ∨ c = ',' ∨ c = '(' ∨ c = ')') :
    Delimited (c :: rest) := by
  intro d hd
  cases hd
  exact hc

theorem Delimited.stops {p : Char → Bool} (h : Delimited rest)
    (hp : [' ', ',', '(', ')'].any p = false) : Stops p rest := by
  intro c hc
  have hm : c ∈ [' ', ',', '(', ')'] := by simpa using h c hc
  exact Bool.eq_false_iff.2 (List.any_eq_false.1 hp c hm)

/-- The piece `cs` of a text is scanned as the tokens, whatever `rest` is scanned as. -/
def Scans (position : Nat) (cs rest : List Char) (ts : List Token) : Prop :=
  scanFrom position (cs ++ rest) = (do
    let tail ← scanFrom (position + cs.length) rest
    .ok (ts ++ tail))

theorem Scans.nil : Scans position [] rest [] := by
  change scanFrom position rest = (scanFrom position rest >>= pure)
  rw [bind_pure]

theorem Scans.append (hc : Scans position cs (ds ++ rest) ts)
    (hd : Scans (position + cs.length) ds rest us) : Scans position (cs ++ ds) rest (ts ++ us) := by
  rw [Scans, List.append_assoc, hc, hd, bind_assoc, List.length_append, Nat.add_assoc]
  refine congrArg _ (funext fun tail => ?_)
  rw [List.append_assoc]
  rfl

/-- A text that is a piece of its own has the tokens of the piece and the one for the end. -/
theorem Scans.scanFrom (h : Scans position cs [] ts) :
    scanFrom position cs = .ok (ts ++ [.atEnd (position + cs.length)]) := by
  rw [Scans, List.append_nil, Calculator.scanFrom] at h
  exact h

theorem Front.scans_blank {c : Char} (h : Front.of c rest = .blank) :
    Scans position [c] rest [] := by
  rw [Scans, List.singleton_append, scanFrom, h]
  change scanFrom (position + 1) rest = (scanFrom (position + 1) rest >>= pure)
  rw [bind_pure]

def Blanks (cs : List Char) : Prop := ∀ c ∈ cs, Text.isBlank c = true

/-- Blanks are passed over. -/
theorem scans_blanks (h : Blanks cs) : Scans position cs rest [] := by
  induction cs generalizing position with
  | nil => exact .nil
  | cons c cs ih =>
    obtain ⟨hc, hcs⟩ := List.forall_mem_cons.1 h
    exact Scans.append (Front.scans_blank (Front.of_blank hc)) (ih hcs)

theorem scans_blank : Scans position [' '] rest [] := by
  apply scans_blanks
  intro c hc
  rw [List.mem_singleton.1 hc]
  rfl

theorem Front.scans {c : Char} (h : Front.of c (l ++ rest) = .token kind (c :: l)) :
    Scans position (c :: l) rest [⟨kind, c :: l, position⟩] := by
  rw [Scans, List.cons_append, scanFrom, h]
  simp only [List.length_cons, Nat.add_sub_cancel, List.drop_left]
  rfl

/-- A lexeme is scanned as one token if nothing goes on with it. -/
theorem Lexical.scans_of_stops (h : Lexical kind l) (hn : kind = .number → Ends rest)
    (hi : kind = .identifier → Stops Lexeme.isNameChar rest) :
    Scans position l rest [⟨kind, l, position⟩] := by
  cases h with
  | number h =>
    have hends : Ends rest := hn rfl
    obtain ⟨c, cs, rfl, _⟩ := h.head
    have hm := h.malformed?_append hends
    have hnum := h.number?_append hends
    rw [List.cons_append] at hm hnum
    exact Front.scans (by simp only [Front.of, hm, hnum])
  | identifier h =>
    obtain ⟨c, cs, rfl, hs, hc⟩ := h
    exact Front.scans (Front.of_name hs (hi rfl) hc)
  | operator op => exact Front.scans (Front.of_symbol op)
  | comma | opening | closing =>
    apply Front.scans
    rw [Front.of_mark (by decide) (by decide) (by decide)]
    rfl

theorem Lexical.scans (h : Lexical kind l)
    (hr : kind = .number ∨ kind = .identifier → Delimited rest) :
    Scans position l rest [⟨kind, l, position⟩] :=
  h.scans_of_stops (fun hk => (hr (.inl hk)).stops (by decide))
    fun hk => (hr (.inr hk)).stops (by decide)

/-- A lexeme that goes on with nothing is scanned whatever follows it. -/
theorem scans_mark (h : Lexical kind l)
    (hn : kind ≠ .number) (hi : kind ≠ .identifier) :
    Scans position l rest [⟨kind, l, position⟩] :=
  h.scans fun hk => absurd hk (not_or.2 ⟨hn, hi⟩)

theorem scans_name {name : String} (hn : IsName name.toList) (ht : Delimited rest) :
    ∃ t : Token, t.kind = .identifier ∧ t.text = name ∧ Scans position name.toList rest [t] :=
  ⟨⟨.identifier, name.toList, position⟩, rfl, String.ofList_toList,
    (Lexical.identifier hn).scans fun _ => ht⟩

theorem scans_parenthesized (h : Scans (position + 1) cs (')' :: rest) ts) :
    ∃ o c : Token, o.kind = .opening ∧ c.kind = .closing ∧
      Scans position (['('] ++ (cs ++ [')'])) rest (o :: (ts ++ [c])) := by
  have ho : Scans position ['('] (cs ++ [')'] ++ rest) _ :=
    scans_mark .opening (by decide) (by decide)
  rw [← List.singleton_append] at h
  exact ⟨_, _, rfl, rfl, ho.append (h.append (scans_mark .closing (by decide) (by decide)))⟩

end Pieces

end Calculator
