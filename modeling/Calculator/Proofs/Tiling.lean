import Calculator.Parsing
import Calculator.Proofs.Longest
/-!
Tilings. The tokens of a text that can be scanned tile it up to blanks, each with the longest lexeme
of its kind, and only multiplications that are understood are put between them; a text that cannot
be scanned is tiled up to the place of its fault (`scanText_tiles`).
-/
namespace Calculator

/-- The position behind a token. -/
def Token.stop (t : Token) : Nat := t.position + t.lexeme.length

/-- From `start` to `stop` the text consists of blanks and of the lexemes of the tokens, which stand
there in order; each is the longest one of its kind, and none begins a malformed number. -/
structure Tiles (text : List Char) (start stop : Nat) (tokens : List Token) : Prop where
  le : start ≤ stop
  longest : ∀ t ∈ tokens, Longest t.kind (text.drop t.position) t.lexeme
  wellFormed : ∀ t ∈ tokens, ∀ run, ¬ MalformedRun (text.drop t.position) run
  ordered : tokens.Pairwise fun t next => t.position < next.position ∧ t.stop ≤ next.position
  within : ∀ t ∈ tokens, start ≤ t.position ∧ t.stop ≤ stop
  covered : ∀ i, start ≤ i → i < stop → (∃ t ∈ tokens, t.position ≤ i ∧ i < t.stop) ∨
    ∃ c, text[i]? = some c ∧ Text.isBlank c = true

/-- The multiplication that is understood between a number or a name and a name behind it. -/
def Token.product (t next : Token) : List Token :=
  if (t.kind = .number ∨ t.kind = .identifier) ∧ next.kind = .identifier then
    [⟨.operator, ['*'], t.stop⟩]
  else []

/-- Tokens with the multiplications between each of them and the next one, which is `last` for the
last of them. -/
def multiplied (tokens : List Token) (last : Token) : List Token :=
  (tokens.zip (tokens.tail ++ [last])).flatMap fun (t, next) => t :: t.product next

/-- What keeps a text from being scanned stands in front of it. -/
def ParseFault.StopsScan (cs : List Char) (fault : ParseFault) : Prop :=
  (fault.message = "Malformed numeric literal" ∧
    ∃ run, MalformedRun cs run ∧ fault.token? = some (String.ofList run)) ∨
  (fault.message = "Invalid character" ∧
    (∃ c, cs.head? = some c ∧ Text.isBlank c = false ∧ fault.token? = some c.toString) ∧
    ∀ kind l, Lexical kind l → ¬ l <+: cs)

variable {text cs rest l : List Char} {c : Char} {start stop position : Nat} {kind : TokenKind}
  {t next last : Token} {tokens found : List Token}

section Tilings

theorem Tiles.nil : Tiles text start start [] where
  le := le_rfl
  longest := List.forall_mem_nil _
  wellFormed := List.forall_mem_nil _
  ordered := .nil
  within := List.forall_mem_nil _
  covered _ hs he := absurd he (Nat.not_lt.2 hs)

theorem Tiles.blank (h : Tiles text (start + 1) stop tokens) (hc : text[start]? = some c)
    (hb : Text.isBlank c = true) : Tiles text start stop tokens where
  le := Nat.le_of_succ_le h.le
  longest := h.longest
  wellFormed := h.wellFormed
  ordered := h.ordered
  within t ht := ⟨Nat.le_of_succ_le (h.within t ht).1, (h.within t ht).2⟩
  covered i hs he := by
    rcases Nat.eq_or_lt_of_le hs with rfl | hs
    · exact .inr ⟨c, hc, hb⟩
    · exact h.covered i hs he

theorem Tiles.token (h : Tiles text (start + l.length) stop tokens)
    (hl : Longest kind (text.drop start) l) (hm : ∀ run, ¬ MalformedRun (text.drop start) run) :
    Tiles text start stop (⟨kind, l, start⟩ :: tokens) where
  le := Nat.le_of_add_right_le h.le
  longest := List.forall_mem_cons.2 ⟨hl, h.longest⟩
  wellFormed := List.forall_mem_cons.2 ⟨hm, h.wellFormed⟩
  ordered := by
    refine List.pairwise_cons.2 ⟨fun next hn => ?_, h.ordered⟩
    have hpos := List.length_pos_iff.2 hl.lexical.ne_nil
    have hle := (h.within next hn).1
    exact ⟨by simp only; omega, hle⟩
  within := by
    refine List.forall_mem_cons.2 ⟨⟨le_rfl, h.le⟩, fun t ht => ?_⟩
    exact ⟨Nat.le_of_add_right_le (h.within t ht).1, (h.within t ht).2⟩
  covered i hi he := by
    by_cases hin : i < start + l.length
    · exact .inl ⟨_, List.mem_cons_self, hi, hin⟩
    · rcases h.covered i (Nat.le_of_not_lt hin) he with ⟨t, ht, hp⟩ | hb
      · exact .inl ⟨t, List.mem_cons_of_mem _ ht, hp⟩
      · exact .inr hb

theorem getElem?_of_drop (h : text.drop position = c :: rest) : text[position]? = some c := by
  rw [← List.head?_drop, h]
  rfl

theorem lt_length_of_drop (h : text.drop position = c :: rest) : position < text.length :=
  (List.getElem?_eq_some_iff.1 (getElem?_of_drop h)).1

theorem drop_succ_of_drop (h : text.drop position = c :: rest) :
    text.drop (position + 1) = rest := by
  rw [← List.drop_drop, h]
  rfl

end Tilings

/-- A text that is not blank has tokens. -/
theorem Tiles.ne_nil (h : Tiles text 0 text.length found) (hb : text.all Text.isBlank = false) :
    found ≠ [] := by
  rintro rfl
  obtain ⟨c, hc, hn⟩ := List.all_eq_false.1 hb
  obtain ⟨i, hi, rfl⟩ := List.getElem_of_mem hc
  rcases h.covered i (Nat.zero_le i) hi with ⟨_, ht, _⟩ | ⟨c, hc, hblank⟩
  · cases ht
  · rw [List.getElem?_eq_getElem hi] at hc
    cases hc
    exact hn hblank

section Scanned

theorem cases_of_bind_error {ε α β : Type} {r : Except ε α} {next : α → Except ε β} {e : ε}
    (h : (r >>= next) = .error e) : r = .error e ∨ ∃ a, r = .ok a ∧ next a = .error e := by
  cases r with
  | error e' =>
    cases h
    exact .inl rfl
  | ok a => exact .inr ⟨a, rfl, h⟩

theorem drop_lexeme (hl : l ≠ []) (h : text.drop position = c :: rest) :
    text.drop (position + l.length) = rest.drop (l.length - 1) := by
  obtain ⟨n, hn⟩ := Nat.exists_eq_succ_of_ne_zero (mt List.length_eq_zero_iff.1 hl)
  rw [← List.drop_drop, h, hn]
  rfl

theorem Longest.stop_le (h : Longest kind (text.drop start) l) (hs : start ≤ text.length) :
    start + l.length ≤ text.length := by
  have hle := h.front.length_le
  rw [List.length_drop] at hle
  omega

theorem scanFrom_tiles (hd : text.drop position = cs) (hp : position ≤ text.length)
    (h : scanFrom position cs = .ok tokens) :
    ∃ found, Tiles text position text.length found ∧ tokens = found ++ [.atEnd text.length] := by
  induction position, cs using scanFrom.induct generalizing tokens with
  | case1 position =>
    rw [scanFrom] at h
    cases h
    have hend : position = text.length := le_antisymm hp (List.drop_eq_nil_iff.1 hd)
    rw [hend]
    exact ⟨[], .nil, rfl⟩
  | case2 position c rest kind lexeme hf ih =>
    rw [scanFrom, hf] at h
    obtain ⟨tail, hs, ht⟩ := exists_of_bind_ok h
    cases ht
    obtain ⟨hl, hm⟩ := hf ▸ Front.of_describes c rest
    rw [← hd] at hl hm
    have hstop := hl.stop_le hp
    obtain ⟨found, htiles, rfl⟩ := ih (drop_lexeme hl.lexical.ne_nil hd) hstop hs
    exact ⟨_, htiles.token hl hm, rfl⟩
  | case3 position c rest hf ih =>
    rw [scanFrom, hf] at h
    obtain ⟨_, _, he, hb⟩ := hf ▸ Front.of_describes c rest
    cases he
    obtain ⟨found, htiles, rfl⟩ := ih (drop_succ_of_drop hd) (lt_length_of_drop hd) h
    exact ⟨found, htiles.blank (getElem?_of_drop hd) hb, rfl⟩
  | case4 position c rest run hf =>
    rw [scanFrom, hf] at h
    cases h
  | case5 position c rest hf =>
    rw [scanFrom, hf] at h
    cases h

theorem scanFrom_stops {e : ScanError} (hd : text.drop position = cs)
    (hp : position ≤ text.length) (h : scanFrom position cs = .error e) :
    ∃ found fault stop, e.toFailure = .parse fault stop ∧ Tiles text position stop found ∧
      stop < text.length ∧ fault.StopsScan (text.drop stop) := by
  induction position, cs using scanFrom.induct with
  | case1 position =>
    rw [scanFrom] at h
    cases h
  | case2 position c rest kind lexeme hf ih =>
    rw [scanFrom, hf] at h
    rcases cases_of_bind_error h with hs | ⟨_, _, hpure⟩
    · obtain ⟨hl, hm⟩ := hf ▸ Front.of_describes c rest
      rw [← hd] at hl hm
      obtain ⟨found, fault, stop, he, htiles, hstop, hfault⟩ :=
        ih (drop_lexeme hl.lexical.ne_nil hd) (hl.stop_le hp) hs
      exact ⟨_, fault, stop, he, htiles.token hl hm, hstop, hfault⟩
    · cases hpure
  | case3 position c rest hf ih =>
    rw [scanFrom, hf] at h
    obtain ⟨_, _, he, hb⟩ := hf ▸ Front.of_describes c rest
    cases he
    obtain ⟨found, fault, stop, he, htiles, hstop, hfault⟩ :=
      ih (drop_succ_of_drop hd) (lt_length_of_drop hd) h
    exact ⟨found, fault, stop, he, htiles.blank (getElem?_of_drop hd) hb, hstop, hfault⟩
  | case4 position c rest run hf =>
    rw [scanFrom, hf] at h
    cases h
    have hrun := Front.of_describes c rest
    rw [hf, ← hd] at hrun
    exact ⟨[], _, position, rfl, .nil, lt_length_of_drop hd, .inl ⟨rfl, run, hrun, rfl⟩⟩
  | case5 position c rest hf =>
    rw [scanFrom, hf] at h
    cases h
    obtain ⟨⟨_, _, he, hb⟩, hn⟩ := hf ▸ Front.of_describes c rest
    cases he
    rw [← hd] at hn
    have hhead : (text.drop position).head? = some c := by rw [hd]; rfl
    exact ⟨[], _, position, rfl, .nil, lt_length_of_drop hd,
      .inr ⟨rfl, ⟨c, hhead, hb, rfl⟩, hn⟩⟩

theorem Token.product_atEnd (t : Token) (position : Nat) : t.product (.atEnd position) = [] :=
  if_neg fun h => nomatch h.2

theorem multiplied_singleton (t last : Token) : multiplied [t] last = t :: t.product last := by
  simp [multiplied]

theorem multiplied_cons (t next last : Token) (rest : List Token) :
    multiplied (t :: next :: rest) last = t :: (t.product next ++ multiplied (next :: rest) last) :=
  rfl

theorem multiplied_ne_nil (h : tokens ≠ []) : multiplied tokens last ≠ [] := by
  cases tokens with
  | nil => exact absurd rfl h
  | cons t tokens =>
    cases tokens with
    | nil =>
      rw [multiplied_singleton]
      exact List.cons_ne_nil _ _
    | cons next tokens => exact List.cons_ne_nil _ _

theorem withMultiplications_eq (found : List Token) (last : Token) :
    withMultiplications (found ++ [last]) = multiplied found last ++ [last] := by
  have hproduct (t next : Token) (rest : List Token) :
      (if multiplies t next then t :: ⟨.operator, ['*'], t.position + t.lexeme.length⟩ :: rest
        else t :: rest) = t :: (t.product next ++ rest) := by
    simp only [multiplies, Token.product, Token.stop, Bool.and_eq_true, Bool.or_eq_true,
      decide_eq_true_eq]
    split <;> rfl
  induction found with
  | nil => rfl
  | cons t found ih =>
    cases found with
    | nil =>
      rw [List.singleton_append, withMultiplications, hproduct, multiplied_singleton]
      rfl
    | cons next found =>
      rw [List.cons_append] at ih ⊢
      rw [List.cons_append, withMultiplications, hproduct, ih, multiplied_cons,
        List.cons_append, List.append_assoc]

theorem multiplied_lexical (h : ∀ t ∈ found, t.IsLexical) :
    ∀ t ∈ multiplied found last, t.IsLexical := by
  intro t ht
  obtain ⟨⟨u, next⟩, hu, ht⟩ := List.mem_flatMap.1 ht
  rcases List.mem_cons.1 ht with rfl | ht
  · exact h t (List.of_mem_zip hu).1
  · rw [Token.product] at ht
    split at ht
    · cases List.mem_singleton.1 ht
      exact Lexical.operator .multiply
    · cases ht

theorem scan_complete (h : scan text = .ok tokens) : Complete tokens := by
  obtain ⟨scanned, hs, ht⟩ := exists_of_bind_ok h
  cases ht
  obtain ⟨found, htiles, rfl⟩ := scanFrom_tiles rfl (Nat.zero_le _) hs
  have hlexical : ∀ t ∈ found, t.IsLexical := fun t ht => (htiles.longest t ht).lexical
  exact ⟨_, _, withMultiplications_eq found _, multiplied_lexical hlexical⟩

theorem tiles_of_scanText (h : scanText text = .ok tokens) :
    ∃ found, Tiles text 0 text.length found ∧
      tokens = multiplied found (.atEnd text.length) ++ [.atEnd text.length] := by
  cases hs : scanFrom 0 text with
  | ok scanned =>
    obtain ⟨found, htiles, rfl⟩ := scanFrom_tiles rfl (Nat.zero_le _) hs
    rw [scanText, scan, hs] at h
    cases h
    exact ⟨found, htiles, withMultiplications_eq found _⟩
  | error e =>
    rw [scanText, scan, hs] at h
    cases h

theorem stops_of_scanText {failure : Failure} (h : scanText text = .error failure) :
    ∃ found fault position, failure = .parse fault position ∧ Tiles text 0 position found ∧
      position < text.length ∧ fault.StopsScan (text.drop position) := by
  cases hs : scanFrom 0 text with
  | ok scanned =>
    rw [scanText, scan, hs] at h
    cases h
  | error e =>
    rw [scanText, scan, hs] at h
    cases h
    exact scanFrom_stops rfl (Nat.zero_le _) hs

/-- The tokens of a text tile it up to blanks, and between them are put the multiplications that are
understood; where a text cannot be scanned, it is tiled up to the place that is told, and the fault
that is told is in front of the rest. -/
theorem scanText_tiles (text : List Char) :
    (∃ found, Tiles text 0 text.length found ∧
      scanText text =
        .ok (multiplied found (.atEnd text.length) ++ [.atEnd text.length])) ∨
    ∃ found fault position, Tiles text 0 position found ∧ position < text.length ∧
      scanText text = .error (.parse fault position) ∧ fault.StopsScan (text.drop position) := by
  cases h : scanText text with
  | ok tokens =>
    obtain ⟨found, htiles, rfl⟩ := tiles_of_scanText h
    exact .inl ⟨found, htiles, rfl⟩
  | error failure =>
    obtain ⟨found, fault, position, rfl, htiles, hlt, hfault⟩ := stops_of_scanText h
    exact .inr ⟨found, fault, position, htiles, hlt, rfl, hfault⟩

end Scanned

end Calculator
