import Calculator.Proofs.Tiling
import Mathlib.Data.List.Infix
/-!
Unclosed parentheses. `unclosed` are the opening parentheses among tokens that no closing one behind
them matches. A token at the end changes them as it changes a stack (`unclosed_opening`,
`unclosed_closing`), and in a text they stand in the order of their positions (`pairwise_unclosed`).
-/
namespace Calculator

variable {text : List Char} {t : Token} {ts read tokens : List Token} {limit : Nat}

def occurrences (kind : TokenKind) (tokens : List Token) : Nat :=
  tokens.countP fun t => t.kind = kind

/-- In no beginning of the tokens the closing parentheses outnumber the opening ones, so none of them
matches a parenthesis in front of the tokens. -/
def ClosesNone (tokens : List Token) : Prop :=
  ∀ us, us <+: tokens → occurrences .closing us ≤ occurrences .opening us

instance : DecidablePred ClosesNone := fun tokens =>
  decidable_of_iff (∀ us ∈ tokens.inits, occurrences .closing us ≤ occurrences .opening us)
    (by simp only [List.mem_inits, ClosesNone])

/-- The opening parentheses that no closing one among the tokens behind them matches. -/
def unclosed : List Token → List Token
  | [] => []
  | t :: rest => if t.kind = .opening ∧ ClosesNone rest then t :: unclosed rest else unclosed rest

/-- The number of closing parentheses that no opening one among the tokens matches. -/
def unopened : List Token → Nat
  | [] => 0
  | t :: rest =>
    match t.kind with
    | .opening => unopened rest - 1
    | .closing => unopened rest + 1
    | _ => unopened rest

section Counts

theorem occurrences_cons (kind : TokenKind) (t : Token) (ts : List Token) :
    occurrences kind (t :: ts) = occurrences kind ts + if t.kind = kind then 1 else 0 := by
  simp only [occurrences, List.countP_cons, decide_eq_true_eq]

theorem occurrences_concat (kind : TokenKind) (ts : List Token) (t : Token) :
    occurrences kind (ts ++ [t]) = occurrences kind ts + if t.kind = kind then 1 else 0 := by
  simp only [occurrences, List.countP_append, List.countP_singleton, decide_eq_true_eq]

theorem unopened_opening (ht : t.kind = .opening) (ts : List Token) :
    unopened (t :: ts) = unopened ts - 1 := by
  rw [unopened, ht]

theorem unopened_closing (ht : t.kind = .closing) (ts : List Token) :
    unopened (t :: ts) = unopened ts + 1 := by
  rw [unopened, ht]

theorem unopened_other (ho : t.kind ≠ .opening) (hc : t.kind ≠ .closing) (ts : List Token) :
    unopened (t :: ts) = unopened ts := by
  rw [unopened]
  split
  · next hk => exact absurd hk ho
  · next hk => exact absurd hk hc
  · rfl

/-- The closing parentheses outnumber the opening ones by as many as are not matched. -/
theorem unopened_le_iff : unopened ts ≤ limit ↔
    ∀ us, us <+: ts → occurrences .closing us ≤ occurrences .opening us + limit := by
  induction ts generalizing limit with
  | nil => simp [unopened, occurrences]
  | cons t ts ih =>
    have hcons :
        (∀ us, us <+: t :: ts → occurrences .closing us ≤ occurrences .opening us + limit) ↔
          ∀ us, us <+: ts →
            occurrences .closing (t :: us) ≤ occurrences .opening (t :: us) + limit := by
      constructor
      · intro h us hu
        exact h _ (List.cons_prefix_cons.2 ⟨rfl, hu⟩)
      · intro h us hu
        rcases List.prefix_cons_iff.1 hu with rfl | ⟨vs, rfl, hv⟩
        · exact Nat.zero_le _
        · exact h vs hv
    rw [hcons]
    simp only [occurrences_cons]
    by_cases ho : t.kind = .opening
    · rw [unopened_opening ho, Nat.sub_le_iff_le_add, ih]
      simp [ho, Nat.add_assoc, Nat.add_comm 1]
    · by_cases hc : t.kind = .closing
      · rw [unopened_closing hc]
        simp only [hc, reduceCtorEq, ↓reduceIte, Nat.add_zero]
        cases limit with
        | zero =>
          refine ⟨fun h => absurd h (Nat.not_succ_le_zero _), fun h => ?_⟩
          exact absurd (h [] (List.nil_prefix)) (by simp [occurrences])
        | succ limit =>
          rw [Nat.succ_le_succ_iff, ih]
          simp only [← Nat.add_assoc, Nat.add_le_add_iff_right]
      · rw [unopened_other ho hc, ih]
        simp only [ho, hc, ↓reduceIte, Nat.add_zero]

theorem closesNone_iff : ClosesNone ts ↔ unopened ts = 0 := by
  rw [← Nat.le_zero, unopened_le_iff]
  rfl

theorem unclosed_cons (t : Token) (ts : List Token) : unclosed (t :: ts) =
    if t.kind = .opening ∧ unopened ts = 0 then t :: unclosed ts else unclosed ts := by
  simp only [unclosed, closesNone_iff]

end Counts

section Ends

theorem unopened_concat (hc : t.kind ≠ .closing) (ts : List Token) :
    unopened (ts ++ [t]) = unopened ts := by
  induction ts with
  | nil =>
    by_cases ho : t.kind = .opening
    · exact unopened_opening ho []
    · exact unopened_other ho hc []
  | cons u ts ih =>
    rw [List.cons_append, unopened, unopened, ih]

theorem unclosed_opening (ht : t.kind = .opening) (ts : List Token) :
    unclosed (ts ++ [t]) = unclosed ts ++ [t] := by
  induction ts with
  | nil => exact if_pos ⟨ht, closesNone_iff.2 rfl⟩
  | cons u ts ih =>
    rw [List.cons_append, unclosed_cons, unclosed_cons, unopened_concat (by simp [ht]), ih]
    split <;> rfl

theorem unclosed_other (ho : t.kind ≠ .opening) (hc : t.kind ≠ .closing) (ts : List Token) :
    unclosed (ts ++ [t]) = unclosed ts := by
  induction ts with
  | nil => exact if_neg fun h => ho h.1
  | cons u ts ih => rw [List.cons_append, unclosed_cons, unclosed_cons, unopened_concat hc, ih]

/-- A closing parenthesis matches the last one that is unclosed, if there is one. -/
theorem unclosed_closing (ht : t.kind = .closing) (ts : List Token) :
    unclosed (ts ++ [t]) = (unclosed ts).dropLast ∧
      unopened (ts ++ [t]) = unopened ts + if unclosed ts = [] then 1 else 0 := by
  induction ts with
  | nil => exact ⟨if_neg fun h => by simp [ht] at h, unopened_closing ht []⟩
  | cons u ts ih =>
    obtain ⟨hclosed, hopened⟩ := ih
    rw [List.cons_append, unclosed_cons, unclosed_cons, hclosed, hopened]
    by_cases ho : u.kind = .opening
    · rw [unopened_opening ho, unopened_opening ho, hopened]
      by_cases hn : unopened ts = 0
      · by_cases he : unclosed ts = []
        · simp [ho, hn, he]
        · simp [ho, hn, he, List.dropLast_cons_of_ne_nil he]
      · simp only [hn, Nat.add_eq_zero_iff, false_and, and_false, ↓reduceIte, true_and]
        omega
    · simp only [ho, false_and, ↓reduceIte, true_and]
      by_cases hc : u.kind = .closing
      · rw [unopened_closing hc, unopened_closing hc, hopened, Nat.add_right_comm]
      · rw [unopened_other ho hc, unopened_other ho hc, hopened]

end Ends

section Texts

theorem filter_opening_multiplied (tokens : List Token) (last : Token) :
    (multiplied tokens last).filter (fun t => t.kind = .opening) =
      tokens.filter fun t => t.kind = .opening := by
  have hproduct (t next : Token) :
      (t.product next).filter (fun t => t.kind = .opening) = [] := by
    rw [Token.product]
    split <;> rfl
  induction tokens with
  | nil => rfl
  | cons t tokens ih =>
    cases tokens with
    | nil =>
      rw [multiplied_singleton, List.filter_cons, List.filter_cons, hproduct, List.filter_nil]
    | cons next tokens =>
      rw [multiplied_cons, List.filter_cons, List.filter_cons, List.filter_append, hproduct,
        List.nil_append, ih]

theorem unclosed_sublist (ts : List Token) :
    (unclosed ts).Sublist (ts.filter fun t => t.kind = .opening) := by
  induction ts with
  | nil => exact .slnil
  | cons t ts ih =>
    rw [unclosed, List.filter_cons]
    by_cases ho : t.kind = .opening
    · simp only [ho, true_and, decide_true, ↓reduceIte]
      split
      · exact ih.cons_cons t
      · exact ih.cons t
    · simpa [ho] using ih

/-- The unclosed parentheses of a text stand in the order of their positions. -/
theorem pairwise_unclosed (hs : scanText text = .ok tokens) (hr : read <+: tokens) :
    (unclosed read).Pairwise fun t next => t.position < next.position := by
  obtain ⟨found, htiles, rfl⟩ := tiles_of_scanText hs
  have hsub := (unclosed_sublist read).trans (hr.sublist.filter fun t => t.kind = .opening)
  rw [List.filter_append, filter_opening_multiplied] at hsub
  have hfound : (unclosed read).Sublist found := by
    refine hsub.trans ?_
    have hend : [Token.atEnd text.length].filter (fun t => t.kind = .opening) = [] := rfl
    rw [hend, List.append_nil]
    exact List.filter_sublist
  exact (htiles.ordered.imp And.left).sublist hfound

end Texts

end Calculator
