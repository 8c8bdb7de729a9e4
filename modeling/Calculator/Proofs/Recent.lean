import Mathlib.Data.List.Induction
import Mathlib.Order.Nat
/-!
The most recent of events. Each event of a list may store a value, take it away, or do neither, as
the events before it have it; what is there in the end was stored by the last event that stores, if
none behind it takes away (`recent_of_steps`).
-/
namespace Calculator

variable {α β : Type}

/-- The event in a place meets a condition on it and on the events before it. -/
def Occurs (p : List α → α → Prop) (events : List α) (i : Nat) : Prop :=
  ∃ e, events[i]? = some e ∧ p (events.take i) e

/-- What is there after the events: the value that was stored last, nothing if it was taken away
since, and as long as neither has happened what was there at first. -/
inductive Recent (stores : β → List α → α → Prop) (removes : List α → α → Prop)
    (initial : Option β) (events : List α) : Option β → Prop
  | stored {i : Nat} {b : β} (hs : Occurs (stores b) events i)
      (hl : ∀ j, i < j → ¬ Occurs removes events j ∧ ∀ b, ¬ Occurs (stores b) events j) :
      Recent stores removes initial events (some b)
  | removed {i : Nat} (hr : Occurs removes events i)
      (hl : ∀ j, i < j → ∀ b, ¬ Occurs (stores b) events j) :
      Recent stores removes initial events none
  | untouched (h : ∀ j, ¬ Occurs removes events j ∧ ∀ b, ¬ Occurs (stores b) events j) :
      Recent stores removes initial events initial

variable {p : List α → α → Prop} {events : List α} {e : α} {i : Nat}
  {stores : β → List α → α → Prop} {removes : List α → α → Prop} {initial : Option β}

theorem Occurs.lt_length (h : Occurs p events i) : i < events.length := by
  obtain ⟨e, he, _⟩ := h
  exact (List.getElem?_eq_some_iff.1 he).1

theorem not_occurs_nil : ¬ Occurs p [] i := fun h => absurd h.lt_length (Nat.not_lt_zero i)

theorem occurs_concat :
    Occurs p (events ++ [e]) i ↔ Occurs p events i ∨ i = events.length ∧ p events e := by
  rcases Nat.lt_trichotomy i events.length with hi | rfl | hi
  · have hne : i ≠ events.length := Nat.ne_of_lt hi
    rw [Occurs, Occurs, List.getElem?_append_left hi, List.take_append_of_le_length hi.le]
    simp [hne]
  · simp [Occurs]
  · refine iff_of_false (fun h => ?_) ?_
    · have hlt := h.lt_length
      rw [List.length_append, List.length_singleton] at hlt
      omega
    · rintro (h | ⟨rfl, _⟩)
      · exact absurd h.lt_length hi.not_gt
      · exact absurd hi (Nat.lt_irrefl _)

/-- An event that stores decides, one that takes away leaves nothing, and any other one leaves what
is there. -/
theorem Recent.concat {found : Option β} (h : Recent stores removes initial events found) :
    (∀ b, stores b events e → Recent stores removes initial (events ++ [e]) (some b)) ∧
      (removes events e → (∀ b, ¬ stores b events e) →
        Recent stores removes initial (events ++ [e]) none) ∧
      (¬ removes events e → (∀ b, ¬ stores b events e) →
        Recent stores removes initial (events ++ [e]) found) := by
  have hbehind {p : List α → α → Prop} {j : Nat} (hj : events.length < j) :
      ¬ Occurs p (events ++ [e]) j := by
    intro ho
    have hlt := ho.lt_length
    rw [List.length_append, List.length_singleton] at hlt
    omega
  have hother {p : List α → α → Prop} {j : Nat} (hp : ¬ p events e) :
      Occurs p (events ++ [e]) j ↔ Occurs p events j := by
    rw [occurs_concat, or_iff_left fun h => hp h.2]
  refine ⟨fun b hb => ?_, fun hr hs => ?_, fun hr hs => ?_⟩
  · exact .stored (occurs_concat.2 (.inr ⟨rfl, hb⟩)) fun j hj => ⟨hbehind hj, fun b => hbehind hj⟩
  · exact .removed (occurs_concat.2 (.inr ⟨rfl, hr⟩)) fun j hj b => hbehind hj
  · cases h with
    | stored ho hl =>
      refine .stored ((hother (hs _)).2 ho) fun j hj => ?_
      simpa only [hother hr, hother (hs _)] using hl j hj
    | removed ho hl =>
      refine .removed ((hother hr).2 ho) fun j hj b => ?_
      simpa only [hother (hs _)] using hl j hj b
    | untouched hl =>
      refine .untouched fun j => ?_
      simpa only [hother hr, hother (hs _)] using hl j

/-- A value that each event changes as it stores, takes away or does neither is the most recent one
after any events. -/
theorem recent_of_steps (value : List α → Option β) (hstart : value [] = initial)
    (hstores : ∀ events e b, stores b events e → value (events ++ [e]) = some b)
    (hremoves : ∀ events e, removes events e → value (events ++ [e]) = none)
    (hother : ∀ events e, (∀ b, ¬ stores b events e) → ¬ removes events e →
      value (events ++ [e]) = value events)
    (events : List α) : Recent stores removes initial events (value events) := by
  induction events using List.reverseRecOn with
  | nil =>
    rw [hstart]
    exact .untouched fun j => ⟨not_occurs_nil, fun b => not_occurs_nil⟩
  | append_singleton events e ih =>
    obtain ⟨hstored, hremoved, hkept⟩ := ih.concat (e := e)
    by_cases hs : ∃ b, stores b events e
    · obtain ⟨b, hb⟩ := hs
      rw [hstores events e b hb]
      exact hstored b hb
    · rw [not_exists] at hs
      by_cases hr : removes events e
      · rw [hremoves events e hr]
        exact hremoved hr hs
      · rw [hother events e hs hr]
        exact hkept hr hs

end Calculator
