import Calculator.Failure
/-!
Runs: a result together with the events on the way to it, which a failure does not take back.
-/
namespace Calculator

inductive Event where
  | parsed (text : String) (elements : Nat)
  | calling (function : String) (arguments : List Float)

structure Run (α : Type) where
  events : List Event
  result : Except Failure α

namespace Run

variable {α β : Type}

protected def pure (a : α) : Run α := ⟨[], .ok a⟩

def fail (f : Failure) : Run α := ⟨[], .error f⟩

def ofExcept (r : Except Failure α) : Run α := ⟨[], r⟩

def tell (e : Event) : Run Unit := ⟨[e], .ok ()⟩

protected def bind (r : Run α) (next : α → Run β) : Run β :=
  match r.result with
  | .ok a => ⟨r.events ++ (next a).events, (next a).result⟩
  | .error f => ⟨r.events, .error f⟩

instance : Monad Run where
  pure := Run.pure
  bind := Run.bind

@[simp] theorem result_pure (a : α) : (pure a : Run α).result = .ok a := rfl

@[simp] theorem result_fail (f : Failure) : (fail f : Run α).result = .error f := rfl

theorem bind_ok {r : Run α} {a : α} (h : r.result = .ok a) (next : α → Run β) :
    (r >>= next).result = (next a).result := by
  change (Run.bind r next).result = _
  simp only [Run.bind, h]

theorem bind_error {r : Run α} {f : Failure} (h : r.result = .error f) (next : α → Run β) :
    (r >>= next).result = .error f := by
  change (Run.bind r next).result = _
  simp only [Run.bind, h]

theorem bind_eq_ok {r : Run α} {next : α → Run β} {b : β} :
    (r >>= next).result = .ok b ↔ ∃ a, r.result = .ok a ∧ (next a).result = .ok b := by
  cases h : r.result with
  | ok a =>
    rw [bind_ok h]
    exact ⟨fun hb => ⟨a, rfl, hb⟩, fun ⟨_, ha, hb⟩ => by cases ha; exact hb⟩
  | error f =>
    rw [bind_error h]
    exact ⟨(nomatch ·), fun ⟨_, ha, _⟩ => nomatch ha⟩

end Run

end Calculator
