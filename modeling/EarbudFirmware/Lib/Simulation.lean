import EarbudFirmware.Lib.Transition

/-!
# Machines that answer calls

A machine takes a call, moves to its next state and answers. Two machines with the same calls and
answers are compared by a relation between their states.

## Main definitions

* `run` — the last state and the answers of a list of calls
* `Simulates` — related states answer alike and stay related

## Main results

* `Simulates.run` — a simulation lifts to lists of calls
* `answers_eq_iff_along` — machines that answer alike exactly while a guard is met
-/

namespace Simulation

variable {S A C R : Type*}

/-- The state behind the calls, and their answers. -/
def run (call : S → C → S × R) : S → List C → S × List R
  | s, [] => (s, [])
  | s, c :: cs =>
    let rest := run call (call s c).1 cs
    (rest.1, (call s c).2 :: rest.2)

/-- Related states give the same answer to every call, and their next states are related. -/
def Simulates (call : S → C → S × R) (spec : A → C → A × R) (rel : S → A → Prop) : Prop :=
  ∀ s a c, rel s a → (call s c).2 = (spec a c).2 ∧ rel (call s c).1 (spec a c).1

variable {call : S → C → S × R} {spec : A → C → A × R} {rel : S → A → Prop}

/-- Related states give the same answers to all calls. -/
theorem Simulates.run (h : Simulates call spec rel) {s : S} {a : A} (hrel : rel s a)
    (cs : List C) :
    (run call s cs).2 = (run spec a cs).2 ∧ rel (run call s cs).1 (run spec a cs).1 := by
  induction cs generalizing s a with
  | nil => exact ⟨rfl, hrel⟩
  | cons c cs ih =>
    obtain ⟨hanswer, hnext⟩ := h s a c hrel
    obtain ⟨hanswers, hlast⟩ := ih hnext
    exact ⟨List.cons_eq_cons.2 ⟨hanswer, hanswers⟩, hlast⟩

/-- If related states give the same answer exactly to the calls that meet a guard, and stay related
then, the answers to a list of calls are the same exactly when all of it meets the guard. -/
theorem answers_eq_iff_along {guard : A → C → Prop}
    (hstep : ∀ s a c, rel s a → ((call s c).2 = (spec a c).2 ↔ guard a c) ∧
      (guard a c → rel (call s c).1 (spec a c).1)) {s : S} {a : A} (hrel : rel s a)
    (cs : List C) :
    (run call s cs).2 = (run spec a cs).2 ↔
      Transition.Along (fun a c => some (spec a c).1) guard a cs := by
  induction cs generalizing s a with
  | nil => exact ⟨fun _ => trivial, fun _ => rfl⟩
  | cons c cs ih =>
    obtain ⟨hanswer, hnext⟩ := hstep s a c hrel
    simp only [Simulation.run, List.cons.injEq, hanswer, Transition.along_cons,
      Option.some.injEq, forall_eq']
    exact and_congr_right fun hc => ih (hnext hc)

end Simulation
