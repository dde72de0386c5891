import Mathlib.Data.Stream.Defs
import PingPong.Lib.Lts

/-!
# What a system cannot avoid

`M.Inevitable D Q s`: from `s`, whichever labels of `D` are chosen, `M` is never stuck and reaches a
state with `Q` after finitely many steps.

* `Inevitable.of_measure` shows it, by a measure that every step decreases.
* `not_inevitable` refutes it, by states without `Q` that some choice of labels never leaves.

`M.Attains label Q answers s` is the same for one sequence of answers; `attains_iff` decides it, by
a condition on the answers and the state that every step keeps, and so does its negation.
-/

namespace Lts

variable {σ ε : Type} {M : Lts σ ε} {D : ε → Prop} {Q : σ → Prop}

inductive Inevitable (M : Lts σ ε) (D : ε → Prop) (Q : σ → Prop) : σ → Prop
  | here {s : σ} : Q s → Inevitable M D Q s
  | next {s : σ} : (∀ e, D e → ∃ t, M.step s e = some t) →
    (∀ e t, D e → M.step s e = some t → Inevitable M D Q t) → Inevitable M D Q s

/-- **The measure rule.** -/
theorem Inevitable.of_measure {Inv : σ → Prop} (measure : σ → Nat)
    (enabled : ∀ s e, Inv s → ¬ Q s → D e → ∃ t, M.step s e = some t)
    (decreases : ∀ s e t, Inv s → ¬ Q s → D e → M.step s e = some t →
      Q t ∨ (Inv t ∧ measure t < measure s))
    {s : σ} (hs : Inv s) : M.Inevitable D Q s := by
  induction bound : measure s using Nat.strongRecOn generalizing s with
  | ind n ih =>
      by_cases now : Q s
      · exact .here now
      · refine .next (fun e chosen => enabled s e hs now chosen) fun e t chosen hstep => ?_
        rcases decreases s e t hs now chosen hstep with reached | ⟨ht, less⟩
        · exact .here reached
        · exact ih (measure t) (by omega) ht rfl

/-- **The trap rule.**  In a trap some choice leads nowhere or back into the trap. -/
theorem not_inevitable {Trap : σ → Prop} (misses : ∀ s, Trap s → ¬ Q s)
    (stays : ∀ s, Trap s → ∃ e, D e ∧ ∀ t, M.step s e = some t → Trap t) {s : σ} (hs : Trap s) :
    ¬ M.Inevitable D Q s := by
  intro h
  induction h with
  | @here s now => exact misses s hs now
  | @next s enabled _ ih =>
      obtain ⟨e, chosen, back⟩ := stays s hs
      obtain ⟨t, hstep⟩ := enabled e chosen
      exact ih e t chosen hstep (back t hstep)

/-! ## Fixed answers -/

variable {α : Type} {label : α → ε}

/-- With each step labelled by the next of the answers, `M` gets to a state with `Q`. -/
inductive Attains (M : Lts σ ε) (label : α → ε) (Q : σ → Prop) : Stream' α → σ → Prop
  | here {answers : Stream' α} {s : σ} : Q s → Attains M label Q answers s
  | next {answers : Stream' α} {s t : σ} : M.step s (label answers.head) = some t →
    Attains M label Q answers.tail t → Attains M label Q answers s

/-- **The exact rule.** -/
theorem attains_iff {Inv : σ → Prop} {Good : Stream' α → σ → Prop} (measure : σ → Nat)
    (good : ∀ answers s, Inv s → Good answers s → ¬ Q s →
      ∃ t, M.step s (label answers.head) = some t ∧
        (Q t ∨ ((Inv t ∧ Good answers.tail t) ∧ measure t < measure s)))
    (bad : ∀ answers s, Inv s → ¬ Good answers s → ¬ Q s ∧
      ∀ t, M.step s (label answers.head) = some t → Inv t ∧ ¬ Good answers.tail t)
    {answers : Stream' α} {s : σ} (hs : Inv s) :
    M.Attains label Q answers s ↔ Good answers s := by
  constructor
  · intro h
    by_contra lost
    induction h with
    | @here answers s now => exact (bad answers s hs lost).1 now
    | @next answers s t step _ ih =>
        obtain ⟨ht, lost⟩ := (bad answers s hs lost).2 t step
        exact ih ht lost
  · intro safe
    induction bound : measure s using Nat.strongRecOn generalizing answers s with
    | ind n ih =>
        by_cases now : Q s
        · exact .here now
        · obtain ⟨t, step, reached | ⟨⟨ht, safe⟩, less⟩⟩ := good answers s hs safe now
          · exact .next step (.here reached)
          · exact .next step (ih (measure t) (by omega) ht safe rfl)

end Lts
