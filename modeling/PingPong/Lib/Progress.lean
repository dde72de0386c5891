import PingPong.Lib.Lts

/-!
# What a system can always bring about

`M.Progresses Inv Q work`: no step from a state with `Inv` adds to `work`, and as long as `Q` does
not hold some step takes from it.

* `Progresses.reaches`: however the system has gone on so far, it can go on to `Q`.
* `Progresses.bounded`: no run has more steps that take from `work` than there was work to do.
* `Lts.only` leaves out steps.
-/

namespace Lts

variable {σ ε : Type}

/-- The steps that meet `C`. -/
def only (M : Lts σ ε) (C : σ → ε → Bool) : Lts σ ε :=
  ⟨M.init, fun s e => if C s e then M.step s e else none⟩

theorem only_step {M : Lts σ ε} {C : σ → ε → Bool} {s t : σ} {e : ε} :
    (M.only C).step s e = some t ↔ C s e = true ∧ M.step s e = some t := by
  change (if C s e then M.step s e else none) = some t ↔ _
  split
  · rename_i meets
    exact (and_iff_right meets).symm
  · rename_i misses
    constructor
    · intro step
      cases step
    · intro both
      exact (misses both.1).elim

theorem Reachable.of_only {M : Lts σ ε} {C : σ → ε → Bool} {s : σ} (h : (M.only C).Reachable s) :
    M.Reachable s := by
  refine Reachable.induct (M := M.only C) (P := M.Reachable) .start ?_ h
  intro s e t _ ih step
  exact ih.next (only_step.mp step).2

/-- The steps of a run that take from `work`. -/
def worked (M : Lts σ ε) (work : σ → Nat) (s : σ) : List ε → Nat
  | [] => 0
  | e :: es =>
      match M.step s e with
      | none => 0
      | some t => (if work t < work s then 1 else 0) + M.worked work t es

structure Progresses (M : Lts σ ε) (Inv Q : σ → Prop) (work : σ → Nat) : Prop where
  keeps : ∀ s e t, Inv s → M.step s e = some t → Inv t ∧ work t ≤ work s
  goes_on : ∀ s, Inv s → ¬ Q s → ∃ e t, M.step s e = some t ∧ work t < work s

variable {M : Lts σ ε} {Inv Q : σ → Prop} {work : σ → Nat}

theorem Progresses.bounded (h : M.Progresses Inv Q work) {s t : σ} {es : List ε} (hs : Inv s)
    (run : M.runFrom s es = some t) : M.worked work s es + work t ≤ work s := by
  induction es generalizing s with
  | nil =>
      cases run
      exact Nat.le_of_eq (Nat.zero_add _)
  | cons e es ih =>
      obtain ⟨u, step, later⟩ := Option.bind_eq_some_iff.mp run
      obtain ⟨hu, less⟩ := h.keeps s e u hs step
      have bound := ih hu later
      simp only [worked, step]
      split <;> omega

/-- **The progress rule.** -/
theorem Progresses.reaches (h : M.Progresses Inv Q work) {s : σ} (hs : Inv s) :
    ∃ es t, M.runFrom s es = some t ∧ Q t := by
  induction bound : work s using Nat.strongRecOn generalizing s with
  | ind n ih =>
      by_cases now : Q s
      · exact ⟨[], s, rfl, now⟩
      · obtain ⟨e, u, step, less⟩ := h.goes_on s hs now
        obtain ⟨hu, -⟩ := h.keeps s e u hs step
        obtain ⟨es, t, run, reached⟩ := ih (work u) (by omega) hu rfl
        refine ⟨e :: es, t, ?_, reached⟩
        simp only [runFrom, step, Option.bind_some]
        exact run

end Lts
