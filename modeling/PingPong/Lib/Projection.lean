import PingPong.Lib.Lts

/-!
# Projections of runs

A system in which some labels are kept and the others forgotten.  `Lts.Projects` says that `abs`
makes of each kept step the same step of a smaller system, and of each forgotten step no step at
all.  So the kept labels of a run are a run by themselves, and whatever the forgotten ones were,
they have had no influence on what `abs` shows (`Projects.run`).

`C` is what is demanded of the labels, and `P` the invariant that labels meeting it keep.
-/

namespace Lts

variable {σ τ ε : Type}

structure Projects (M : Lts σ ε) (N : Lts τ ε) (abs : σ → τ) (keep : ε → Bool) (C : ε → Prop)
    (P : σ → Prop) : Prop where
  start : P M.init
  init : abs M.init = N.init
  keeps : ∀ s e t, P s → C e → M.step s e = some t → P t
  /-- A kept label is enabled on both sides or on neither, and leads to the same view. -/
  kept : ∀ s e, P s → C e → keep e = true → N.step (abs s) e = (M.step s e).map abs
  forgotten : ∀ s e t, P s → C e → keep e = false → M.step s e = some t → abs t = abs s

namespace Projects

variable {M : Lts σ ε} {N : Lts τ ε} {abs : σ → τ} {keep : ε → Bool} {C : ε → Prop}
  {P : σ → Prop}

/-- **The projection rule.**  The kept labels of a run are a run, to the view of its outcome. -/
theorem run (h : M.Projects N abs keep C P) {es : List ε} {s : σ} (all : ∀ e ∈ es, C e)
    (outcome : M.run es = some s) : P s ∧ N.run (es.filter keep) = some (abs s) := by
  refine run_induct (M := M) (P := fun es s => (∀ e ∈ es, C e) →
    P s ∧ N.run (es.filter keep) = some (abs s)) ?_ ?_ outcome all
  · intro _
    refine ⟨h.start, ?_⟩
    rw [h.init]
    rfl
  · intro es s e t _ before step all
    obtain ⟨good, shorter⟩ := before fun d member => all d (List.mem_append_left _ member)
    have meets : C e := all e (List.mem_append_right _ List.mem_cons_self)
    refine ⟨h.keeps s e t good meets step, ?_⟩
    rw [List.filter_append]
    cases which : keep e with
    | true =>
        have same : N.step (abs s) e = some (abs t) := by
          rw [h.kept s e good meets which, step]
          rfl
        rw [List.filter_cons_of_pos which]
        exact run_snoc_some shorter same
    | false =>
        have notKept : ¬ keep e = true := by rw [which]; exact Bool.false_ne_true
        rw [List.filter_cons_of_neg notKept, List.filter_nil, List.append_nil,
          h.forgotten s e t good meets which step]
        exact shorter

end Projects

end Lts
