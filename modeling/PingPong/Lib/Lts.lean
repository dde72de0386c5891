import Mathlib.Data.List.Induction

/-!
# Runs of labelled transition systems

A system is an initial state and a partial step function; a label carries every choice the
environment makes, so one list of labels is one run.  A run that meets a label which is not enabled
has no outcome.

* `Lts.Reachable.induct` is the invariant rule: what holds initially and is kept by every step from
  a reachable state holds of every reachable state.
* `Lts.run_induct` is the rule for what relates a state to the run that led to it.
* `Lts.run_fork`: a run whose steps all meet `C` is in a good state, any other in a bad one.
* `Lts.always_iff` is the exact invariant rule: if each step keeps `P` (and has `Q`) just when `C`
  holds of it, a run has `P` in every state and `Q` in every step just when all its steps meet `C`.
* `Lts.Refines.reachable` transports reachability along a refinement map, and
  `Lts.Implements.reachable` along one under which a step may be several steps;
  `Lts.runFrom_map` moves a run into a system that has the same steps.
* `Lts.observed` adds an observer, which sees every step and influences none: `observed_run` and
  `run_observed` say that both systems have the same runs.
-/

/-- A transition system whose labels resolve all nondeterminism. -/
structure Lts (σ ε : Type) where
  init : σ
  step : σ → ε → Option σ

namespace Lts

variable {σ ε : Type} (M : Lts σ ε)

/-- The outcome of a list of labels, from any state. -/
def runFrom (s : σ) : List ε → Option σ
  | [] => some s
  | e :: es => (M.step s e).bind fun t => runFrom t es

/-- The outcome of a list of labels, from the initial state. -/
def run (es : List ε) : Option σ := M.runFrom M.init es

def Reachable (s : σ) : Prop := ∃ es, M.run es = some s

/-- `s` is a state the run over `es` passes through. -/
def Visits (es : List ε) (s : σ) : Prop :=
  ∃ before after, es = before ++ after ∧ M.run before = some s

/-- The run over `es` passes from `s` to `t` by the label `e`. -/
def Takes (es : List ε) (s : σ) (e : ε) (t : σ) : Prop :=
  ∃ before after, es = before ++ e :: after ∧ M.run before = some s ∧ M.step s e = some t

variable {M}

theorem runFrom_append (s : σ) (es fs : List ε) :
    M.runFrom s (es ++ fs) = (M.runFrom s es).bind fun t => M.runFrom t fs := by
  induction es generalizing s with
  | nil => rfl
  | cons e es ih =>
      simp only [List.cons_append, runFrom]
      cases M.step s e with
      | none => rfl
      | some t => exact ih t

theorem run_snoc (es : List ε) (e : ε) :
    M.run (es ++ [e]) = (M.run es).bind fun s => M.step s e := by
  unfold run
  rw [runFrom_append]
  cases M.runFrom M.init es with
  | none => rfl
  | some s =>
      simp only [Option.bind_some, runFrom]
      cases M.step s e <;> rfl

theorem run_snoc_some {es : List ε} {e : ε} {s t : σ} (h : M.run es = some s)
    (step : M.step s e = some t) : M.run (es ++ [e]) = some t := by
  rw [run_snoc, h]
  exact step

theorem Reachable.start : M.Reachable M.init := ⟨[], rfl⟩

theorem Reachable.next {s t : σ} {e : ε} (h : M.Reachable s) (step : M.step s e = some t) :
    M.Reachable t := by
  obtain ⟨es, run⟩ := h
  exact ⟨es ++ [e], run_snoc_some run step⟩

/-- **The run rule.**  What every step keeps, a run keeps. -/
theorem runFrom_induct {P : σ → Prop}
    (step : ∀ s e t, P s → M.step s e = some t → P t) {es : List ε} :
    ∀ {s t : σ}, P s → M.runFrom s es = some t → P t := by
  induction es with
  | nil =>
      intro s t hs run
      cases run
      exact hs
  | cons e es ih =>
      intro s t hs run
      obtain ⟨u, hu, rest⟩ := Option.bind_eq_some_iff.mp run
      exact ih (step s e u hs hu) rest

/-- **The invariant rule.** -/
theorem Reachable.induct {P : σ → Prop} (start : P M.init)
    (step : ∀ s e t, M.Reachable s → P s → M.step s e = some t → P t)
    {s : σ} (h : M.Reachable s) : P s := by
  obtain ⟨es, run⟩ := h
  have both : M.Reachable s ∧ P s :=
    runFrom_induct (P := fun u => M.Reachable u ∧ P u)
      (fun u e t hu hstep => ⟨hu.1.next hstep, step u e t hu.1 hu.2 hstep⟩)
      ⟨.start, start⟩ run
  exact both.2

theorem Visits.reachable {es : List ε} {s : σ} (h : M.Visits es s) : M.Reachable s := by
  obtain ⟨before, after, -, run⟩ := h
  exact ⟨before, run⟩

theorem Takes.visits {es : List ε} {s t : σ} {e : ε} (h : M.Takes es s e t) : M.Visits es s := by
  obtain ⟨before, after, heq, run, -⟩ := h
  exact ⟨before, e :: after, heq, run⟩

theorem Takes.visits_next {es : List ε} {s t : σ} {e : ε} (h : M.Takes es s e t) :
    M.Visits es t := by
  obtain ⟨before, after, heq, run, step⟩ := h
  exact ⟨before ++ [e], after, by rw [heq, List.append_assoc]; rfl, run_snoc_some run step⟩

/-- A run whose steps all meet `C` stays in an invariant that steps meeting `C` keep. -/
theorem Visits.induct {P : σ → Prop} {C : σ → ε → Prop} {es : List ε}
    (start : P M.init)
    (step : ∀ s e t, M.Reachable s → P s → M.step s e = some t → C s e → P t)
    (all : ∀ s e t, M.Takes es s e t → C s e) {s : σ} (h : M.Visits es s) : P s := by
  obtain ⟨before, after, heq, run⟩ := h
  induction before using List.reverseRecOn generalizing after s with
  | nil =>
      cases run
      exact start
  | append_singleton before e ih =>
      rw [run_snoc] at run
      obtain ⟨u, hu, hstep⟩ := Option.bind_eq_some_iff.mp run
      have heq' : es = before ++ e :: after := by rw [heq, List.append_assoc]; rfl
      have taken : M.Takes es u e s := ⟨before, after, heq', hu, hstep⟩
      exact step u e s taken.visits.reachable (ih (e :: after) heq' hu) hstep (all u e s taken)

/-- **Exact invariants.**  If from a reachable state with `P` a step keeps `P` and has `Q` just when
`C` holds of it, then `P` holds throughout a run and `Q` of all its steps just when all its steps
meet `C`. -/
theorem always_iff {P : σ → Prop} {Q : σ → ε → σ → Prop} {C : σ → ε → Prop} (es : List ε)
    (start : P M.init)
    (exact_step : ∀ s e t, M.Reachable s → P s → M.step s e = some t →
      (P t ∧ Q s e t ↔ C s e)) :
    ((∀ s, M.Visits es s → P s) ∧ ∀ s e t, M.Takes es s e t → Q s e t) ↔
      ∀ s e t, M.Takes es s e t → C s e := by
  constructor
  · intro always s e t taken
    obtain ⟨states, steps⟩ := always
    have step := taken
    obtain ⟨_, _, _, _, hstep⟩ := step
    exact (exact_step s e t taken.visits.reachable (states s taken.visits) hstep).mp
      ⟨states t taken.visits_next, steps s e t taken⟩
  · intro all
    have states : ∀ s, M.Visits es s → P s := fun s visited =>
      visited.induct start
        (fun u e t hu hP hstep hC => ((exact_step u e t hu hP hstep).mpr hC).1) all
    refine ⟨states, fun s e t taken => ?_⟩
    have step := taken
    obtain ⟨_, _, _, _, hstep⟩ := step
    exact ((exact_step s e t taken.visits.reachable (states s taken.visits) hstep).mpr
      (all s e t taken)).2

/-- **The history rule.**  What relates a state to the labels that led to it. -/
theorem run_induct {P : List ε → σ → Prop} (start : P [] M.init)
    (step : ∀ es s e t, M.run es = some s → P es s → M.step s e = some t → P (es ++ [e]) t)
    {es : List ε} {s : σ} (run : M.run es = some s) : P es s := by
  induction es using List.reverseRecOn generalizing s with
  | nil =>
      cases run
      exact start
  | append_singleton es e ih =>
      rw [run_snoc] at run
      obtain ⟨u, hu, hstep⟩ := Option.bind_eq_some_iff.mp run
      exact step es u e s hu (ih hu) hstep

theorem takes_nil {s t : σ} {e : ε} : ¬ M.Takes [] s e t := by
  intro taken
  obtain ⟨before, after, heq, -, -⟩ := taken
  exact List.append_ne_nil_of_right_ne_nil before (List.cons_ne_nil e after) heq.symm

/-- A step of a run is a step of every longer run. -/
theorem Takes.snoc {es : List ε} {s t : σ} {e : ε} (h : M.Takes es s e t) (d : ε) :
    M.Takes (es ++ [d]) s e t := by
  obtain ⟨before, after, heq, run, step⟩ := h
  exact ⟨before, after ++ [d], by rw [heq, List.append_assoc]; rfl, run, step⟩

/-- The steps of a longer run are those of the shorter one and the last. -/
theorem takes_snoc {es : List ε} {e : ε} {s t : σ} (run : M.run es = some s)
    (step : M.step s e = some t) {u v : σ} {d : ε} :
    M.Takes (es ++ [e]) u d v ↔ M.Takes es u d v ∨ (u = s ∧ d = e ∧ v = t) := by
  constructor
  · intro taken
    obtain ⟨before, after, heq, hrun, hstep⟩ := taken
    rcases List.eq_nil_or_concat after with rfl | ⟨init, last, rfl⟩
    · obtain ⟨rfl, single⟩ := List.append_inj' heq rfl
      cases single
      rw [run] at hrun
      cases hrun
      rw [step] at hstep
      cases hstep
      exact Or.inr ⟨rfl, rfl, rfl⟩
    · rw [List.concat_eq_append, ← List.cons_append, ← List.append_assoc] at heq
      obtain ⟨heq, -⟩ := List.append_inj' heq rfl
      exact Or.inl ⟨before, init, heq, hrun, hstep⟩
  · intro either
    rcases either with before | ⟨rfl, rfl, rfl⟩
    · exact before.snoc e
    · exact ⟨es, [], rfl, run, step⟩

/-- **The fork rule.**  Steps that meet `C` keep a run good, the first that does not turns it bad,
and bad it stays. -/
theorem run_fork {Good Bad : σ → Prop} {C : σ → ε → Prop} (start : Good M.init)
    (keeps : ∀ s e t, Good s → M.step s e = some t → C s e → Good t)
    (breaks : ∀ s e t, Good s → M.step s e = some t → ¬ C s e → Bad t)
    (stays : ∀ s e t, Bad s → M.step s e = some t → Bad t) {es : List ε} {s : σ}
    (run : M.run es = some s) :
    ((∀ u d v, M.Takes es u d v → C u d) ∧ Good s) ∨
      ((¬ ∀ u d v, M.Takes es u d v → C u d) ∧ Bad s) := by
  refine run_induct (P := fun es s => ((∀ u d v, M.Takes es u d v → C u d) ∧ Good s) ∨
      ((¬ ∀ u d v, M.Takes es u d v → C u d) ∧ Bad s)) ?_ ?_ run
  · exact Or.inl ⟨fun u d v taken => (takes_nil taken).elim, start⟩
  · intro es s e t run either step
    rcases either with ⟨all, good⟩ | ⟨some, bad⟩
    · have last : M.Takes (es ++ [e]) s e t := (takes_snoc run step).mpr (Or.inr ⟨rfl, rfl, rfl⟩)
      by_cases hC : C s e
      · refine Or.inl ⟨fun u d v taken => ?_, keeps s e t good step hC⟩
        rcases (takes_snoc run step).mp taken with before | ⟨rfl, rfl, rfl⟩
        · exact all u d v before
        · exact hC
      · exact Or.inr ⟨fun meets => hC (meets s e t last), breaks s e t good step hC⟩
    · refine Or.inr ⟨fun meets => some fun u d v taken => ?_, stays s e t bad step⟩
      exact meets u d v ((takes_snoc run step).mpr (Or.inl taken))

/-! ## Refinement -/

/-- `abs` maps each step from a reachable state of `M` to a step of `N` or to no step at all. -/
structure Refines {τ δ : Type} (M : Lts σ ε) (N : Lts τ δ) (abs : σ → τ) : Prop where
  start : abs M.init = N.init
  step : ∀ s e t, M.Reachable s → M.step s e = some t →
    abs t = abs s ∨ ∃ d, N.step (abs s) d = some (abs t)

theorem Refines.reachable {τ δ : Type} {N : Lts τ δ} {abs : σ → τ} (h : M.Refines N abs)
    {s : σ} (hs : M.Reachable s) : N.Reachable (abs s) := by
  refine hs.induct (P := fun u => N.Reachable (abs u)) ?_ ?_
  · rw [h.start]
    exact .start
  · intro u e t hu ih hstep
    rcases h.step u e t hu hstep with same | ⟨d, hd⟩
    · rw [same]
      exact ih
    · exact ih.next hd

theorem runFrom_trans {s t u : σ} {es es' : List ε} (first : M.runFrom s es = some t)
    (second : M.runFrom t es' = some u) : M.runFrom s (es ++ es') = some u := by
  rw [runFrom_append, first]
  exact second

theorem Reachable.runFrom {s t : σ} {es : List ε} (h : M.Reachable s)
    (continued : M.runFrom s es = some t) : M.Reachable t := by
  obtain ⟨before, reached⟩ := h
  exact ⟨before ++ es, runFrom_trans reached continued⟩

/-- A run of `M` whose steps are steps of `N` elsewhere. -/
theorem runFrom_map {τ δ : Type} {N : Lts τ δ} {f : σ → τ} {g : ε → δ} {es : List ε}
    (each : ∀ e ∈ es, ∀ s t, M.step s e = some t → N.step (f s) (g e) = some (f t)) :
    ∀ {s t : σ}, M.runFrom s es = some t → N.runFrom (f s) (es.map g) = some (f t) := by
  induction es with
  | nil =>
      intro s t continued
      cases continued
      rfl
  | cons e es ih =>
      intro s t continued
      obtain ⟨u, moved, rest⟩ := Option.bind_eq_some_iff.mp continued
      have first := each e List.mem_cons_self s u moved
      simp only [List.map_cons, runFrom, first, Option.bind_some]
      exact ih (fun d member => each d (List.mem_cons_of_mem e member)) rest

/-- `abs` maps each step from a reachable state of `M` to a run of `N`. -/
structure Implements {τ δ : Type} (M : Lts σ ε) (N : Lts τ δ) (abs : σ → τ) : Prop where
  start : abs M.init = N.init
  step : ∀ s e t, M.Reachable s → M.step s e = some t →
    ∃ ds, N.runFrom (abs s) ds = some (abs t)

theorem Implements.reachable {τ δ : Type} {N : Lts τ δ} {abs : σ → τ} (h : M.Implements N abs)
    {s : σ} (hs : M.Reachable s) : N.Reachable (abs s) := by
  refine hs.induct (P := fun u => N.Reachable (abs u)) ?_ ?_
  · rw [h.start]
    exact .start
  · intro u e t hu ih hstep
    obtain ⟨ds, continued⟩ := h.step u e t hu hstep
    exact ih.runFrom continued

/-! ## Observers -/

/-- The system with an observer, whose notes no step depends on. -/
def observed {τ : Type} (M : Lts σ ε) (x : τ) (note : τ → σ → ε → σ → τ) : Lts (σ × τ) ε :=
  ⟨(M.init, x), fun s e => (M.step s.1 e).map fun t => (t, note s.2 s.1 e t)⟩

theorem observed_step {τ : Type} {x : τ} {note : τ → σ → ε → σ → τ} {s t : σ} {y z : τ} {e : ε} :
    (M.observed x note).step (s, y) e = some (t, z) ↔
      M.step s e = some t ∧ z = note y s e t := by
  unfold observed
  rw [Option.map_eq_some_iff]
  constructor
  · intro moved
    obtain ⟨u, step, same⟩ := moved
    cases same
    exact ⟨step, rfl⟩
  · intro moved
    obtain ⟨step, rfl⟩ := moved
    exact ⟨t, step, rfl⟩

theorem observed_run {τ : Type} {x : τ} {note : τ → σ → ε → σ → τ} {es : List ε} {p : σ × τ}
    (run : (M.observed x note).run es = some p) : M.run es = some p.1 := by
  apply run_induct (M := M.observed x note) (P := fun es p => M.run es = some p.1) rfl ?_ run
  intro es p e q _ ih step
  exact run_snoc_some ih (observed_step.mp step).1

end Lts
