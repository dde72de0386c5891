import Mathlib.Data.List.Basic

/-!
# Queues that are worked off from the front

What is accepted is counted as pending and posted; a posted element is queued later, and if the
queue was empty, work on it starts.  Work on the front element is in flight until it is finished or
fails, and finishing it starts work on the next.

* `Running` holds as long as no work has failed: an element is being worked on whenever there is
  one, so a pump with nothing posted and nothing in flight is empty (`Running.drained`).
* `Stuck` holds from the first failure on: the failed element stays in front, which is what keeps
  the elements queued behind it from starting work, and the pending count never comes down.
-/

structure Pump (α : Type) where
  posted : List α := []
  queue : List α := []
  pending : Nat := 0
  /-- How much work is in flight. -/
  busy : Nat := 0

namespace Pump

variable {α : Type}

inductive Step (p : Pump α) : Pump α → Prop
  | idle : Step p p
  | accept (a : α) : Step p { p with posted := p.posted ++ [a], pending := p.pending + 1 }
  | push (a : α) (later : List α) : p.posted = a :: later →
    Step p
      { p with
        posted := later
        queue := p.queue ++ [a]
        busy := if p.queue.isEmpty then p.busy + 1 else p.busy }
  | finish (a : α) (later : List α) : p.queue = a :: later → 0 < p.busy →
    Step p
      { p with
        queue := later
        pending := p.pending - 1
        busy := if later.isEmpty then p.busy - 1 else p.busy }

/-- The work in flight fails; its element stays where it is. -/
def fail (p : Pump α) : Pump α := { p with busy := p.busy - 1 }

/-- What is pending is posted or queued. -/
def Counted (p : Pump α) : Prop := p.pending = p.posted.length + p.queue.length

structure Running (p : Pump α) : Prop where
  counted : p.Counted
  one : p.busy = min 1 p.queue.length

structure Stuck (p : Pump α) : Prop where
  counted : p.Counted
  idle : p.busy = 0
  queued : p.queue ≠ []

theorem Counted.step {p p' : Pump α} (h : p.Counted) (step : Step p p') : p'.Counted := by
  unfold Counted at *
  cases step with
  | idle => exact h
  | accept a =>
      simp only [List.length_append, List.length_singleton]
      omega
  | push a later posted =>
      rw [posted, List.length_cons] at h
      simp only [List.length_append, List.length_singleton]
      omega
  | finish a later queue busy =>
      rw [queue, List.length_cons] at h
      simp only
      omega

theorem Running.start : Running ({} : Pump α) := ⟨rfl, rfl⟩

theorem Running.queued {p : Pump α} (h : p.Running) (busy : 0 < p.busy) : p.queue ≠ [] := by
  have one := h.one
  apply List.ne_nil_of_length_pos
  omega

theorem Running.step {p p' : Pump α} (h : p.Running) (step : Step p p') : p'.Running := by
  refine ⟨h.counted.step step, ?_⟩
  have one := h.one
  cases step with
  | idle => exact one
  | accept a => exact one
  | push a later posted =>
      cases queue : p.queue with
      | nil =>
          rw [queue] at one
          simp only [List.isEmpty_nil, if_true, one]
          rfl
      | cons b rest =>
          rw [queue, List.length_cons] at one
          simp only [List.isEmpty_cons, List.length_append, List.length_cons]
          rw [if_neg Bool.false_ne_true, one]
          omega
  | finish a later queue busy =>
      rw [queue, List.length_cons] at one
      cases later with
      | nil =>
          simp only [List.isEmpty_nil, if_true, one]
          rfl
      | cons b rest =>
          simp only [List.isEmpty_cons, List.length_cons]
          rw [if_neg Bool.false_ne_true, one, List.length_cons]
          omega

theorem Running.fail {p : Pump α} (h : p.Running) (busy : 0 < p.busy) : p.fail.Stuck := by
  have one := h.one
  refine ⟨h.counted, ?_, h.queued busy⟩
  change p.busy - 1 = 0
  omega

theorem Stuck.step {p p' : Pump α} (h : p.Stuck) (step : Step p p') : p'.Stuck := by
  have counted := h.counted.step step
  cases step with
  | idle => exact h
  | accept a => exact ⟨counted, h.idle, h.queued⟩
  | push a later posted =>
      refine ⟨counted, ?_, List.append_ne_nil_of_left_ne_nil h.queued [a]⟩
      simp only
      rw [if_neg fun empty => h.queued (List.isEmpty_iff.mp empty)]
      exact h.idle
  | finish a later queue busy =>
      rw [h.idle] at busy
      exact absurd busy (Nat.lt_irrefl 0)

/-- A running pump has come to rest only when everything is done. -/
theorem Running.drained {p : Pump α} (h : p.Running) (posted : p.posted = []) (idle : p.busy = 0) :
    p.pending = 0 ∧ p.queue = [] := by
  have counted := h.counted
  have one := h.one
  have empty : p.queue = [] := by
    apply List.eq_nil_of_length_eq_zero
    omega
  unfold Counted at counted
  rw [posted, empty] at counted
  exact ⟨counted, empty⟩

end Pump
