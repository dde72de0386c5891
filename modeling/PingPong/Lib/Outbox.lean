import Mathlib.Data.List.Basic

/-!
# Queues that close after they have been flushed

What is accepted, and a request to close, is first posted as a task; the tasks run in order, and a
request that finds the queue nonempty only marks it, so that it closes when its last element is
done.  Nothing is accepted once the outbox is closed.

* `Outbox.Step` is everything but a request; an outbox that has accepted nothing may be given up.
* `Outbox.Promised ms`: `ms` is done before the outbox closes.  `Untouched.promised`: before the
  first request this is so of everything accepted, and every step and every further request keeps
  it.
* `Outbox.Balanced`: the count of what is posted or queued, and when a marked outbox closes.
-/

/-- What a posted handler does when it runs. -/
inductive Outbox.Task (α : Type) where
  | push (a : α)
  | close

structure Outbox (α : Type) where
  accepted : List α := []
  done : List α := []
  queue : List α := []
  /-- The tasks posted and not yet run, oldest first. -/
  tasks : List (Outbox.Task α) := []
  pending : Nat := 0
  closing : Bool := false
  isOpen : Bool := true

namespace Outbox

variable {α : Type}

/-- The elements the tasks will push. -/
def posted : List (Task α) → List α
  | [] => []
  | .push a :: tasks => a :: posted tasks
  | .close :: tasks => posted tasks

/-- The elements pushed by the tasks in front of the first request. -/
def ahead : List (Task α) → List α
  | [] => []
  | .push a :: tasks => a :: ahead tasks
  | .close :: _ => []

theorem posted_append (xs ys : List (Task α)) : posted (xs ++ ys) = posted xs ++ posted ys := by
  induction xs with
  | nil => rfl
  | cons task tasks ih =>
      cases task with
      | push a => exact congrArg (a :: ·) ih
      | close => exact ih

theorem ahead_isPrefix_append (xs ys : List (Task α)) : ahead xs <+: ahead (xs ++ ys) := by
  induction xs with
  | nil => exact List.nil_prefix
  | cons task tasks ih =>
      cases task with
      | push a => exact List.cons_prefix_cons.mpr ⟨rfl, ih⟩
      | close => exact List.nil_prefix

theorem ahead_isPrefix_posted (tasks : List (Task α)) : ahead tasks <+: posted tasks := by
  induction tasks with
  | nil => exact List.nil_prefix
  | cons task tasks ih =>
      cases task with
      | push a => exact List.cons_prefix_cons.mpr ⟨rfl, ih⟩
      | close => exact List.nil_prefix

theorem ahead_eq_posted {tasks : List (Task α)} (h : Task.close ∉ tasks) :
    ahead tasks = posted tasks := by
  induction tasks with
  | nil => rfl
  | cons task tasks ih =>
      cases task with
      | push a => exact congrArg (a :: ·) (ih fun member => h (List.mem_cons_of_mem _ member))
      | close => exact (h List.mem_cons_self).elim

/-! ## Steps -/

def request (b : Outbox α) : Outbox α := { b with tasks := b.tasks ++ [.close] }

inductive Step (b : Outbox α) : Outbox α → Prop
  | idle : Step b b
  | accept (a : α) :
    b.isOpen = true →
    Step b
      { b with
        accepted := b.accepted ++ [a]
        tasks := b.tasks ++ [.push a]
        pending := b.pending + 1 }
  | push (a : α) (later : List (Task α)) :
    b.tasks = .push a :: later → Step b { b with tasks := later, queue := b.queue ++ [a] }
  | close (later : List (Task α)) :
    b.tasks = .close :: later → b.queue = [] → Step b { b with tasks := later, isOpen := false }
  | mark (later : List (Task α)) :
    b.tasks = .close :: later → b.queue ≠ [] → Step b { b with tasks := later, closing := true }
  | finish (a : α) (rest : List α) :
    b.queue = a :: rest →
    Step b
      { b with
        done := b.done ++ [a]
        queue := rest
        pending := b.pending - 1
        isOpen := b.isOpen && !(b.closing && rest.isEmpty) }
  | giveUp : b.accepted = [] → Step b { b with isOpen := false }

/-! ## Accounting -/

structure Balanced (b : Outbox α) : Prop where
  accounted : b.accepted = b.done ++ b.queue ++ posted b.tasks
  pending : b.pending = (posted b.tasks).length + b.queue.length
  flushed : b.closing = true → b.queue = [] → b.isOpen = false

theorem Balanced.start : Balanced ({} : Outbox α) := ⟨rfl, rfl, fun closing => nomatch closing⟩

theorem Balanced.request {b : Outbox α} (h : b.Balanced) : b.request.Balanced := by
  have same : posted b.request.tasks = posted b.tasks := by
    rw [Outbox.request, posted_append]
    exact List.append_nil _
  constructor
  · rw [same]
    exact h.accounted
  · rw [same]
    exact h.pending
  · exact h.flushed

theorem Balanced.step {b b' : Outbox α} (h : b.Balanced) (step : Step b b') : b'.Balanced := by
  have accounted := h.accounted
  have pending := h.pending
  cases step with
  | idle => exact h
  | accept a isOpen =>
      refine ⟨?_, ?_, h.flushed⟩
      · simp only [posted_append, posted, accounted, List.append_assoc]
      · simp only [posted_append, posted, List.length_append, List.length_cons, List.length_nil]
        omega
  | push a later next =>
      rw [next] at accounted pending
      refine ⟨?_, ?_, fun _ empty => ?_⟩
      · simp only [accounted, posted, List.append_assoc, List.cons_append, List.nil_append]
      · simp only [posted, List.length_cons] at pending
        simp only [List.length_append, List.length_cons, List.length_nil]
        omega
      · exact (List.append_ne_nil_of_right_ne_nil _ (List.cons_ne_nil a []) empty).elim
  | close later next empty =>
      rw [next] at accounted pending
      exact ⟨accounted, pending, fun _ _ => rfl⟩
  | mark later next nonempty =>
      rw [next] at accounted pending
      exact ⟨accounted, pending, fun _ empty => (nonempty empty).elim⟩
  | finish a rest queue =>
      rw [queue] at accounted pending
      refine ⟨?_, ?_, fun closing empty => ?_⟩
      · simp only [accounted, List.append_assoc, List.cons_append, List.nil_append]
      · simp only [List.length_cons] at pending
        dsimp only
        omega
      · have closing : b.closing = true := closing
        have empty : rest = [] := empty
        simp only [closing, empty, List.isEmpty_nil, Bool.and_self, Bool.not_true, Bool.and_false]
  | giveUp none => exact ⟨accounted, pending, fun _ _ => rfl⟩

/-! ## What is done before the outbox closes -/

structure Promised (ms : List α) (b : Outbox α) : Prop where
  ahead : ms <+: b.done ++ b.queue ++ ahead b.tasks
  closing : b.closing = true → ms <+: b.done ++ b.queue
  closed : b.isOpen = false → ms <+: b.done

theorem Promised.request {ms : List α} {b : Outbox α} (h : b.Promised ms) :
    b.request.Promised ms := by
  refine ⟨h.ahead.trans ?_, h.closing, h.closed⟩
  exact (List.prefix_append_right_inj _).mpr (ahead_isPrefix_append _ _)

theorem Promised.step {ms : List α} {b b' : Outbox α} (h : b.Promised ms) (balanced : b.Balanced)
    (step : Step b b') : b'.Promised ms := by
  have before := h.ahead
  cases step with
  | idle => exact h
  | accept a isOpen =>
      refine ⟨before.trans ?_, h.closing, h.closed⟩
      exact (List.prefix_append_right_inj _).mpr (ahead_isPrefix_append _ _)
  | push a later next =>
      rw [next] at before
      refine ⟨?_, fun closing => (h.closing closing).trans ?_, h.closed⟩
      · simpa only [Outbox.ahead, List.append_assoc, List.cons_append, List.nil_append]
          using before
      · rw [← List.append_assoc]
        exact List.prefix_append _ _
  | close later next empty =>
      -- The first task is the request, so all of `ms` is done or queued, and nothing is queued.
      rw [next, empty] at before
      have done : ms <+: b.done := by
        simpa only [Outbox.ahead, List.append_nil] using before
      have grows : ∀ xs : List α, ms <+: b.done ++ xs := fun xs =>
        done.trans (List.prefix_append _ _)
      refine ⟨?_, fun _ => grows _, fun _ => done⟩
      rw [List.append_assoc]
      exact grows _
  | mark later next nonempty =>
      rw [next] at before
      have queued : ms <+: b.done ++ b.queue := by
        simpa only [Outbox.ahead, List.append_nil] using before
      exact ⟨queued.trans (List.prefix_append _ _), fun _ => queued, h.closed⟩
  | finish a rest queue =>
      have moved : ∀ xs : List α, b.done ++ [a] ++ rest ++ xs = b.done ++ b.queue ++ xs := by
        intro xs
        simp only [queue, List.append_assoc, List.cons_append, List.nil_append]
      have queued : b.done ++ [a] ++ rest = b.done ++ b.queue := by
        simpa only [List.append_nil] using moved []
      refine ⟨?_, fun closing => ?_, fun closed => ?_⟩
      · rw [moved]
        exact before
      · rw [queued]
        exact h.closing closing
      · cases wasOpen : b.isOpen with
        | false => exact (h.closed wasOpen).trans (List.prefix_append _ _)
        | true =>
            simp only [wasOpen, Bool.true_and, Bool.not_eq_false', Bool.and_eq_true,
              List.isEmpty_iff] at closed
            obtain ⟨closing, last⟩ := closed
            rw [last, List.append_nil] at queued
            rw [queued]
            exact h.closing closing
  | giveUp none =>
      have whole := before.trans
        ((List.prefix_append_right_inj (b.done ++ b.queue)).mpr (ahead_isPrefix_posted b.tasks))
      rw [← balanced.accounted, none] at whole
      have nothing : ms = [] := List.prefix_nil.mp whole
      rw [nothing]
      exact ⟨List.nil_prefix, fun _ => List.nil_prefix, fun _ => List.nil_prefix⟩

/-! ## Before the first request -/

structure Untouched (b : Outbox α) : Prop where
  unmarked : b.closing = false
  unrequested : Task.close ∉ b.tasks
  closed : b.isOpen = false → b.accepted = []

theorem Untouched.start : Untouched ({} : Outbox α) :=
  ⟨rfl, List.not_mem_nil, fun closed => nomatch closed⟩

theorem Untouched.promised {b : Outbox α} (h : b.Untouched) (balanced : b.Balanced) :
    b.Promised b.accepted := by
  constructor
  · exact ⟨[], by
      rw [ahead_eq_posted h.unrequested, ← balanced.accounted, List.append_nil]⟩
  · intro closing
    rw [h.unmarked] at closing
    cases closing
  · intro closed
    rw [h.closed closed]
    exact List.nil_prefix

theorem Untouched.step {b b' : Outbox α} (h : b.Untouched) (balanced : b.Balanced)
    (step : Step b b') : b'.Untouched := by
  have unrequested := h.unrequested
  cases step with
  | idle => exact h
  | accept a isOpen =>
      refine ⟨h.unmarked, ?_, fun closed => ?_⟩
      · intro member
        rcases List.mem_append.mp member with old | new
        · exact unrequested old
        · cases List.mem_singleton.mp new
      · rw [isOpen] at closed
        cases closed
  | push a later next =>
      rw [next] at unrequested
      exact ⟨h.unmarked, fun member => unrequested (List.mem_cons_of_mem _ member), h.closed⟩
  | close later next empty =>
      rw [next] at unrequested
      exact (unrequested List.mem_cons_self).elim
  | mark later next nonempty =>
      rw [next] at unrequested
      exact (unrequested List.mem_cons_self).elim
  | finish a rest queue =>
      refine ⟨h.unmarked, unrequested, fun closed => ?_⟩
      have shut : b.isOpen = false := by
        simpa only [h.unmarked, Bool.false_and, Bool.not_false, Bool.and_true] using closed
      have nothing := balanced.accounted
      rw [h.closed shut, queue] at nothing
      simp at nothing
  | giveUp none => exact ⟨h.unmarked, unrequested, fun _ => none⟩

end Outbox
