import PingPong.Lib.Lts

/-!
# First-in first-out channels

* `Channel.lts` is the channel itself: values are put in at one end and come out at the other, in
  order.  `Channel.Reachable.isPrefix`: what came out is a prefix of what was put in.
* `SelfDelimiting` says of an encoding that a value can be told from the front of a byte string,
  whatever follows it.  `SelfDelimiting.prefix_of_flatMap`: if the encodings of a sequence, one
  after another, are a prefix of those of another, so are the sequences.
-/

structure Channel (α : Type) where
  sent : List α := []
  received : List α := []

namespace Channel

variable {α : Type}

inductive Event (α : Type) where
  | send (a : α)
  | receive

def step (c : Channel α) : Event α → Option (Channel α)
  | .send a => some { c with sent := c.sent ++ [a] }
  | .receive =>
      match c.sent.drop c.received.length with
      | [] => none
      | a :: _ => some { c with received := c.received ++ [a] }

def lts (α : Type) : Lts (Channel α) (Event α) := ⟨{}, step⟩

theorem step_receive {c : Channel α} {a : α} (h : c.received ++ [a] <+: c.sent) :
    c.step .receive = some { c with received := c.received ++ [a] } := by
  obtain ⟨rest, heq⟩ := h
  have next : c.sent.drop c.received.length = a :: rest := by
    rw [← heq, List.append_assoc, List.drop_left]
    rfl
  simp only [step, next]

/-- One step, or none. -/
def Moves (c c' : Channel α) : Prop := c' = c ∨ ∃ e, c.step e = some c'

/-- At most one value has been added at the end. -/
def Extends (xs ys : List α) : Prop := ys = xs ∨ ∃ a, ys = xs ++ [a]

theorem Extends.moves {xs ys : List α} (h : Extends xs ys) (received : List α) :
    Moves ⟨xs, received⟩ ⟨ys, received⟩ := by
  rcases h with rfl | ⟨a, rfl⟩
  · exact Or.inl rfl
  · exact Or.inr ⟨.send a, rfl⟩

theorem moves_of_next {sent received rest : List α} {a : α}
    (next : sent.drop received.length = a :: rest) :
    Moves ⟨sent, received⟩ ⟨sent, received ++ [a]⟩ := by
  refine Or.inr ⟨.receive, ?_⟩
  simp only [step, next]

/-- The last of a prefix is the next of the whole. -/
theorem getElem?_of_snoc_isPrefix {xs ys : List α} {a : α} (h : xs ++ [a] <+: ys) :
    ys[xs.length]? = some a := by
  obtain ⟨rest, rfl⟩ := h
  rw [List.append_assoc, List.getElem?_append_right (Nat.le_refl _), Nat.sub_self]
  rfl

/-- What comes out next extends what came out. -/
theorem isPrefix_of_next {sent received rest : List α} {a : α} (h : received <+: sent)
    (next : sent.drop received.length = a :: rest) : received ++ [a] <+: sent := by
  obtain ⟨tail, heq⟩ := h
  rw [← heq, List.drop_left] at next
  refine ⟨rest, ?_⟩
  rw [← heq, next, List.append_assoc]
  rfl

theorem Reachable.isPrefix {c : Channel α} (h : (lts α).Reachable c) : c.received <+: c.sent := by
  refine h.induct (P := fun c => c.received <+: c.sent) List.nil_prefix ?_
  intro c e c' _ ih step
  cases e with
  | send a =>
      cases step
      exact ih.trans (List.prefix_append _ _)
  | receive =>
      have found : c.step .receive = some c' := step
      simp only [Channel.step] at found
      split at found
      · cases found
      · rename_i a rest next
        cases found
        exact isPrefix_of_next ih next

end Channel

/-! ## Self-delimiting encodings -/

/-- Every code word of a `P` value is nonempty, and a code word at the front of a string determines
the value. -/
structure SelfDelimiting {α β : Type} (P : α → Prop) (f : α → List β) : Prop where
  nonempty : ∀ x, P x → f x ≠ []
  unique : ∀ x y u v, P x → P y → f x ++ u = f y ++ v → x = y

theorem SelfDelimiting.prefix_of_flatMap {α β : Type} {P : α → Prop} {f : α → List β}
    (h : SelfDelimiting P f) {xs ys : List α} (hx : ∀ x ∈ xs, P x) (hy : ∀ y ∈ ys, P y)
    (words : xs.flatMap f <+: ys.flatMap f) : xs <+: ys := by
  induction xs generalizing ys with
  | nil => exact List.nil_prefix
  | cons x xs ih =>
      obtain ⟨rest, heq⟩ := words
      rw [List.flatMap_cons, List.append_assoc] at heq
      have first : P x := hx x List.mem_cons_self
      cases ys with
      | nil =>
          have none : f x = [] := (List.append_eq_nil_iff.mp heq).1
          exact (h.nonempty x first none).elim
      | cons y ys =>
          rw [List.flatMap_cons] at heq
          obtain rfl : x = y := h.unique x y _ _ first (hy y List.mem_cons_self) heq
          have tails : xs.flatMap f <+: ys.flatMap f := ⟨rest, List.append_cancel_left heq⟩
          have smaller : xs <+: ys :=
            ih (fun z hz => hx z (List.mem_cons_of_mem x hz))
              (fun z hz => hy z (List.mem_cons_of_mem x hz)) tails
          exact List.cons_prefix_cons.mpr ⟨rfl, smaller⟩
