import Mathlib.Logic.Function.Basic

/-!
# First-come directories

A directory maps each key to the owner that claimed it and to what the owner attached.  A claim goes
through where the key is free and changes nothing where it is not; an owner that registers gives up
what it held before.  `mem_evict` and `mem_register` say which entries are there afterwards, and
every other fact about the operations follows from these two.
-/

/-- A partial map from keys to owners and values. -/
abbrev Directory (γ κ α : Type) : Type := γ → Option (κ × α)

namespace Directory

variable {γ κ α : Type}

def empty : Directory γ κ α := fun _ => none

/-- Remove the entries of every owner that is gone. -/
def evict (d : Directory γ κ α) (gone : κ → Prop) [DecidablePred gone] : Directory γ κ α :=
  fun k => (d k).filter fun entry => ¬ gone entry.1

/-- The key belongs to nobody but, perhaps, this owner. -/
def FreeFor (d : Directory γ κ α) (o : κ) (k : γ) : Prop := ∀ entry, d k = some entry → entry.1 = o

theorem mem_evict {d : Directory γ κ α} {gone : κ → Prop} [DecidablePred gone] {k : γ}
    {entry : κ × α} : d.evict gone k = some entry ↔ d k = some entry ∧ ¬ gone entry.1 := by
  unfold evict
  rw [Option.filter_eq_some_iff, decide_eq_true_iff]

/-- Nobody goes, nothing changes. -/
theorem evict_of_none {d : Directory γ κ α} {gone : κ → Prop} [DecidablePred gone]
    (none : ∀ o, ¬ gone o) : d.evict gone = d := by
  apply funext
  intro k
  apply Option.ext
  intro entry
  rw [mem_evict]
  exact and_iff_left (none entry.1)

variable [DecidableEq γ] [DecidableEq κ]

/-- Add an entry, unless the key has one. -/
def claim (d : Directory γ κ α) (o : κ) (k : γ) (a : α) : Directory γ κ α :=
  if (d k).isNone then Function.update d k (some (o, a)) else d

/-- Give up what `o` holds, then claim. -/
def register (d : Directory γ κ α) (o : κ) (k : γ) (a : α) : Directory γ κ α :=
  (d.evict (· = o)).claim o k a

omit [DecidableEq γ] in
theorem freeFor_iff_evicted {d : Directory γ κ α} {o : κ} {k : γ} :
    d.FreeFor o k ↔ d.evict (· = o) k = none := by
  rw [Option.eq_none_iff_forall_ne_some]
  constructor
  · intro free entry held
    obtain ⟨before, other⟩ := mem_evict.mp held
    exact other (free entry before)
  · intro unheld entry held
    by_contra other
    exact unheld entry (mem_evict.mpr ⟨held, other⟩)

theorem mem_register {d : Directory γ κ α} {o : κ} {k j : γ} {a : α} {entry : κ × α} :
    d.register o k a j = some entry ↔
      (j = k ∧ entry = (o, a) ∧ d.FreeFor o k) ∨ (d j = some entry ∧ entry.1 ≠ o) := by
  unfold register claim
  split
  · rename_i unheld
    have free : d.FreeFor o k := freeFor_iff_evicted.mpr (Option.isNone_iff_eq_none.mp unheld)
    rcases eq_or_ne j k with rfl | ne
    · rw [Function.update_self, Option.some.injEq]
      constructor
      · intro same
        obtain rfl := same
        exact Or.inl ⟨rfl, rfl, free⟩
      · intro after
        rcases after with ⟨-, rfl, -⟩ | ⟨held, other⟩
        · rfl
        · exact (other (free entry held)).elim
    · rw [Function.update_of_ne ne, mem_evict]
      constructor
      · exact Or.inr
      · intro after
        rcases after with ⟨same, -, -⟩ | held
        · exact (ne same).elim
        · exact held
  · rename_i held
    have taken : ¬ d.FreeFor o k := fun free =>
      held (Option.isNone_iff_eq_none.mpr (freeFor_iff_evicted.mp free))
    rw [mem_evict]
    constructor
    · exact Or.inr
    · intro after
      rcases after with ⟨-, -, free⟩ | held
      · exact (taken free).elim
      · exact held

end Directory
