import Mathlib.Logic.Function.Basic

/-!
# Dictionaries whose insertion can be refused

A `Dict` is a partial map; a `Bimap` is a one-to-one relation kept as the two partial maps that
read it from either side, with their agreement as a field.  Insertion never overwrites: a `Dict`
refuses a key it holds, and a `Bimap` refuses a pair either side of which it holds.  Both refusals
are silent, so the result of an insertion says nothing about whether it took place.

`restrict` keeps the entries of some of the keys.  The operations on a key that is kept commute with
it, and those on any other key are not seen through it.
-/

/-- A partial map. -/
abbrev Dict (α β : Type) : Type := α → Option β

namespace Dict

variable {α β : Type} [DecidableEq α]

/-- Insertion, refused where the key is taken. -/
def insert (m : Dict α β) (a : α) (b : β) : Dict α β :=
  if m a = none then Function.update m a (some b) else m

def erase (m : Dict α β) (a : α) : Dict α β := Function.update m a none

@[simp] theorem erase_self (m : Dict α β) (a : α) : m.erase a a = none := by
  rw [erase, Function.update_self]

@[simp] theorem erase_of_ne {m : Dict α β} {a a' : α} (h : a' ≠ a) : m.erase a a' = m a' := by
  rw [erase, Function.update_of_ne h]

theorem insert_self_of_free {m : Dict α β} {a : α} {b : β} (h : m a = none) :
    m.insert a b a = some b := by
  rw [insert, if_pos h]
  exact Function.update_self a (some b) m

theorem insert_of_taken {m : Dict α β} {a : α} {b : β} (h : m a ≠ none) : m.insert a b = m :=
  if_neg h

@[simp] theorem insert_of_ne {m : Dict α β} {a a' : α} {b : β} (h : a' ≠ a) :
    m.insert a b a' = m a' := by
  unfold insert
  split
  · exact Function.update_of_ne h (some b) m
  · rfl

/-- Erasing a key first lets the insertion through. -/
@[simp] theorem insert_erase_self (m : Dict α β) (a : α) (b : β) :
    (m.erase a).insert a b a = some b :=
  insert_self_of_free (erase_self m a)

/-- An insertion never disturbs an entry. -/
theorem insert_keeps {m : Dict α β} {a a' : α} {b b' : β} (h : m a' = some b') :
    m.insert a b a' = some b' := by
  by_cases same : a' = a
  · subst same
    rw [insert_of_taken (by rw [h]; exact Option.some_ne_none b')]
    exact h
  · rw [insert_of_ne same]
    exact h

/-! ## Restriction to some of the keys -/

def restrict (m : Dict α β) (keep : α → Bool) : Dict α β := fun a => if keep a then m a else none

omit [DecidableEq α] in
theorem restrict_empty (keep : α → Bool) :
    Dict.restrict (fun _ => none : Dict α β) keep = fun _ => none :=
  funext fun _ => ite_self _

theorem restrict_insert {m : Dict α β} {keep : α → Bool} {a : α} (kept : keep a = true) (b : β) :
    (m.insert a b).restrict keep = (m.restrict keep).insert a b := by
  funext x
  rcases eq_or_ne x a with rfl | ne
  · have here : m.restrict keep x = m x := if_pos kept
    rw [restrict, if_pos kept]
    by_cases free : m x = none
    · rw [insert_self_of_free free, insert_self_of_free (here.trans free)]
    · rw [insert_of_taken free, insert_of_taken (by rw [here]; exact free), here]
  · rw [insert_of_ne ne, restrict, restrict, insert_of_ne ne]

theorem restrict_insert_of_other {m : Dict α β} {keep : α → Bool} {a : α} (other : keep a = false)
    (b : β) : (m.insert a b).restrict keep = m.restrict keep := by
  funext x
  rcases eq_or_ne x a with rfl | ne
  · rw [restrict, restrict, other]
    rfl
  · rw [restrict, restrict, insert_of_ne ne]

theorem restrict_erase (m : Dict α β) (keep : α → Bool) (a : α) :
    (m.erase a).restrict keep = (m.restrict keep).erase a := by
  funext x
  rcases eq_or_ne x a with rfl | ne
  · rw [erase_self, restrict, erase_self, ite_self]
  · rw [erase_of_ne ne, restrict, restrict, erase_of_ne ne]

theorem restrict_erase_of_other {m : Dict α β} {keep : α → Bool} {a : α}
    (other : keep a = false) : (m.restrict keep).erase a = m.restrict keep := by
  funext x
  rcases eq_or_ne x a with rfl | ne
  · rw [erase_self, restrict, other]
    rfl
  · rw [erase_of_ne ne]

end Dict

/-- A one-to-one relation between `α` and `β`, readable from either side. -/
structure Bimap (α β : Type) where
  left : Dict α β
  right : Dict β α
  mirror : ∀ a b, left a = some b ↔ right b = some a

namespace Bimap

variable {α β : Type}

theorem right_of_left (m : Bimap α β) {a : α} {b : β} (h : m.left a = some b) :
    m.right b = some a :=
  (m.mirror a b).mp h

theorem left_of_right (m : Bimap α β) {a : α} {b : β} (h : m.right b = some a) :
    m.left a = some b :=
  (m.mirror a b).mpr h

/-- A right key has one left partner. -/
theorem left_inj (m : Bimap α β) {a a' : α} {b : β} (h : m.left a = some b)
    (h' : m.left a' = some b) : a = a' :=
  Option.some.inj ((m.right_of_left h).symm.trans (m.right_of_left h'))

def empty : Bimap α β := ⟨fun _ => none, fun _ => none, fun _ _ => by simp⟩

variable [DecidableEq α] [DecidableEq β]

private theorem mirror_insert (m : Bimap α β) {a : α} {b : β}
    (ha : m.left a = none) (hb : m.right b = none) (x : α) (y : β) :
    Function.update m.left a (some b) x = some y ↔
      Function.update m.right b (some a) y = some x := by
  by_cases hx : x = a <;> by_cases hy : y = b
  · subst hx hy
    simp
  · subst hx
    rw [Function.update_self, Function.update_of_ne hy, ← m.mirror, ha]
    simpa using fun h : b = y => hy h.symm
  · subst hy
    rw [Function.update_of_ne hx, Function.update_self, m.mirror, hb]
    simpa using fun h : a = x => hx h.symm
  · rw [Function.update_of_ne hx, Function.update_of_ne hy]
    exact m.mirror x y

private theorem mirror_erase (m : Bimap α β) {a : α} {b : β} (h : m.left a = some b)
    (x : α) (y : β) :
    Function.update m.left a none x = some y ↔ Function.update m.right b none y = some x := by
  by_cases hx : x = a <;> by_cases hy : y = b
  · subst hx hy
    simp
  · subst hx
    rw [Function.update_self, Function.update_of_ne hy, ← m.mirror, h]
    simpa using fun e : b = y => hy e.symm
  · subst hy
    rw [Function.update_of_ne hx, Function.update_self, m.mirror]
    constructor
    · intro hxy
      exact (hx (m.left_inj (m.left_of_right hxy) h)).elim
    · rintro ⟨⟩
  · rw [Function.update_of_ne hx, Function.update_of_ne hy]
    exact m.mirror x y

/-- Insertion of a pair, refused where either side is taken. -/
def insert (m : Bimap α β) (a : α) (b : β) : Bimap α β :=
  if ha : m.left a = none then
    if hb : m.right b = none then
      ⟨Function.update m.left a (some b), Function.update m.right b (some a),
        m.mirror_insert ha hb⟩
    else m
  else m

/-- Erasure of the pair with the given left key. -/
def eraseLeft (m : Bimap α β) (a : α) : Bimap α β :=
  match h : m.left a with
  | none => m
  | some b =>
      ⟨Function.update m.left a none, Function.update m.right b none, m.mirror_erase h⟩

theorem left_eraseLeft (m : Bimap α β) (a : α) :
    (m.eraseLeft a).left = Function.update m.left a none := by
  unfold eraseLeft
  split
  · rename_i h
    exact (Function.update_eq_self_iff.mpr h.symm).symm
  · rfl

@[simp] theorem left_eraseLeft_self (m : Bimap α β) (a : α) : (m.eraseLeft a).left a = none := by
  rw [left_eraseLeft, Function.update_self]

@[simp] theorem left_eraseLeft_of_ne {m : Bimap α β} {a a' : α} (h : a' ≠ a) :
    (m.eraseLeft a).left a' = m.left a' := by
  rw [left_eraseLeft, Function.update_of_ne h]

theorem right_eraseLeft (m : Bimap α β) (a : α) (b : β) :
    (m.eraseLeft a).right b = if m.right b = some a then none else m.right b := by
  refine Option.ext fun x => ?_
  rw [← mirror, left_eraseLeft]
  by_cases hx : x = a
  · subst hx
    rw [Function.update_self]
    split <;> simp_all
  · rw [Function.update_of_ne hx, m.mirror]
    split
    · rename_i h
      rw [h]
      simpa using fun e : a = x => hx e.symm
    · rfl

theorem insert_of_free {m : Bimap α β} {a : α} {b : β} (ha : m.left a = none)
    (hb : m.right b = none) : (m.insert a b).left = Function.update m.left a (some b) := by
  rw [insert, dif_pos ha, dif_pos hb]

theorem insert_of_left {m : Bimap α β} {a : α} {b : β} (ha : m.left a ≠ none) :
    m.insert a b = m :=
  dif_neg ha

theorem insert_of_right {m : Bimap α β} {a : α} {b : β} (hb : m.right b ≠ none) :
    m.insert a b = m := by
  by_cases ha : m.left a = none
  · rw [insert, dif_pos ha, dif_neg hb]
  · exact insert_of_left ha

@[simp] theorem left_insert_of_ne {m : Bimap α β} {a a' : α} {b : β} (h : a' ≠ a) :
    (m.insert a b).left a' = m.left a' := by
  unfold insert
  split
  · split
    · exact Function.update_of_ne h (some b) m.left
    · rfl
  · rfl

/-- An insertion never disturbs a pair. -/
theorem insert_keeps {m : Bimap α β} {a a' : α} {b b' : β} (h : m.left a' = some b') :
    (m.insert a b).left a' = some b' := by
  by_cases same : a' = a
  · subst same
    rw [insert_of_left (by rw [h]; exact Option.some_ne_none b')]
    exact h
  · rw [left_insert_of_ne same]
    exact h

/-- What an inserted key reads afterwards: the new partner if both sides were free, else what it
read before. -/
theorem left_insert_self (m : Bimap α β) (a : α) (b : β) :
    (m.insert a b).left a =
      if m.left a = none ∧ m.right b = none then some b else m.left a := by
  by_cases ha : m.left a = none
  · by_cases hb : m.right b = none
    · rw [insert_of_free ha hb, Function.update_self, if_pos ⟨ha, hb⟩]
    · rw [insert_of_right hb, if_neg fun h => hb h.2]
  · rw [insert_of_left ha, if_neg fun h => ha h.1]

/-! ## Restriction to some of the left keys -/

omit [DecidableEq α] [DecidableEq β] in
/-- The side read from the left determines the other. -/
theorem eq_of_left {m n : Bimap α β} (same : m.left = n.left) : m = n := by
  have right : m.right = n.right := by
    funext b
    refine Option.ext fun a => ?_
    rw [← m.mirror, ← n.mirror, same]
  obtain ⟨left, right', mirror⟩ := m
  obtain ⟨left', right'', mirror'⟩ := n
  cases same
  cases right
  rfl

omit [DecidableEq α] [DecidableEq β] in
private theorem mirror_restrict (m : Bimap α β) (keep : α → Bool) (a : α) (b : β) :
    (if keep a then m.left a else none) = some b ↔ (m.right b).filter keep = some a := by
  rw [Option.filter_eq_some_iff, ← m.mirror]
  split
  · rename_i kept
    exact ⟨fun found => ⟨found, kept⟩, fun both => both.1⟩
  · rename_i other
    exact iff_of_false nofun fun both => other both.2

/-- The pairs with a left side that is kept. -/
def restrict (m : Bimap α β) (keep : α → Bool) : Bimap α β :=
  ⟨fun a => if keep a then m.left a else none, fun b => (m.right b).filter keep,
    m.mirror_restrict keep⟩

omit [DecidableEq α] [DecidableEq β] in
theorem restrict_empty (keep : α → Bool) :
    (Bimap.empty : Bimap α β).restrict keep = .empty :=
  eq_of_left (funext fun _ => ite_self _)

omit [DecidableEq α] [DecidableEq β] in
/-- Looking up a right key whose partner is kept. -/
theorem right_restrict {m : Bimap α β} {keep : α → Bool} {b : β}
    (own : ∀ a, m.right b = some a → keep a = true) : (m.restrict keep).right b = m.right b := by
  change (m.right b).filter keep = m.right b
  cases found : m.right b with
  | none => rfl
  | some a => exact Option.filter_some_pos (own a found)

theorem restrict_insert {m : Bimap α β} {keep : α → Bool} {a : α} {b : β} (kept : keep a = true)
    (own : ∀ a', m.right b = some a' → keep a' = true) :
    (m.insert a b).restrict keep = (m.restrict keep).insert a b := by
  refine eq_of_left (funext fun x => ?_)
  change (if keep x then (m.insert a b).left x else none) = _
  rcases eq_or_ne x a with rfl | ne
  · have here : (m.restrict keep).left x = m.left x := if_pos kept
    rw [if_pos kept, left_insert_self, left_insert_self, right_restrict own, here]
  · rw [left_insert_of_ne ne, left_insert_of_ne ne]
    rfl

theorem restrict_insert_of_other {m : Bimap α β} {keep : α → Bool} {a : α} {b : β}
    (other : keep a = false) : (m.insert a b).restrict keep = m.restrict keep := by
  refine eq_of_left (funext fun x => ?_)
  change (if keep x then (m.insert a b).left x else none) = if keep x then m.left x else none
  rcases eq_or_ne x a with rfl | ne
  · rw [other]
    rfl
  · rw [left_insert_of_ne ne]

theorem restrict_eraseLeft (m : Bimap α β) (keep : α → Bool) (a : α) :
    (m.eraseLeft a).restrict keep = (m.restrict keep).eraseLeft a := by
  refine eq_of_left (funext fun x => ?_)
  change (if keep x then (m.eraseLeft a).left x else none) = _
  rcases eq_or_ne x a with rfl | ne
  · rw [left_eraseLeft_self, left_eraseLeft_self, ite_self]
  · rw [left_eraseLeft_of_ne ne, left_eraseLeft_of_ne ne]
    rfl

theorem eraseLeft_of_other {m : Bimap α β} {keep : α → Bool} {a : α} (other : keep a = false) :
    (m.restrict keep).eraseLeft a = m.restrict keep := by
  refine eq_of_left ?_
  rw [left_eraseLeft, Function.update_eq_self_iff]
  change none = if keep a then m.left a else none
  rw [other]
  rfl

end Bimap
