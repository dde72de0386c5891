import Mathlib.Data.List.Basic

/-!
# Cutting a list into pieces of bounded length

`chunks m xs` cuts `xs` into pieces of `m` elements, the last of which may be shorter.  The pieces
concatenate to `xs` (`chunks_flatten`), none is empty or longer than `m` (`length_of_mem_chunks`),
and only the last can be shorter (`length_of_mem_dropLast_chunks`).  A loop that takes one piece at
a time is described by `chunks_eq_cons`.
-/

namespace List

variable {α : Type}

/-- Pieces of `m` elements; a limit of zero yields no pieces at all. -/
def chunks (m : Nat) (xs : List α) : List (List α) :=
  if xs = [] ∨ m = 0 then [] else xs.take m :: chunks m (xs.drop m)
termination_by xs.length
decreasing_by
  rename_i more
  obtain ⟨nonempty, positive⟩ := not_or.mp more
  have length : 0 < xs.length := length_pos_iff.mpr nonempty
  rw [length_drop]
  omega

@[simp] theorem chunks_nil (m : Nat) : chunks m ([] : List α) = [] := by
  rw [chunks]
  exact if_pos (Or.inl rfl)

/-- One turn of the loop. -/
theorem chunks_eq_cons {m : Nat} {xs : List α} (nonempty : xs ≠ []) (positive : 0 < m) :
    chunks m xs = xs.take m :: chunks m (xs.drop m) := by
  rw [chunks]
  exact if_neg (not_or.mpr ⟨nonempty, by omega⟩)

theorem chunks_flatten {m : Nat} (positive : 0 < m) (xs : List α) :
    (chunks m xs).flatten = xs := by
  induction xs using chunks.induct m with
  | case1 xs done =>
      rcases done with rfl | zero
      · rw [chunks_nil]
        rfl
      · omega
  | case2 xs more ih =>
      rw [chunks_eq_cons (not_or.mp more).1 positive, flatten_cons, ih]
      exact take_append_drop m xs

theorem length_of_mem_chunks {m : Nat} {xs piece : List α} (member : piece ∈ chunks m xs) :
    1 ≤ piece.length ∧ piece.length ≤ m := by
  induction xs using chunks.induct m with
  | case1 xs done =>
      rw [chunks, if_pos done] at member
      cases member
  | case2 xs more ih =>
      obtain ⟨nonempty, positive⟩ := not_or.mp more
      rw [chunks_eq_cons nonempty (by omega)] at member
      rcases mem_cons.mp member with rfl | later
      · have length : 0 < xs.length := length_pos_iff.mpr nonempty
        rw [length_take]
        omega
      · exact ih later

theorem chunks_ne_nil {m : Nat} {xs : List α} (h : chunks m xs ≠ []) : xs ≠ [] := by
  intro empty
  obtain rfl := empty
  exact h (chunks_nil m)

theorem length_of_mem_dropLast_chunks {m : Nat} {xs piece : List α}
    (member : piece ∈ (chunks m xs).dropLast) : piece.length = m := by
  induction xs using chunks.induct m with
  | case1 xs done =>
      rw [chunks, if_pos done] at member
      cases member
  | case2 xs more ih =>
      obtain ⟨nonempty, positive⟩ := not_or.mp more
      rw [chunks_eq_cons nonempty (by omega)] at member
      by_cases last : chunks m (xs.drop m) = []
      · rw [last] at member
        cases member
      · rw [dropLast_cons_of_ne_nil last] at member
        rcases mem_cons.mp member with rfl | later
        · have left : 0 < (xs.drop m).length := length_pos_iff.mpr (chunks_ne_nil last)
          rw [length_drop] at left
          rw [length_take]
          omega
        · exact ih later

end List
