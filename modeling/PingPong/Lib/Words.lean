import Mathlib.Data.List.Basic

/-!
# Words in a row

A list of words with a separator behind each of them, and a tail.  If the separator is in none of
the words nor in the tail, the row can be read back (`splitOn_row`), so that it determines its words
and its tail (`row_inj`).
-/

namespace Words

variable {α : Type}

/-- What a loop has put out that writes a word and the separator in each turn, and the tail. -/
def row (sep : α) (ws : List (List α)) (tail : List α) : List α :=
  ws.foldl (fun out w => out ++ w ++ [sep]) [] ++ tail

theorem foldl_append_eq (sep : α) (ws : List (List α)) (out tail : List α) :
    ws.foldl (fun out w => out ++ w ++ [sep]) out ++ tail =
      out ++ [sep].intercalate (ws ++ [tail]) := by
  induction ws generalizing out with
  | nil =>
      rw [List.foldl_nil, List.nil_append, List.intercalate_singleton]
  | cons w later ih =>
      have more : later ++ [tail] ≠ [] :=
        List.append_ne_nil_of_right_ne_nil later (List.cons_ne_nil tail [])
      rw [List.foldl_cons, ih, List.cons_append, List.intercalate_cons_of_ne_nil more,
        List.append_assoc, List.append_assoc, List.append_assoc]

theorem row_eq (sep : α) (ws : List (List α)) (tail : List α) :
    row sep ws tail = [sep].intercalate (ws ++ [tail]) :=
  foldl_append_eq sep ws [] tail

/-- The separator is where the words end, and nowhere else. -/
structure Separates (sep : α) (ws : List (List α)) (tail : List α) : Prop where
  words : ∀ w ∈ ws, sep ∉ w
  tail : sep ∉ tail

theorem splitOn_row [DecidableEq α] {sep : α} {ws : List (List α)} {tail : List α}
    (h : Separates sep ws tail) : (row sep ws tail).splitOn sep = ws ++ [tail] := by
  rw [row_eq]
  apply List.splitOn_intercalate
  · intro w member
    rcases List.mem_append.mp member with word | last
    · exact h.words w word
    · rw [List.mem_singleton.mp last]
      exact h.tail
  · exact List.append_ne_nil_of_right_ne_nil ws (List.cons_ne_nil tail [])

/-- **Unique readability.** -/
theorem row_inj [DecidableEq α] {sep : α} {ws ws' : List (List α)} {tail tail' : List α}
    (h : Separates sep ws tail) (h' : Separates sep ws' tail') :
    row sep ws tail = row sep ws' tail' ↔ ws = ws' ∧ tail = tail' := by
  constructor
  · intro same
    have pieces : ws ++ [tail] = ws' ++ [tail'] := by
      rw [← splitOn_row h, ← splitOn_row h', same]
    obtain ⟨words, tails⟩ := List.append_inj' pieces rfl
    exact ⟨words, List.singleton_inj.mp tails⟩
  · intro same
    rw [same.1, same.2]

theorem length_row_le {sep : α} {ws : List (List α)} {tail : List α} {m : Nat}
    (short : ∀ w ∈ ws, w.length ≤ m) :
    (row sep ws tail).length ≤ (m + 1) * ws.length + tail.length := by
  have grows : ∀ out : List α, (ws.foldl (fun out w => out ++ w ++ [sep]) out).length ≤
      out.length + (m + 1) * ws.length := by
    induction ws with
    | nil =>
        intro out
        exact Nat.le_refl _
    | cons w later ih =>
        intro out
        have bound := ih (fun w member => short w (List.mem_cons_of_mem _ member))
          (out ++ w ++ [sep])
        have front := short w List.mem_cons_self
        rw [List.length_append, List.length_append, List.length_singleton] at bound
        rw [List.foldl_cons, List.length_cons, Nat.mul_succ]
        omega
  have bound := grows []
  rw [List.length_nil, Nat.zero_add] at bound
  rw [row, List.length_append]
  omega

end Words
