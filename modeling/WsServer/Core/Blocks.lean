/-
A list cut into blocks of `n`: the whole blocks from the front, and the rest that fills none.

- `whole_append`, `rest_append`: what comes later joins the rest, so a reader that keeps only the rest sees the same
  blocks, however its input is cut.
-/
import Mathlib

namespace WsServer.Blocks

variable {α : Type} {n : ℕ} {xs ys b : List α}

def whole (n : ℕ) (xs : List α) : List (List α) := (List.range (xs.length / n)).map fun i => (xs.drop (n * i)).take n

def rest (n : ℕ) (xs : List α) : List α := xs.drop (n * (xs.length / n))

theorem whole_short (h : xs.length < n) : whole n xs = [] := by
  unfold whole
  rw [Nat.div_eq_of_lt h]
  rfl

theorem rest_short (h : xs.length < n) : rest n xs = xs := by
  unfold rest
  rw [Nat.div_eq_of_lt h, Nat.mul_zero, List.drop_zero]

theorem length_rest (xs : List α) : (rest n xs).length = xs.length % n := by
  unfold rest
  rw [List.length_drop, Nat.mod_eq_sub]

theorem length_of_mem_whole (h : b ∈ whole n xs) : b.length = n := by
  unfold whole at h
  obtain ⟨i, hi, rfl⟩ := List.mem_map.1 h
  have hfits : n * (i + 1) ≤ xs.length := calc
    n * (i + 1) ≤ n * (xs.length / n) := Nat.mul_le_mul_left n (List.mem_range.1 hi)
    _ ≤ xs.length := Nat.mul_div_le xs.length n
  rw [List.length_take, List.length_drop, Nat.min_eq_left]
  rw [Nat.mul_add_one] at hfits
  omega

/-- a block in front is the first one -/
theorem whole_block (hn : 0 < n) (hb : b.length = n) (xs : List α) : whole n (b ++ xs) = b :: whole n xs := by
  unfold whole
  have hdiv : (b ++ xs).length / n = xs.length / n + 1 := by
    rw [List.length_append, hb, Nat.add_comm, Nat.add_div_right _ hn]
  have hdrop : ∀ i, (b ++ xs).drop (n * (i + 1)) = xs.drop (n * i) := by
    intro i
    rw [Nat.mul_add_one, Nat.add_comm, ← List.drop_drop, List.drop_left' hb]
  rw [hdiv, List.range_succ_eq_map, List.map_cons, List.map_map, Nat.mul_zero, List.drop_zero, List.take_left' hb]
  simp only [Function.comp_def, Nat.succ_eq_add_one, hdrop]

theorem rest_block (hn : 0 < n) (hb : b.length = n) (xs : List α) : rest n (b ++ xs) = rest n xs := by
  unfold rest
  rw [List.length_append, hb, Nat.add_comm, Nat.add_div_right _ hn, Nat.mul_succ, Nat.add_comm, ← List.drop_drop,
    List.drop_left' hb]

/-- **Later input joins the rest.** -/
theorem append_spec (hn : 0 < n) (xs ys : List α) :
    whole n (xs ++ ys) = whole n xs ++ whole n (rest n xs ++ ys) ∧ rest n (xs ++ ys) = rest n (rest n xs ++ ys) := by
  induction hk : xs.length using Nat.strong_induction_on generalizing xs with
  | _ k ih =>
    by_cases hshort : xs.length < n
    · rw [whole_short hshort, rest_short hshort]
      exact ⟨rfl, rfl⟩
    · have hb : (xs.take n).length = n := List.length_take_of_le (not_lt.1 hshort)
      have hsplit : xs = xs.take n ++ xs.drop n := (List.take_append_drop n xs).symm
      obtain ⟨h1, h2⟩ := ih (xs.drop n).length (by rw [List.length_drop]; omega) (xs.drop n) rfl
      rw [hsplit, List.append_assoc, whole_block hn hb, rest_block hn hb, whole_block hn hb, rest_block hn hb, h1, h2]
      exact ⟨rfl, rfl⟩

theorem whole_append (hn : 0 < n) (xs ys : List α) : whole n (xs ++ ys) = whole n xs ++ whole n (rest n xs ++ ys) :=
  (append_spec hn xs ys).1

theorem rest_append (hn : 0 < n) (xs ys : List α) : rest n (xs ++ ys) = rest n (rest n xs ++ ys) :=
  (append_spec hn xs ys).2

end WsServer.Blocks
