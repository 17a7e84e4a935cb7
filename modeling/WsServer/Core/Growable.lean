/-
A growable array: cells of memory, of which the first `count` are in use.

A cell that was never written holds `none`; `grow` is `realloc`, which keeps what fits and writes nothing. `Vec.Holds v xs`
says that the cells in use hold the list `xs`.

- `Holds.grow`: more memory, the same list.
- `Holds.put`: a new last element, where there is room for it.
-/
import Mathlib

namespace WsServer.Growable

structure Vec (α : Type) where
  cells : List (Option α)
  count : ℕ
deriving DecidableEq, Repr

variable {α : Type} {v : Vec α} {xs : List α}

/-- the memory is moved to `n` cells -/
def Vec.grow (v : Vec α) (n : ℕ) : Vec α :=
  { v with cells := v.cells.take n ++ List.replicate (n - v.cells.length) none }

/-- the first free cell is written -/
def Vec.put (v : Vec α) (x : α) : Vec α := ⟨v.cells.set v.count (some x), v.count + 1⟩

structure Vec.Holds (v : Vec α) (xs : List α) : Prop where
  count : v.count = xs.length
  cells : v.cells.take xs.length = xs.map some

theorem Vec.Holds.fits (h : v.Holds xs) : xs.length ≤ v.cells.length := by
  have hlen := congrArg List.length h.cells
  rw [List.length_take, List.length_map] at hlen
  omega

theorem Vec.Holds.grow (h : v.Holds xs) {n : ℕ} (hn : xs.length ≤ n) : (v.grow n).Holds xs where
  count := h.count
  cells := by
    have hfits := h.fits
    have hle : xs.length ≤ (v.cells.take n).length := by
      rw [List.length_take]
      omega
    show (v.cells.take n ++ _).take xs.length = xs.map some
    rw [List.take_append_of_le_length hle, List.take_take, Nat.min_eq_left hn, h.cells]

theorem Vec.Holds.put (h : v.Holds xs) (hroom : v.count < v.cells.length) (x : α) : (v.put x).Holds (xs ++ [x]) where
  count := by
    show v.count + 1 = _
    rw [h.count, List.length_append, List.length_singleton]
  cells := by
    have hcount := h.count
    show (v.cells.set v.count (some x)).take (xs ++ [x]).length = (xs ++ [x]).map some
    rw [List.length_append, List.length_singleton, List.map_append, List.map_singleton, ← h.cells, hcount,
      List.take_add_one, List.take_set_of_le le_rfl, List.getElem?_set_self (hcount ▸ hroom)]
    rfl

end WsServer.Growable
