/-
Singly linked chains with a head and a tail pointer.

The cells are any type and `next` is total, as memory is: a cell outside the chain holds whatever it held last.

- `Follows next head cs`: who follows `next` from `head` comes by the cells `cs`, and then by none.
- `Chained`: the same, and the tail is the last of them.
- `walk`: the cells met from `head` on, a given number of them at most.
- `Chained.link`, `Chained.unlink`: a new cell behind the last, and the first cell taken off.
-/
import Mathlib

namespace WsServer.Chain

variable {α : Type}

inductive Follows (next : α → Option α) : Option α → List α → Prop where
  | nil : Follows next none []
  | cons {c : α} {cs : List α} : Follows next (next c) cs → Follows next (some c) (c :: cs)

def walk (next : α → Option α) : ℕ → Option α → List α
  | 0, _ => []
  | _, none => []
  | fuel + 1, some c => c :: walk next fuel (next c)

/-- the links after a cell is put behind the last -/
def link [DecidableEq α] (next : α → Option α) (tail : Option α) (c : α) : α → Option α :=
  match tail with
  | some t => Function.update (Function.update next c none) t (some c)
  | none => Function.update next c none

structure Chained (next : α → Option α) (head tail : Option α) (cs : List α) : Prop where
  follows : Follows next head cs
  last : tail = cs.getLast?

variable {next next' : α → Option α} {head tail : Option α} {c : α} {cs ds : List α}

/-- a chain is determined by its head -/
theorem Follows.unique (h : Follows next head cs) (h' : Follows next head ds) : cs = ds := by
  induction h generalizing ds with
  | nil =>
    cases h' with
    | nil => rfl
  | cons _ ih =>
    cases h' with
    | cons hrest => rw [ih hrest]

/-- only the links of its own cells matter -/
theorem Follows.congr (h : Follows next head cs) (hsame : ∀ x ∈ cs, next' x = next x) : Follows next' head cs := by
  induction h with
  | nil => exact .nil
  | cons _ ih =>
    apply Follows.cons
    rw [hsame _ List.mem_cons_self]
    exact ih fun x hx => hsame x (List.mem_cons_of_mem _ hx)

/-- from any of its cells on -/
theorem Follows.from_cell (h : Follows next head (cs ++ c :: ds)) : Follows next (some c) (c :: ds) := by
  induction cs generalizing head with
  | nil =>
    cases h with
    | cons hrest => exact .cons hrest
  | cons x cs ih =>
    cases h with
    | cons hrest => exact ih hrest

/-- a chain that ends comes by no cell twice -/
theorem Follows.nodup (h : Follows next head cs) : cs.Nodup := by
  induction h with
  | nil => exact List.nodup_nil
  | @cons c cs hrest ih =>
    refine List.nodup_cons.2 ⟨fun hc => ?_, ih⟩
    -- met again, `c` would be followed by two chains of different lengths
    obtain ⟨as, bs, rfl⟩ := List.append_of_mem hc
    have hagain : Follows next (some c) (c :: bs) := hrest.from_cell
    have hlen := congrArg List.length ((Follows.cons hrest).unique hagain)
    simp only [List.length_cons, List.length_append] at hlen
    omega

theorem Follows.head_eq (h : Follows next head cs) : head = cs.head? := by
  cases h <;> rfl

theorem Follows.walk_eq (h : Follows next head cs) : walk next cs.length head = cs := by
  induction h with
  | nil => rfl
  | cons _ ih => exact congrArg (List.cons _) ih

/-- the cell behind the last one is new -/
theorem Follows.append (h : Follows next head cs) (hlast : ∀ x ∈ cs.getLast?, next' x = some c) (hc : next' c = none)
    (hsame : ∀ x ∈ cs, some x ≠ cs.getLast? → next' x = next x) (hempty : cs = [] → head = none) :
    Follows next' (head.or (some c)) (cs ++ [c]) := by
  have hend : Follows next' (some c) [c] := .cons (hc ▸ .nil)
  induction h with
  | nil => exact hend
  | @cons x cs hrest ih =>
    apply Follows.cons
    cases cs with
    | nil =>
      rw [hlast x rfl]
      exact hend
    | cons y ys =>
      have hx : next' x = next x := by
        refine hsame x List.mem_cons_self fun he => ?_
        have hmem : x ∈ y :: ys := List.mem_of_getLast? he.symm
        exact (List.nodup_cons.1 (Follows.cons hrest).nodup).1 hmem
      have hsome : next x = some y := hrest.head_eq
      rw [hx]
      have hgo := ih hlast (fun z hz hne => hsame z (List.mem_cons_of_mem x hz) hne) (fun he => by cases he)
      rw [hsome] at hgo ⊢
      exact hgo

/-! ## Both ends -/

/-- no first cell, no last cell -/
theorem Chained.none_iff (h : Chained next head tail cs) : head = none ↔ tail = none := by
  rw [h.follows.head_eq, h.last, List.head?_eq_none_iff, List.getLast?_eq_none_iff]

theorem Chained.empty : Chained next none none [] := ⟨.nil, rfl⟩

/-- **A cell comes behind the last.** -/
theorem Chained.link [DecidableEq α] (h : Chained next head tail cs) (hc : c ∉ cs) :
    Chained (link next tail c) (head.or (some c)) (some c) (cs ++ [c]) := by
  refine ⟨h.follows.append ?_ ?_ ?_ ?_, ?_⟩
  · intro x hx
    have htail : tail = some x := h.last.trans hx
    rw [htail]
    exact Function.update_self _ _ _
  · cases htail : tail with
    | none => exact Function.update_self _ _ _
    | some t =>
      have hmem : t ∈ cs := List.mem_of_getLast? (h.last.symm.trans htail)
      have hne : c ≠ t := by
        rintro rfl
        exact hc hmem
      exact (Function.update_of_ne hne _ _).trans (Function.update_self _ _ _)
  · intro x hx hne
    have hxc : x ≠ c := by
      rintro rfl
      exact hc hx
    cases htail : tail with
    | none => exact Function.update_of_ne hxc _ _
    | some t =>
      have hxt : x ≠ t := by
        rintro rfl
        exact hne (htail.symm.trans h.last)
      exact (Function.update_of_ne hxt _ _).trans (Function.update_of_ne hxc _ _)
  · rintro rfl
    exact h.follows.head_eq
  · rw [List.getLast?_append]
    rfl

/-- **The first cell goes**: without a second one there is no last either. -/
theorem Chained.unlink (h : Chained next (some c) tail cs) :
    ∃ ds, cs = c :: ds ∧ Chained next (next c) (if next c = none then none else tail) ds := by
  obtain ⟨hfollows, hlast⟩ := h
  cases hfollows with
  | @cons _ ds hrest =>
    refine ⟨ds, rfl, hrest, ?_⟩
    cases ds with
    | nil =>
      have hnone : next c = none := hrest.head_eq
      rw [if_pos hnone]
      rfl
    | cons d ds =>
      have hsome : next c = some d := hrest.head_eq
      rw [if_neg (hsome ▸ Option.some_ne_none d), hlast, List.getLast?_cons_cons]

end WsServer.Chain
