/-
Threads that test a bound first and act on it later.

A counter is shared by the threads of a finite set. A thread that finds it at most at `limit` takes a ticket, and with a
ticket it raises the counter by one, whatever the counter has become in between. Any thread may lower the counter.

- `outstanding`: how many tickets are out.
- `Covered`: counter and outstanding tickets together are at most `limit` and one for every thread.
- `Turn`: what one step of a thread does to the counter and to its own ticket.
- `Covered.turn`: every turn keeps it, so the counter is never above `limit` by more than the number of threads
  (`Covered.le`).
-/
import Mathlib

namespace WsServer.Tickets

variable {τ : Type} {threads : Finset τ} {holds holds' : τ → Bool} {t : τ} {limit count count' : ℕ}

/-- the tickets that are out -/
def outstanding (threads : Finset τ) (holds : τ → Bool) : ℕ := (threads.filter fun t => holds t).card

/-- a thread has one ticket at most -/
theorem outstanding_le (threads : Finset τ) (holds : τ → Bool) : outstanding threads holds ≤ threads.card :=
  Finset.card_filter_le _ _

theorem outstanding_mono (h : ∀ u, holds' u = true → holds u = true) :
    outstanding threads holds' ≤ outstanding threads holds :=
  Finset.card_le_card (Finset.monotone_filter_right _ fun u _ hu => h u hu)

/-- the ticket of `t` is gone, and no new one is out -/
theorem outstanding_used (ht : t ∈ threads) (hold : holds t = true) (hgone : holds' t = false)
    (h : ∀ u, holds' u = true → holds u = true) : outstanding threads holds' + 1 ≤ outstanding threads holds := by
  have hsub : threads.filter (fun u => holds' u) ⊂ threads.filter fun u => holds u := by
    rw [Finset.ssubset_iff_of_subset (Finset.monotone_filter_right _ fun u _ hu => h u hu)]
    refine ⟨t, Finset.mem_filter.2 ⟨ht, hold⟩, fun hm => ?_⟩
    have hm' := (Finset.mem_filter.1 hm).2
    rw [hgone] at hm'
    cases hm'
  exact Finset.card_lt_card hsub

/-- counter and tickets stay below the limit and one for every thread -/
structure Covered (threads : Finset τ) (limit count : ℕ) (holds : τ → Bool) : Prop where
  sum : count + outstanding threads holds ≤ limit + threads.card

theorem Covered.le (h : Covered threads limit count holds) : count ≤ limit + threads.card :=
  le_trans (Nat.le_add_right _ _) h.sum

/-- **A test.** Where the counter is at most `limit`, whoever holds tickets. -/
theorem Covered.test (h : count ≤ limit) (holds : τ → Bool) : Covered threads limit count holds :=
  ⟨Nat.add_le_add h (outstanding_le threads holds)⟩

/-- **A ticket is used.** -/
theorem Covered.use (h : Covered threads limit count holds) (ht : t ∈ threads) (hold : holds t = true)
    (hgone : holds' t = false) (hrest : ∀ u, holds' u = true → holds u = true) :
    Covered threads limit (count + 1) holds' := by
  have hused := outstanding_used ht hold hgone hrest
  have hsum := h.sum
  exact ⟨by omega⟩

/-- **The counter goes down, or tickets are thrown away.** -/
theorem Covered.mono (h : Covered threads limit count holds) (hcount : count' ≤ count)
    (hrest : ∀ u, holds' u = true → holds u = true) : Covered threads limit count' holds' := by
  have hout : outstanding threads holds' ≤ outstanding threads holds := outstanding_mono hrest
  have hsum := h.sum
  exact ⟨by omega⟩

/-- a step of one thread: the counter and the thread's ticket, before and behind it -/
inductive Turn (limit : ℕ) : ℕ → Bool → ℕ → Bool → Prop where
  /-- the counter does not grow, and no ticket is taken -/
  | rest {n n' : ℕ} {b b' : Bool} : n' ≤ n → (b' = true → b = true) → Turn limit n b n' b'
  | test {n : ℕ} {b b' : Bool} : n ≤ limit → Turn limit n b n b'
  | use {n : ℕ} : Turn limit n true (n + 1) false

/-- **A turn of one thread keeps counter and tickets covered.** -/
theorem Covered.turn (h : Covered threads limit count holds) (ht : t ∈ threads)
    (hturn : Turn limit count (holds t) count' (holds' t)) (hrest : ∀ u, u ≠ t → holds' u = holds u) :
    Covered threads limit count' holds' := by
  have hmono : (holds' t = true → holds t = true) → ∀ u, holds' u = true → holds u = true := by
    intro hself u hu
    by_cases hut : u = t
    · rw [hut] at hu ⊢
      exact hself hu
    · rwa [hrest u hut] at hu
  generalize hb : holds t = b at hturn
  generalize hb' : holds' t = b' at hturn
  cases hturn with
  | rest hcount hself =>
    apply h.mono hcount
    apply hmono
    rw [hb, hb']
    exact hself
  | test hlimit => exact .test hlimit _
  | use =>
    apply h.use ht hb hb'
    apply hmono
    rw [hb']
    nofun

end WsServer.Tickets
