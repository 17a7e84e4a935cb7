/-
Tokens that are handed from place to place.

`cell p` is what place `p` holds, in its order. `Exclusive cell` says that every token is in one place at most, and
there once. A token changes its place by `transfer`, leaves all of them by `drop`, and comes in by `enter`.

- `Exclusive.transfer`, `Exclusive.drop`, `Exclusive.enter`, `Exclusive.mono`: the moves keep `Exclusive`.
-/
import Mathlib

namespace WsServer.Places

variable {π κ : Type} [DecidableEq π]

/-- every token is in one place at most, and there once -/
structure Exclusive (cell : π → List κ) : Prop where
  nodup : ∀ p, (cell p).Nodup
  only : ∀ p q c, c ∈ cell p → c ∈ cell q → p = q

/-- the token is in some place -/
def Owned (cell : π → List κ) (c : κ) : Prop := ∃ p, c ∈ cell p

variable {cell : π → List κ} {p q : π} {c x : κ} {l : List κ}

theorem mem_update {l' : List κ} {r : π} :
    x ∈ Function.update cell p l' r ↔ r = p ∧ x ∈ l' ∨ r ≠ p ∧ x ∈ cell r := by
  by_cases h : r = p
  · subst h; simp
  · simp [h]

omit [DecidableEq π] in
/-- tokens may go -/
theorem Exclusive.mono {cell' : π → List κ} (h : Exclusive cell) (hsub : ∀ p, (cell' p).Sublist (cell p)) :
    Exclusive cell' where
  nodup p := (h.nodup p).sublist (hsub p)
  only p q c hp hq := h.only p q c ((hsub p).subset hp) ((hsub q).subset hq)

/-- a token leaves its place -/
theorem Exclusive.drop (h : Exclusive cell) (hp : (cell p).Perm (c :: l)) : Exclusive (Function.update cell p l) := by
  have hnodup : (c :: l).Nodup := hp.nodup_iff.1 (h.nodup p)
  have hsub : ∀ r x, x ∈ Function.update cell p l r → x ∈ cell r := by
    intro r x hx
    rcases mem_update.1 hx with ⟨rfl, h1⟩ | ⟨-, h1⟩
    · exact hp.mem_iff.2 (List.mem_cons_of_mem _ h1)
    · exact h1
  refine ⟨fun r => ?_, fun r r' x hx hx' => h.only r r' x (hsub r x hx) (hsub r' x hx')⟩
  by_cases hr : r = p
  · subst hr; rw [Function.update_self]; exact hnodup.of_cons
  · rw [Function.update_of_ne hr]; exact h.nodup r

/-- behind it, it is in no place -/
theorem Exclusive.drop_free (h : Exclusive cell) (hp : (cell p).Perm (c :: l)) :
    ∀ r, c ∉ Function.update cell p l r := by
  have hnodup : (c :: l).Nodup := hp.nodup_iff.1 (h.nodup p)
  intro r hc
  rcases mem_update.1 hc with ⟨rfl, h1⟩ | ⟨hr, h1⟩
  · exact (List.nodup_cons.1 hnodup).1 h1
  · exact hr (h.only r p c h1 (hp.mem_iff.2 List.mem_cons_self))

/-- a token comes in -/
theorem Exclusive.enter (h : Exclusive cell) (hc : ∀ r, c ∉ cell r) :
    Exclusive (Function.update cell q (cell q ++ [c])) := by
  refine ⟨fun r => ?_, fun r r' x hx hx' => ?_⟩
  · by_cases hr : r = q
    · subst hr
      rw [Function.update_self, List.nodup_append]
      refine ⟨h.nodup r, by simp, fun a ha b hb hab => ?_⟩
      rw [List.mem_singleton.1 hb] at hab
      exact hc r (hab ▸ ha)
    · rw [Function.update_of_ne hr]; exact h.nodup r
  · -- the token that came in is in `q` only
    have hwhere : ∀ r, x ∈ Function.update cell q (cell q ++ [c]) r → x ∈ cell r ∨ r = q ∧ x = c := by
      intro r hx
      rcases mem_update.1 hx with ⟨rfl, hx⟩ | ⟨-, hx⟩
      · rcases List.mem_append.1 hx with hx | hx
        · exact .inl hx
        · exact .inr ⟨rfl, List.mem_singleton.1 hx⟩
      · exact .inl hx
    rcases hwhere r hx with h1 | ⟨rfl, rfl⟩
    · rcases hwhere r' hx' with h2 | ⟨rfl, rfl⟩
      · exact h.only r r' x h1 h2
      · exact absurd h1 (hc r)
    · rcases hwhere r' hx' with h2 | ⟨rfl, -⟩
      · exact absurd h2 (hc r')
      · rfl

/-- **A token is handed over.** -/
theorem Exclusive.transfer (h : Exclusive cell) (hp : (cell p).Perm (c :: l)) (hpq : q ≠ p) :
    Exclusive (Function.update (Function.update cell p l) q (cell q ++ [c])) := by
  have := (h.drop hp).enter (q := q) (h.drop_free hp)
  rwa [Function.update_of_ne hpq] at this

theorem mem_transfer (hpq : q ≠ p) {r : π} (hx : x ∈ Function.update (Function.update cell p l) q (cell q ++ [c]) r) :
    r = q ∧ x = c ∨ r = p ∧ x ∈ l ∨ r ≠ p ∧ x ∈ cell r := by
  rcases mem_update.1 hx with ⟨rfl, hx⟩ | ⟨hr, hx⟩
  · rcases List.mem_append.1 hx with hx | hx
    · exact .inr (.inr ⟨hpq, hx⟩)
    · exact .inl ⟨rfl, List.mem_singleton.1 hx⟩
  · rcases mem_update.1 hx with hx | hx
    · exact .inr (.inl hx)
    · exact .inr (.inr hx)

end WsServer.Places
