/-
Things that are made, kept in numbered slots, handed on, and let go.

A slot is empty or keeps one thing; `stock n f` are the things in the first `n` slots, each as often as it is there. The
lemmas say what a change of the slots does to the stock, with nothing subtracted: what goes out stands on the other side.
`Trade` is such a step of any stock; trades add up, and what one stock gives to another cancels out.

`Books` is the account of a system: what was made is what was let go and what is kept. A step that says what it makes and
what it lets go keeps the books (`Books.step`), and a list of things none of which is kept has been let go altogether.
-/
import Mathlib

namespace WsServer.Custody

variable {M : Type}

/-- what a slot keeps -/
def one (o : Option M) : Multiset M := o.toList

@[simp] theorem one_none : one (none : Option M) = 0 := rfl

@[simp] theorem one_some (m : M) : one (some m) = {m} := rfl

/-- the first `n` slots -/
def stock (n : ℕ) (f : ℕ → Option M) : Multiset M := ∑ i ∈ Finset.range n, one (f i)

theorem stock_congr {n : ℕ} {f g : ℕ → Option M} (h : ∀ i < n, f i = g i) : stock n f = stock n g :=
  Finset.sum_congr rfl fun i hi => congrArg one (h i (Finset.mem_range.1 hi))

theorem stock_empty {n : ℕ} {f : ℕ → Option M} (h : ∀ i < n, f i = none) : stock n f = 0 :=
  Finset.sum_eq_zero fun i hi => congrArg one (h i (Finset.mem_range.1 hi))

theorem stock_succ (n : ℕ) (f : ℕ → Option M) : stock (n + 1) f = stock n f + one (f n) :=
  Finset.sum_range_succ _ n

/-- one slot changes, and the others are as they were -/
theorem stock_change {n i : ℕ} {f g : ℕ → Option M} (hi : i < n) (h : ∀ j, j ≠ i → g j = f j) :
    stock n g + one (f i) = stock n f + one (g i) := by
  have hmem : i ∈ Finset.range n := Finset.mem_range.2 hi
  have hrest : ∑ j ∈ (Finset.range n).erase i, one (g j) = ∑ j ∈ (Finset.range n).erase i, one (f j) :=
    Finset.sum_congr rfl fun j hj => congrArg one (h j (Finset.ne_of_mem_erase hj))
  unfold stock
  rw [← Finset.sum_erase_add _ _ hmem, ← Finset.sum_erase_add _ _ hmem, hrest, add_right_comm]

/-- the slots of a list -/
def drawn (cs : List ℕ) (f : ℕ → Option M) : List M := cs.flatMap fun c => (f c).toList

theorem drawn_cons (c : ℕ) (cs : List ℕ) (f : ℕ → Option M) :
    (drawn (c :: cs) f : Multiset M) = one (f c) + drawn cs f := by
  unfold drawn one
  rw [List.flatMap_cons, Multiset.coe_add]

/-- the slots of a list are emptied, one after the other -/
theorem stock_clear {n : ℕ} {f g : ℕ → Option M} {cs : List ℕ} (hnodup : cs.Nodup) (hlt : ∀ c ∈ cs, c < n)
    (hin : ∀ c ∈ cs, g c = none) (hout : ∀ c < n, c ∉ cs → g c = f c) : stock n g + drawn cs f = stock n f := by
  induction cs generalizing f with
  | nil =>
    rw [stock_congr fun c hc => hout c hc List.not_mem_nil]
    exact add_zero _
  | cons c cs ih =>
    obtain ⟨hc, hnodup⟩ := List.nodup_cons.1 hnodup
    -- the first one alone
    have hself : Function.update f c none c = none := Function.update_self c none f
    have hne : ∀ d, d ≠ c → Function.update f c none d = f d := fun d hd => Function.update_of_ne hd none f
    have hfirst := stock_change (hlt c List.mem_cons_self) hne
    rw [hself, one_none, add_zero] at hfirst
    have hdrawn : drawn cs (Function.update f c none) = drawn cs f := by
      unfold drawn
      refine List.flatMap_congr fun d hd => congrArg Option.toList (hne d ?_)
      rintro rfl
      exact hc hd
    have hrest := ih hnodup (fun d hd => hlt d (List.mem_cons_of_mem c hd)) (f := Function.update f c none)
      (fun d hd => hin d (List.mem_cons_of_mem c hd)) fun d hlt hd => ?_
    · rw [drawn_cons, ← hfirst, ← hrest, hdrawn, add_comm (one (f c)), add_assoc]
    · by_cases hdc : d = c
      · subst hdc
        rw [hself]
        exact hin d List.mem_cons_self
      · rw [hne d hdc]
        exact hout d hlt fun hmem => (List.mem_cons.1 hmem).elim hdc hd

/-! ## Trade -/

/-- a step in which `into` comes in and `out` goes out -/
def Trade (kept into out kept' : Multiset M) : Prop := kept' + out = kept + into

variable {k k' i o k₁ k₁' i₁ o₁ x : Multiset M}

theorem Trade.refl (k : Multiset M) : Trade k 0 0 k := rfl

theorem Trade.of_eq (h : k' = k) : Trade k 0 0 k' := h ▸ rfl

/-- two stocks side by side -/
theorem Trade.add (h : Trade k i o k') (h' : Trade k₁ i₁ o₁ k₁') : Trade (k + k₁) (i + i₁) (o + o₁) (k' + k₁') := by
  unfold Trade at h h' ⊢
  rw [add_add_add_comm, h, h', add_add_add_comm]

/-- what goes out of one stock and into another stays -/
theorem Trade.cancel (h : Trade k (i + x) (o + x) k') : Trade k i o k' := by
  unfold Trade at h ⊢
  rw [← add_assoc, ← add_assoc] at h
  exact add_right_cancel h

theorem Trade.change {n j : ℕ} {f g : ℕ → Option M} (hj : j < n) (h : ∀ l, l ≠ j → g l = f l) :
    Trade (stock n f) (one (g j)) (one (f j)) (stock n g) :=
  stock_change hj h

theorem Trade.clear {n : ℕ} {f g : ℕ → Option M} {cs : List ℕ} (hnodup : cs.Nodup) (hlt : ∀ c ∈ cs, c < n)
    (hin : ∀ c ∈ cs, g c = none) (hout : ∀ c < n, c ∉ cs → g c = f c) : Trade (stock n f) 0 (drawn cs f) (stock n g) :=
  (stock_clear hnodup hlt hin hout).trans (add_zero _).symm

/-- what stands in a line: some are taken from the front, some put at the back -/
theorem Trade.line {p q a b : List M} (h : b ++ q = p ++ a) : Trade (p : Multiset M) a b q := by
  unfold Trade
  rw [Multiset.coe_add, Multiset.coe_add, ← h]
  exact Multiset.coe_eq_coe.2 List.perm_append_comm

/-- **A slot of a stock, with a hand and a line.** What the hand and the slot give away goes into the line or out; the other
slots of the stock stay as they are. -/
theorem Trade.slot {hand hand' slot slot' line line' rest rest' given : Multiset M}
    (hhand : Trade (hand + slot) i (given + o) (hand' + slot')) (hrest : Trade rest slot' slot rest')
    (hline : Trade line given 0 line') : Trade (line + (hand + rest)) i o (line' + (hand' + rest')) := by
  unfold Trade at *
  rw [add_zero] at hline
  refine add_right_cancel (b := slot + slot') ?_
  calc line' + (hand' + rest') + o + (slot + slot') = line' + (hand' + slot' + o) + (rest' + slot) := by abel
    _ = line + (hand' + slot' + (given + o)) + (rest + slot') := by rw [hline, hrest]; abel
    _ = line + (hand + slot + i) + (rest + slot') := by rw [hhand]
    _ = line + (hand + rest) + i + (slot + slot') := by abel

/-! ## The books -/

/-- what was made was let go, or is kept -/
def Books (made freed : List M) (kept : Multiset M) : Prop := (made : Multiset M) = freed + kept

theorem Books.start : Books ([] : List M) [] 0 := rfl

/-- **A step keeps the books** when what it makes and what was kept is what it lets go and what is kept behind it. -/
theorem Books.step {made freed new gone : List M} (h : Books made freed k) (hstep : Trade k new gone k') :
    Books (made ++ new) (freed ++ gone) k' := by
  unfold Trade at hstep
  unfold Books at h ⊢
  rw [← Multiset.coe_add, ← Multiset.coe_add, h, add_assoc, ← hstep, add_assoc, add_comm k']

/-- where nothing is kept, everything was let go as often as it was made -/
theorem Books.closed {made freed : List M} (h : Books made freed 0) : freed.Perm made := by
  rw [Books, add_zero] at h
  exact (Multiset.coe_eq_coe.1 h).symm

theorem Books.le {made freed : List M} (h : Books made freed k) : (freed : Multiset M) ≤ made := by
  rw [h]
  exact Multiset.le_add_right _ _

end WsServer.Custody
