/-
Checked memory and checked loops: a computation that reads or writes outside of a block, whose arithmetic leaves the
range of `size_t`, or whose loop does not end, has a fault in place of a result.

A block of memory is the list of its bytes. `get`, `slice`, `store` and `move` fail outside of it, `word` and `minus`
fail where an unsigned number would wrap. `loop body fuel` runs the rounds of a loop: a round goes on with a new state
or leaves with a result, and rounds beyond `fuel` are the fault `endless`.

- `loop_ok`: with an invariant and a measure that every round lowers, the loop has a result.
- `loop_eq`: a loop whose rounds keep the value of a function computes that function.
-/
import Mathlib

namespace WsServer.Checked

inductive Fault where
  | outside
  | wrapped
  | endless
deriving DecidableEq, Repr

variable {α β σ : Type}

/-! ## Memory -/

def get (block : List α) (i : ℕ) : Except Fault α :=
  match block[i]? with
  | some x => .ok x
  | none => .error .outside

/-- `n` elements from `i` on -/
def slice (block : List α) (i n : ℕ) : Except Fault (List α) :=
  if i + n ≤ block.length then .ok ((block.drop i).take n) else .error .outside

/-- `memcpy` to `i` -/
def store (block : List α) (i : ℕ) (xs : List α) : Except Fault (List α) :=
  if i + xs.length ≤ block.length then .ok (block.take i ++ xs ++ block.drop (i + xs.length)) else .error .outside

/-- `memmove` inside of a block -/
def move (block : List α) (dst src n : ℕ) : Except Fault (List α) := do
  let xs ← slice block src n
  store block dst xs

theorem get_ok {block : List α} {i : ℕ} (h : i < block.length) : get block i = .ok block[i] := by
  unfold get
  rw [List.getElem?_eq_getElem h]

theorem slice_ok {block : List α} {i n : ℕ} (h : i + n ≤ block.length) :
    slice block i n = .ok ((block.drop i).take n) := if_pos h

theorem store_ok {block xs : List α} {i : ℕ} (h : i + xs.length ≤ block.length) :
    store block i xs = .ok (block.take i ++ xs ++ block.drop (i + xs.length)) := if_pos h

/-- what was moved to the start stands there -/
theorem move_start {block : List α} {src n : ℕ} (h : src + n ≤ block.length) :
    move block 0 src n = .ok ((block.drop src).take n ++ block.drop n) := by
  have hlen : ((block.drop src).take n).length = n := by
    rw [List.length_take, List.length_drop]
    omega
  unfold move
  rw [slice_ok h]
  show store block 0 ((block.drop src).take n) = _
  rw [store_ok (by rw [hlen]; omega), hlen, List.take_zero, List.nil_append, Nat.zero_add]

/-! ## Unsigned arithmetic -/

/-- a sum or product as a `size_t` -/
def word (n : ℕ) : Except Fault ℕ := if n < 2 ^ 64 then .ok n else .error .wrapped

/-- `a - b` -/
def minus (a b : ℕ) : Except Fault ℕ := if b ≤ a then .ok (a - b) else .error .wrapped

theorem word_ok {n : ℕ} (h : n < 2 ^ 64) : word n = .ok n := if_pos h

theorem minus_ok {a b : ℕ} (h : b ≤ a) : minus a b = .ok (a - b) := if_pos h

/-! ## Loops -/

def loop (body : σ → Except Fault (σ ⊕ β)) : ℕ → σ → Except Fault β
  | 0, _ => .error .endless
  | fuel + 1, s => do
    match ← body s with
    | .inl t => loop body fuel t
    | .inr b => return b

variable {body : σ → Except Fault (σ ⊕ β)}

theorem loop_next {s t : σ} (h : body s = .ok (.inl t)) (fuel : ℕ) : loop body (fuel + 1) s = loop body fuel t := by
  rw [loop, h]
  rfl

theorem loop_leave {s : σ} {b : β} (h : body s = .ok (.inr b)) (fuel : ℕ) : loop body (fuel + 1) s = .ok b := by
  rw [loop, h]
  rfl

/-- **A loop that comes to an end.** Every round from a state with `Inv` leaves with a result that has `Post`, or goes on
with `Inv` and a smaller measure. -/
theorem loop_ok (Inv : σ → Prop) (Post : β → Prop) (measure : σ → ℕ)
    (hround : ∀ s, Inv s → (∃ t, body s = .ok (.inl t) ∧ Inv t ∧ measure t < measure s) ∨
      ∃ b, body s = .ok (.inr b) ∧ Post b)
    {fuel : ℕ} {s : σ} (hs : Inv s) (hfuel : measure s < fuel) : ∃ b, loop body fuel s = .ok b ∧ Post b := by
  induction fuel generalizing s with
  | zero => exact absurd hfuel (Nat.not_lt_zero _)
  | succ fuel ih =>
    obtain ⟨t, hbody, ht, hlt⟩ | ⟨b, hbody, hb⟩ := hround s hs
    · rw [loop_next hbody]
      exact ih ht (by omega)
    · exact ⟨b, loop_leave hbody fuel, hb⟩

/-- **A loop that computes a function**: no round changes its value, and the last one returns it. -/
theorem loop_eq (Inv : σ → Prop) (f : σ → β) (measure : σ → ℕ)
    (hround : ∀ s, Inv s → (∃ t, body s = .ok (.inl t) ∧ Inv t ∧ measure t < measure s ∧ f t = f s) ∨
      body s = .ok (.inr (f s)))
    {fuel : ℕ} {s : σ} (hs : Inv s) (hfuel : measure s < fuel) : loop body fuel s = .ok (f s) := by
  have hround' : ∀ t, (Inv t ∧ f t = f s) →
      (∃ u, body t = .ok (.inl u) ∧ (Inv u ∧ f u = f s) ∧ measure u < measure t) ∨
        ∃ b, body t = .ok (.inr b) ∧ b = f s := by
    intro t ht
    obtain ⟨u, hbody, hu, hlt, hf⟩ | hbody := hround t ht.1
    · exact .inl ⟨u, hbody, ⟨hu, hf.trans ht.2⟩, hlt⟩
    · exact .inr ⟨f t, hbody, ht.2⟩
  obtain ⟨b, hloop, rfl⟩ := loop_ok _ (· = f s) measure hround' ⟨hs, rfl⟩ hfuel
  exact hloop

end WsServer.Checked
