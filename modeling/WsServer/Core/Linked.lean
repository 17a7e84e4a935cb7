/-
Doubly linked lists in memory: a head, and for every cell the cell before it and the cell behind it.

The cells are any type, and the two link functions are total, as memory is: a cell outside the list holds whatever it
held last. `Links.Holds l xs` says that the links are those of the list `xs`.

- `Holds.add`: a new cell in front.
- `Holds.remove`: a cell taken out where it stands, with one write on each side.
- `Holds.walk`: who follows the links from the head comes by every cell once, in order.
-/
import Mathlib

namespace WsServer.Linked

variable {α : Type} [DecidableEq α]

structure Links (α : Type) where
  head : Option α
  prev : α → Option α
  next : α → Option α

def Links.empty : Links α := ⟨none, fun _ => none, fun _ => none⟩

/-- a new cell in front -/
def Links.add (l : Links α) (c : α) : Links α :=
  let prev := Function.update l.prev c none
  { head := some c
    prev := match l.head with
      | some h => Function.update prev h (some c)
      | none => prev
    next := Function.update l.next c l.head }

/-- the cell behind the one that goes -/
def Links.skip (l : Links α) (c : α) : Links α :=
  match l.prev c with
  | some p => { l with next := Function.update l.next p (l.next c) }
  | none => { l with head := l.next c }

/-- and the one before it -/
def Links.unlink (l : Links α) (c : α) : Links α :=
  match l.next c with
  | some n => { l with prev := Function.update l.prev n (l.prev c) }
  | none => l

/-- a cell is taken out -/
def Links.remove (l : Links α) (c : α) : Links α := (l.skip c).unlink c

/-- the cells from `at` on, as many as `fuel` allows -/
def Links.walk (l : Links α) : ℕ → Option α → List α
  | 0, _ => []
  | _ + 1, none => []
  | fuel + 1, some c => c :: l.walk fuel (l.next c)

/-- the cells `xs` are linked in this order, with `p` before the first -/
def Links.Chained (l : Links α) (p : Option α) : List α → Prop
  | [] => True
  | c :: xs => l.prev c = p ∧ l.next c = xs.head? ∧ l.Chained (some c) xs

structure Links.Holds (l : Links α) (xs : List α) : Prop where
  nodup : xs.Nodup
  head : l.head = xs.head?
  chained : l.Chained none xs

variable {l l' : Links α} {p : Option α} {c : α} {xs ys : List α}

omit [DecidableEq α] in
/-- only the links of the cells matter -/
theorem Links.Chained.congr (h : l.Chained p xs) (hprev : ∀ x ∈ xs, l'.prev x = l.prev x)
    (hnext : ∀ x ∈ xs, l'.next x = l.next x) : l'.Chained p xs := by
  induction xs generalizing p with
  | nil => trivial
  | cons x xs ih =>
    obtain ⟨h1, h2, h3⟩ := h
    refine ⟨(hprev x List.mem_cons_self).trans h1, (hnext x List.mem_cons_self).trans h2, ih h3 ?_ ?_⟩
    · exact fun y hy => hprev y (List.mem_cons_of_mem x hy)
    · exact fun y hy => hnext y (List.mem_cons_of_mem x hy)

omit [DecidableEq α] in
/-- the neighbours of a cell -/
theorem Links.Chained.links (h : l.Chained p (xs ++ c :: ys)) : l.prev c = xs.getLast?.or p ∧ l.next c = ys.head? := by
  induction xs generalizing p with
  | nil => exact ⟨h.1, h.2.1⟩
  | cons x xs ih =>
    obtain ⟨hprev, hnext⟩ := ih h.2.2
    refine ⟨?_, hnext⟩
    rw [hprev, List.getLast?_cons]
    cases xs.getLast? <;> rfl

/-! ## A cell comes in -/

theorem Links.Holds.add (h : l.Holds xs) (hc : c ∉ xs) : (l.add c).Holds (c :: xs) where
  nodup := List.nodup_cons.2 ⟨hc, h.nodup⟩
  head := rfl
  chained := by
    have hnext : ∀ x ∈ xs, (l.add c).next x = l.next x := fun x hx => Function.update_of_ne (by rintro rfl; exact hc hx) _ _
    cases xs with
    | nil =>
      have hhead : l.head = none := h.head
      refine ⟨?_, ?_, trivial⟩
      · simp only [Links.add, hhead, Function.update_self]
      · simp only [Links.add, hhead, Function.update_self, List.head?_nil]
    | cons x xs =>
      have hhead : l.head = some x := h.head
      have hne : c ≠ x := by rintro rfl; exact hc List.mem_cons_self
      obtain ⟨-, hnextx, hrest⟩ := h.chained
      refine ⟨?_, ?_, ?_, ?_, ?_⟩
      · simp only [Links.add, hhead, Function.update_of_ne hne, Function.update_self]
      · simp only [Links.add, hhead, Function.update_self, List.head?_cons]
      · simp only [Links.add, hhead, Function.update_self]
      · exact (hnext x List.mem_cons_self).trans hnextx
      · refine hrest.congr (fun y hy => ?_) fun y hy => hnext y (List.mem_cons_of_mem x hy)
        have hyx : y ≠ x := by rintro rfl; exact (List.nodup_cons.1 h.nodup).1 hy
        have hyc : y ≠ c := by rintro rfl; exact hc (List.mem_cons_of_mem x hy)
        simp only [Links.add, hhead, Function.update_of_ne hyx, Function.update_of_ne hyc]

/-! ## A cell goes -/

/-- what `remove` writes, in a list where no cell is linked to itself -/
theorem Links.remove_links (hp : l.prev c ≠ some c) :
    (l.remove c).head = (if l.prev c = none then l.next c else l.head) ∧
      (∀ x, (l.remove c).prev x = if l.next c = some x then l.prev c else l.prev x) ∧
      ∀ x, (l.remove c).next x = if l.prev c = some x then l.next c else l.next x := by
  have hskip : (l.skip c).next c = l.next c ∧ (l.skip c).prev = l.prev := by
    unfold Links.skip
    split
    · next p hpc => exact ⟨Function.update_of_ne (by rintro rfl; exact hp hpc) _ _, rfl⟩
    · exact ⟨rfl, rfl⟩
  have hunlink : (l.remove c).head = (l.skip c).head ∧ (l.remove c).next = (l.skip c).next ∧
      ∀ x, (l.remove c).prev x = if l.next c = some x then l.prev c else l.prev x := by
    unfold Links.remove Links.unlink
    rw [hskip.1, hskip.2]
    cases hn : l.next c with
    | none => exact ⟨rfl, rfl, fun x => by simp [hskip.2]⟩
    | some n =>
      refine ⟨rfl, rfl, fun x => ?_⟩
      by_cases hx : x = n
      · subst hx
        simp
      · simp [Function.update_of_ne hx, Ne.symm hx]
  refine ⟨hunlink.1.trans ?_, hunlink.2.2, fun x => ?_⟩
  · unfold Links.skip
    split <;> simp [*]
  · rw [hunlink.2.1]
    unfold Links.skip
    split
    · next p hpc =>
      by_cases hx : x = p
      · subst hx
        simp [hpc]
      · simp [hpc, Function.update_of_ne hx, Ne.symm hx]
    · next hpc => simp [hpc]

omit [DecidableEq α] in
/-- no cell of a chain is linked to itself -/
theorem Links.Chained.apart (h : l.Chained p (xs ++ c :: ys)) (hnodup : (xs ++ c :: ys).Nodup)
    (hp : ∀ b ∈ p, b ∉ xs ++ c :: ys) : l.prev c ≠ some c := by
  intro hself
  rw [h.links.1] at hself
  cases hlast : xs.getLast? with
  | none =>
    rw [hlast] at hself
    exact hp c hself (List.mem_append_right xs List.mem_cons_self)
  | some b =>
    rw [hlast] at hself
    obtain rfl := Option.some.inj hself
    exact (List.nodup_append.1 hnodup).2.2 b (List.mem_of_getLast? hlast) b List.mem_cons_self rfl

/-- the cells before it and behind it are one chain -/
theorem Links.Chained.remove (h : l.Chained p (xs ++ c :: ys)) (hnodup : (xs ++ c :: ys).Nodup)
    (hp : ∀ b ∈ p, b ∉ xs ++ c :: ys) : (l.remove c).Chained p (xs ++ ys) := by
  obtain ⟨-, hprev, hnext⟩ := Links.remove_links (h.apart hnodup hp)
  induction xs generalizing p with
  | nil =>
    obtain ⟨hprevc, hnextc, hrest⟩ := h
    have hout : ∀ x ∈ ys, l.prev c ≠ some x := by
      intro x hx hpx
      exact hp x (hprevc.symm.trans hpx) (List.mem_cons_of_mem c hx)
    cases ys with
    | nil => trivial
    | cons y ys =>
      obtain ⟨-, hnexty, hrest⟩ := hrest
      have hnodupy : y ∉ ys := (List.nodup_cons.1 (List.nodup_cons.1 hnodup).2).1
      refine ⟨?_, ?_, hrest.congr (fun x hx => ?_) fun x hx => ?_⟩
      · rw [hprev, hnextc, List.head?_cons, if_pos rfl, hprevc]
      · rw [hnext, if_neg (hout y List.mem_cons_self), hnexty]
      · rw [hprev, hnextc, List.head?_cons, if_neg]
        intro hxy
        exact hnodupy (Option.some.inj hxy ▸ hx)
      · rw [hnext, if_neg (hout x (List.mem_cons_of_mem y hx))]
  | cons x xs ih =>
    obtain ⟨hprevc, hnextc⟩ := h.links
    obtain ⟨hprevx, hnextx, hrest⟩ := h
    obtain ⟨hx, hnodup'⟩ := List.nodup_cons.1 hnodup
    refine ⟨?_, ?_, ih hrest hnodup' ?_⟩
    · rw [hprev, if_neg, hprevx]
      -- the cell behind `c` is not `x`
      rw [hnextc]
      intro hxy
      exact hx (List.mem_append_right xs (List.mem_cons_of_mem c (List.mem_of_head? hxy)))
    · rw [hnext]
      cases xs with
      | nil =>
        have hlast : l.prev c = some x := hprevc
        rw [if_pos hlast, hnextc]
        rfl
      | cons z zs =>
        rw [if_neg, hnextx]
        · rfl
        · -- the cell before `c` is the last of the others
          rw [hprevc, List.getLast?_cons_cons]
          cases hlast : (z :: zs).getLast? with
          | none => exact absurd (List.getLast?_eq_none_iff.1 hlast) (List.cons_ne_nil z zs)
          | some b =>
            intro hbx
            obtain rfl := Option.some.inj hbx
            exact hx (List.mem_append_left _ (List.mem_of_getLast? hlast))
    · intro b hb
      obtain rfl := Option.some.inj hb
      exact hx

/-- **A cell is taken out where it stands.** -/
theorem Links.Holds.remove (h : l.Holds xs) (hc : c ∈ xs) : (l.remove c).Holds (xs.erase c) := by
  obtain ⟨as, bs, rfl⟩ := List.append_of_mem hc
  have hnodup := List.nodup_append.1 h.nodup
  have hcas : c ∉ as := fun hmem => hnodup.2.2 c hmem c List.mem_cons_self rfl
  have herase : (as ++ c :: bs).erase c = as ++ bs := by
    rw [List.erase_append_right _ hcas, List.erase_cons_head]
  have hsub : (as ++ bs).Sublist (as ++ c :: bs) := (List.Sublist.refl as).append (List.sublist_cons_self c bs)
  rw [herase]
  refine ⟨h.nodup.sublist hsub, ?_, h.chained.remove h.nodup nofun⟩
  obtain ⟨hprevc, hnextc⟩ := h.chained.links
  obtain ⟨hhead, -⟩ := Links.remove_links (h.chained.apart h.nodup nofun)
  rw [hhead, hnextc, h.head]
  cases as with
  | nil => exact if_pos hprevc
  | cons a as =>
    rw [if_neg]
    · rfl
    · rw [hprevc, List.getLast?_cons]
      nofun

/-! ## Following the links -/

omit [DecidableEq α] in
theorem Links.Chained.walk (h : l.Chained p xs) {fuel : ℕ} (hfuel : xs.length ≤ fuel) : l.walk fuel xs.head? = xs := by
  induction xs generalizing p fuel with
  | nil => cases fuel <;> rfl
  | cons x xs ih =>
    obtain ⟨-, hnext, hrest⟩ := h
    cases fuel with
    | zero => exact absurd hfuel (Nat.not_succ_le_zero _)
    | succ fuel =>
      show x :: l.walk fuel (l.next x) = x :: xs
      rw [hnext, ih hrest (Nat.le_of_succ_le_succ hfuel)]

omit [DecidableEq α] in
/-- **The walk from the head comes by every cell once, in order.** -/
theorem Links.Holds.walk (h : l.Holds xs) {fuel : ℕ} (hfuel : xs.length ≤ fuel) : l.walk fuel l.head = xs := by
  rw [h.head]
  exact h.chained.walk hfuel

end WsServer.Linked
