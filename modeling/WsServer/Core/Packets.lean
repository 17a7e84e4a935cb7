/-
Logs of a stream that several writers share, with every byte under the name of the packet it belongs to.

A packet is written in pieces; a log is what reached the stream so far. The question is whether the receiver can cut
the stream into packets again.

- `Framed made log`: the log is a prefix of whole packets put one after the other.
- `OpenAt made log cur`: the log as its writer sees it: whole packets, then the first part of `cur`.
- `OpenAt.write_new`, `OpenAt.write_more`: a new packet is started where none is open, an open one is continued; with
  these two moves a log stays framed (`OpenAt.framed`).
- `part i log`: what of packet `i` is in the log.
- `framedCheck`: a decision procedure that every framed log passes, to refute `Framed` on a concrete log.
-/
import Mathlib

namespace WsServer.Packets

variable {α : Type}

structure Packet (α : Type) where
  id : ℕ
  body : List α
deriving DecidableEq, Repr

abbrev Log (α : Type) := List (ℕ × α)

/-- the bytes of a packet under its name -/
def Packet.mark (p : Packet α) : Log α := p.body.map fun x => (p.id, x)

@[simp] theorem length_mark (p : Packet α) : p.mark.length = p.body.length := List.length_map _

theorem fst_of_mem_mark {p : Packet α} {x : ℕ × α} (h : x ∈ p.mark) : x.1 = p.id := by
  obtain ⟨b, -, rfl⟩ := List.mem_map.1 h; rfl

/-- whole packets of `made`, each at most once -/
structure Distinct (made ps : List (Packet α)) : Prop where
  nodup : (ps.map Packet.id).Nodup
  mem : ∀ p ∈ ps, p ∈ made

def Framed (made : List (Packet α)) (log : Log α) : Prop :=
  ∃ ps, Distinct made ps ∧ log <+: ps.flatMap Packet.mark

/-- `n` bytes of `f` are written: nothing is open before the first and after the last -/
def progress (f : Packet α) (n : ℕ) : Option (Packet α × ℕ) :=
  if n = 0 then none else if n < f.body.length then some (f, n) else none

/-- whole packets, then the first part of `cur` -/
def OpenAt (made : List (Packet α)) (log : Log α) : Option (Packet α × ℕ) → Prop
  | none => ∃ ps, Distinct made ps ∧ log = ps.flatMap Packet.mark
  | some (f, n) => ∃ ps, Distinct made (ps ++ [f]) ∧ log = ps.flatMap Packet.mark ++ f.mark.take n ∧
      0 < n ∧ n < f.body.length

variable {made made' : List (Packet α)} {log : Log α} {f : Packet α} {n n' : ℕ}

theorem Distinct.mono {ps : List (Packet α)} (h : Distinct made ps) (hsub : ∀ p ∈ made, p ∈ made') :
    Distinct made' ps :=
  ⟨h.nodup, fun p hp => hsub p (h.mem p hp)⟩

theorem Framed.nil (made : List (Packet α)) : Framed made [] := ⟨[], ⟨by simp, by simp⟩, by simp⟩

theorem Framed.mono (h : Framed made log) (hsub : ∀ p ∈ made, p ∈ made') : Framed made' log := by
  obtain ⟨ps, hd, hl⟩ := h
  exact ⟨ps, hd.mono hsub, hl⟩

theorem OpenAt.nil (made : List (Packet α)) : OpenAt made [] none := ⟨[], ⟨by simp, by simp⟩, rfl⟩

theorem OpenAt.mono {cur : Option (Packet α × ℕ)} (h : OpenAt made log cur) (hsub : ∀ p ∈ made, p ∈ made') :
    OpenAt made' log cur := by
  cases cur with
  | none =>
    obtain ⟨ps, hd, hl⟩ := h
    exact ⟨ps, hd.mono hsub, hl⟩
  | some fn =>
    obtain ⟨ps, hd, hl⟩ := h
    exact ⟨ps, hd.mono hsub, hl⟩

theorem OpenAt.framed {cur : Option (Packet α × ℕ)} (h : OpenAt made log cur) : Framed made log := by
  cases cur with
  | none =>
    obtain ⟨ps, hd, hl⟩ := h
    exact ⟨ps, hd, hl ▸ List.prefix_refl _⟩
  | some fn =>
    obtain ⟨f, n⟩ := fn
    obtain ⟨ps, hd, hl, -⟩ := h
    refine ⟨ps ++ [f], hd, ?_⟩
    rw [hl, List.flatMap_append, List.flatMap_singleton]
    exact (List.prefix_append_right_inj _).2 (List.take_prefix n _)

/-- a packet of which the log holds no byte -/
def Absent (f : Packet α) (log : Log α) : Prop := ∀ x ∈ log, x.1 ≠ f.id

theorem Absent.not_mem {ps : List (Packet α)} (h : Absent f (ps.flatMap Packet.mark)) (hne : ∀ p ∈ ps, p.body ≠ []) :
    f.id ∉ ps.map Packet.id := by
  intro hm
  obtain ⟨p, hp, hid⟩ := List.mem_map.1 hm
  obtain ⟨b, bs, hb⟩ := List.exists_cons_of_ne_nil (hne p hp)
  refine h (p.id, b) (List.mem_flatMap.2 ⟨p, hp, ?_⟩) hid
  simp [Packet.mark, hb]

/-- the packets before the open one, and the open one -/
theorem progress_spec (ps : List (Packet α)) (hd : Distinct made (ps ++ [f])) (hl : log = ps.flatMap Packet.mark)
    (hn : n ≤ f.body.length) : OpenAt made (log ++ f.mark.take n) (progress f n) := by
  unfold progress
  split_ifs with h0 hlt
  · refine ⟨ps, ⟨?_, fun p hp => hd.mem p (by simp [hp])⟩, by simp [h0, hl]⟩
    exact (List.nodup_append.1 (List.map_append ▸ hd.nodup)).1
  · exact ⟨ps, hd, by rw [hl], by omega, hlt⟩
  · refine ⟨ps ++ [f], hd, ?_⟩
    rw [hl, List.take_of_length_le (by simp; omega)]
    simp

/-- **A packet is started where none is open.** -/
theorem OpenAt.write_new (h : OpenAt made log none) (hne : ∀ p ∈ made, p.body ≠ []) (hf : f ∈ made)
    (habs : Absent f log) (hn : n ≤ f.body.length) : OpenAt made (log ++ f.mark.take n) (progress f n) := by
  obtain ⟨ps, hd, hl⟩ := h
  refine progress_spec ps ⟨?_, ?_⟩ hl hn
  · rw [List.map_append, List.nodup_append]
    refine ⟨hd.nodup, by simp, ?_⟩
    intro i hi j hj hij
    simp only [List.map_cons, List.map_nil, List.mem_singleton] at hj
    subst hij hj
    exact Absent.not_mem (hl ▸ habs) (fun p hp => hne p (hd.mem p hp)) hi
  · intro p hp
    rcases List.mem_append.1 hp with hp | hp
    · exact hd.mem p hp
    · rw [List.mem_singleton.1 hp]; exact hf

/-- **The open packet is continued.** -/
theorem OpenAt.write_more (h : OpenAt made log (some (f, n))) (hle : n ≤ n') (hn : n' ≤ f.body.length) :
    OpenAt made (log ++ (f.mark.drop n).take (n' - n)) (progress f n') := by
  obtain ⟨ps, hd, hl, -⟩ := h
  have hcat : log ++ (f.mark.drop n).take (n' - n) = ps.flatMap Packet.mark ++ f.mark.take n' := by
    rw [hl, List.append_assoc, ← List.take_add, Nat.add_sub_cancel' hle]
  rw [hcat]
  exact progress_spec ps hd rfl hn

/-! ## What of a packet is in the log -/

def part (i : ℕ) (log : Log α) : List α := (log.filter fun x => x.1 = i).map Prod.snd

@[simp] theorem part_nil (i : ℕ) : part i ([] : Log α) = [] := rfl

@[simp] theorem part_append (i : ℕ) (xs ys : Log α) : part i (xs ++ ys) = part i xs ++ part i ys := by
  simp [part]

theorem part_eq_nil {i : ℕ} (h : ∀ x ∈ log, x.1 ≠ i) : part i log = [] := by
  unfold part
  rw [List.filter_eq_nil_iff.2 (fun x hx => by simpa using h x hx)]
  rfl

theorem part_self {xs : List α} (i : ℕ) : part i (xs.map fun x => (i, x)) = xs := by
  unfold part
  rw [List.filter_eq_self.2 (by simp)]
  simp

/-- a piece of a packet is all its own -/
theorem part_piece (f : Packet α) (a b : ℕ) : part f.id ((f.mark.drop a).take b) = (f.body.drop a).take b := by
  unfold Packet.mark
  rw [← List.map_drop, ← List.map_take, part_self]

theorem part_piece_ne {f : Packet α} {i : ℕ} (h : i ≠ f.id) (a b : ℕ) : part i ((f.mark.drop a).take b) = [] :=
  part_eq_nil fun _ hx => (fst_of_mem_mark (List.mem_of_mem_drop (List.mem_of_mem_take hx))).trans_ne h.symm

/-! ## Refuting `Framed` on a concrete log -/

def framedCheck [DecidableEq α] (made : List (Packet α)) : ℕ → Log α → Bool
  | 0, _ => true
  | _, [] => true
  | fuel + 1, x :: log =>
    made.any fun p => p.id = x.1 ∧ ((x :: log) <+: p.mark ∨
      (p.mark <+: (x :: log) ∧ framedCheck made fuel ((x :: log).drop p.body.length)))

/-- every framed log passes -/
theorem Framed.check [DecidableEq α] (h : Framed made log) (fuel : ℕ) : framedCheck made fuel log = true := by
  obtain ⟨ps, hd, hl⟩ := h
  induction fuel generalizing ps log with
  | zero => rfl
  | succ fuel ih =>
    induction ps with
    | nil =>
      have : log = [] := List.prefix_nil.1 hl
      rw [this]; rfl
    | cons p ps ihp =>
      have hd' : Distinct made ps :=
        ⟨(List.nodup_cons.1 (List.map_cons ▸ hd.nodup)).2, fun q hq => hd.mem q (List.mem_cons_of_mem _ hq)⟩
      by_cases hp : p.body = []
      · refine ihp hd' ?_
        simpa [Packet.mark, hp] using hl
      cases log with
      | nil => rfl
      | cons x log =>
        rw [List.flatMap_cons] at hl
        have hx : x.1 = p.id := by
          obtain ⟨b, bs, hb⟩ := List.exists_cons_of_ne_nil hp
          have h0 : (x :: log) <+: ((p.id, b) :: (bs.map fun y => (p.id, y))) ++ ps.flatMap Packet.mark := by
            simpa [Packet.mark, hb] using hl
          rw [List.cons_append, List.cons_prefix_cons] at h0
          rw [h0.1]
        unfold framedCheck
        rw [List.any_eq_true]
        refine ⟨p, hd.mem p List.mem_cons_self, decide_eq_true ⟨hx.symm, ?_⟩⟩
        rcases le_total (x :: log).length p.mark.length with hle | hle
        · exact .inl (List.prefix_of_prefix_length_le hl (List.prefix_append _ _) hle)
        · have hpre : p.mark <+: x :: log := List.prefix_of_prefix_length_le (List.prefix_append _ _) hl hle
          refine .inr ⟨hpre, ih ps hd' ?_⟩
          obtain ⟨t, ht⟩ := hpre
          rw [← ht, List.prefix_append_right_inj] at hl
          rw [← ht, ← length_mark, List.drop_left]
          exact hl

end WsServer.Packets
