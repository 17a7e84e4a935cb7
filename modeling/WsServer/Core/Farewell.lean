/-
What a sender of `Core/Sender.lean` says last.

`p` tells the bodies of last words from all others. While only a farewell has such a body (`tactful`), the present peer
was sent nothing of a last word and none is in a slot. A stream that ended has bytes of one last word at most, and nothing
is behind them (`Parts`).

- `Discreet.move`: one move keeps this.
- `Moves.discreet`: so do any moves.
-/
import Mathlib
import WsServer.Core.Replies

namespace WsServer.Packets

variable {α μ : Type} {p : List α → Bool} {s t : Sender α μ} {Q : Sender α μ → Move α μ → Prop} {made : List (Packet α)}
  {w : Log α} {f : Packet α} {x : ℕ × α}

/-- a byte of a packet that `p` names -/
def Named (p : List α → Bool) (made : List (Packet α)) (x : ℕ × α) : Prop := ∃ f ∈ made, f.id = x.1 ∧ p f.body = true

/-- a log with last words at its end, if any -/
def Parts (p : List α → Bool) (made : List (Packet α)) (w : Log α) : Prop :=
  ∃ w0 rest, w = w0 ++ rest ∧ (∀ x ∈ w0, ¬ Named p made x) ∧ (rest = [] ∨ ∃ f ∈ made, p f.body = true ∧ rest <+: f.mark)

/-- only a farewell has last words -/
def tactful (p : List α → Bool) : Move α μ → Prop
  | .reply body => p body = false
  | .load _ body => p body = false
  | .drain _ body _ => p body = false
  | _ => True

structure Discreet (p : List α → Bool) (s : Sender α μ) : Prop where
  data : ∀ f, s.data = some f → p f.body = false
  urgent : ∀ f, s.urgent = some f → p f.body = false
  wire : ∀ x ∈ s.wire, ¬ Named p s.made x
  past : ∀ w ∈ s.past, Parts p s.made w

/-! ## The logs -/

/-- a log without last words -/
theorem parts_of_none (h : ∀ x ∈ w, ¬ Named p made x) : Parts p made w := ⟨w, [], (List.append_nil w).symm, h, .inl rfl⟩

theorem Slots.named_iff (hs : Slots s) (hf : f ∈ s.made) (hx : x.1 = f.id) : Named p s.made x ↔ p f.body = true := by
  constructor
  · rintro ⟨g, hg, hid, hp⟩
    have hget := hs.made_of_mem hg
    rw [hid, hx, hs.made_of_mem hf] at hget
    rw [Option.some.inj hget]
    exact hp
  · intro hp
    exact ⟨f, hf, hx.symm, hp⟩

/-- a packet more names no byte that is on a stream -/
theorem Slots.named_make (hs : Slots s) (body : List α) (hw : w ∈ s.logs) (hx : x ∈ w) :
    Named p (s.make body).made x → Named p s.made x := by
  rintro ⟨f, hf, hid, hp⟩
  rcases List.mem_append.1 hf with hf | hf
  · exact ⟨f, hf, hid, hp⟩
  · rw [List.mem_singleton.1 hf] at hid
    exact absurd hid (hs.log_lt w hw x hx).ne'

theorem Slots.parts_make (hs : Slots s) (body : List α) (hw : w ∈ s.logs) (h : Parts p s.made w) :
    Parts p (s.make body).made w := by
  obtain ⟨w0, rest, rfl, hnone, hrest⟩ := h
  refine ⟨w0, rest, rfl, fun x hx hn => hnone x hx (hs.named_make body hw (List.mem_append_left _ hx) hn), ?_⟩
  exact hrest.imp_right fun ⟨f, hf, hp, hpre⟩ => ⟨f, List.mem_append_left _ hf, hp, hpre⟩

theorem mem_piece {a b : ℕ} (hx : x ∈ (f.mark.drop a).take (b - a)) : x.1 = f.id :=
  fst_of_mem_mark (List.mem_of_mem_drop (List.mem_of_mem_take hx))

/-! ## One move -/

theorem Discreet.make (h : Discreet p s) (hs : Slots s) (body : List α) : Discreet p (s.make body) where
  data := h.data
  urgent := h.urgent
  wire x hx hn := h.wire x hx (hs.named_make body (List.mem_append_right _ (List.mem_singleton_self _)) hx hn)
  past w hw := hs.parts_make body (List.mem_append_left _ hw) (h.past w hw)

/-- a piece of another packet -/
theorem Discreet.put (h : Discreet p s) (hs : Slots s) (hf : f ∈ s.made) (hp : p f.body = false) (a b : ℕ) :
    Discreet p (s.put f a b) where
  data := h.data
  urgent := h.urgent
  wire x hx := by
    rcases List.mem_append.1 hx with hx | hx
    · exact h.wire x hx
    · show ¬ Named p s.made x
      rw [hs.named_iff hf (mem_piece hx), hp]
      exact Bool.false_ne_true
  past := h.past

/-- a slot that is emptied, or moved on -/
theorem Discreet.slots (h : Discreet p s) (hdata : t.data = s.data ∨ t.data = none)
    (hurgent : t.urgent = s.urgent ∨ t.urgent = none) (hwire : t.wire = s.wire) (hpast : t.past = s.past)
    (hmade : t.made = s.made) : Discreet p t where
  data f hf := by
    rcases hdata with hd | hd <;> rw [hd] at hf
    · exact h.data f hf
    · cases hf
  urgent f hf := by
    rcases hurgent with hu | hu <;> rw [hu] at hf
    · exact h.urgent f hf
    · cases hf
  wire := by
    rw [hwire, hmade]
    exact h.wire
  past := by
    rw [hpast, hmade]
    exact h.past

/-- the stream ends -/
theorem discreet_detach (hpast : ∀ w ∈ s.past, Parts p s.made w) (hwire : Parts p s.made s.wire) : Discreet p s.detach where
  data := nofun
  urgent := nofun
  wire := nofun
  past w hw := by
    rcases List.mem_append.1 hw with hw | hw
    · exact hpast w hw
    · rw [List.mem_singleton.1 hw]
      exact hwire

theorem Discreet.farewell (h : Discreet p s) (hs : Slots s) (body : List α) (n : ℕ) :
    Discreet p (s.move (.farewell body n)) := by
  have hmade := h.make hs body
  have hfresh : s.fresh body ∈ (s.make body).made := List.mem_append_right _ (List.mem_singleton_self _)
  refine discreet_detach hmade.past ?_
  show Parts p (s.make body).made (s.wire ++ ((s.fresh body).mark.drop 0).take (n - 0))
  cases hp : p body with
  | true => exact ⟨s.wire, _, rfl, hmade.wire, .inr ⟨s.fresh body, hfresh, hp, List.take_prefix _ _⟩⟩
  | false =>
    refine parts_of_none fun x hx => ?_
    rcases List.mem_append.1 hx with hx | hx
    · exact hmade.wire x hx
    · rintro ⟨f, hf, hid, hlast⟩
      rcases List.mem_append.1 hf with hf | hf
      · exact absurd (hid.trans (mem_piece hx)) (hs.fresh_ne body hf)
      · rw [List.mem_singleton.1 hf, show p (s.fresh body).body = false from hp] at hlast
        cases hlast

theorem Discreet.move (h : Discreet p s) (hs : Slots s) {m : Move α μ} (hc : s.can m) (hq : tactful p m) :
    Discreet p (s.move m) := by
  have hfresh : ∀ body, s.fresh body ∈ (s.make body).made := fun _ =>
    List.mem_append_right _ (List.mem_singleton_self _)
  cases m with
  | attach k => exact h.slots (.inl rfl) (.inl rfl) rfl rfl rfl
  | detach => exact discreet_detach h.past (parts_of_none h.wire)
  | farewell body n => exact h.farewell hs body n
  | flushUrgent n =>
    obtain ⟨-, -, f, hf, -⟩ := hc
    have hput := h.put hs (hs.urgent f hf).mem (h.urgent f hf) s.urgentOff n
    show Discreet p (s.urgent.elim s fun f => s.flushUrgent f n)
    rw [hf, Option.elim_some]
    unfold Sender.flushUrgent
    split_ifs
    · exact hput.slots (.inl rfl) (.inr rfl) rfl rfl rfl
    · exact hput.slots (.inl rfl) (.inl rfl) rfl rfl rfl
  | flushData n =>
    obtain ⟨-, -, -, f, hf, -⟩ := hc
    have hput := h.put hs (hs.data f hf).mem (h.data f hf) s.dataOff n
    show Discreet p (s.data.elim s fun f => s.flushData f n)
    rw [hf, Option.elim_some]
    unfold Sender.flushData
    split_ifs
    · exact hput.slots (.inr rfl) (.inl rfl) rfl rfl rfl
    · exact hput.slots (.inl rfl) (.inl rfl) rfl rfl rfl
  | reply body =>
    have hmade := h.make hs body
    refine ⟨hmade.data, fun f hf => ?_, hmade.wire, hmade.past⟩
    obtain rfl := Option.some.inj hf
    exact hq
  | load m body =>
    have hmade := h.make hs body
    refine ⟨fun f hf => ?_, hmade.urgent, hmade.wire, hmade.past⟩
    obtain rfl := Option.some.inj hf
    exact hq
  | drain m body n =>
    have hmade := h.make hs body
    have hput := hmade.put (hs.make hc.2.2.2.1) (hfresh body) hq 0 n
    exact hput.slots (.inl rfl) (.inl rfl) rfl rfl rfl

end WsServer.Packets
