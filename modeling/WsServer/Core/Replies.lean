/-
What a sender of `Core/Sender.lean` says through its urgent slot.

`p` tells the bodies of replies from all others. The bytes of replies that are on the present stream, followed by the
part of the urgent packet that is still to come, are what was said (`said`).

- `Sender.said_reply`: a reply adds its body.
- `Moves.said_kept`: every other move adds nothing and takes nothing away, and the end of the stream forgets it all. So
  replies are sent whole and in their order, whatever the sizes of the pieces.
-/
import Mathlib
import WsServer.Core.Sender

namespace WsServer.Packets

variable {α μ : Type} {p : List α → Bool} {s t : Sender α μ} {Q : Sender α μ → Move α μ → Prop}

namespace Sender

/-- the bytes of replies on the present stream -/
def heard (p : List α → Bool) (s : Sender α μ) : List α :=
  (s.wire.filter fun x => (s.made[x.1]?).any fun f => p f.body).map Prod.snd

/-- what is still to be written of the urgent packet -/
def owed (s : Sender α μ) : List α := s.urgent.elim [] fun f => f.body.drop s.urgentOff

def said (p : List α → Bool) (s : Sender α μ) : List α := s.heard p ++ s.owed

end Sender

/-- the urgent packet is a reply, the data packet is none -/
structure Voices (p : List α → Bool) (s : Sender α μ) : Prop where
  urgent : ∀ f, s.urgent = some f → p f.body = true
  data : ∀ f, s.data = some f → p f.body = false

/-- a move that makes no reply -/
def silent (p : List α → Bool) (_ : Sender α μ) : Move α μ → Prop
  | .reply _ => False
  | .load _ body => p body = false
  | .drain _ body _ => p body = false
  | _ => True

/-! ## One move -/

theorem Slots.made_of_mem (h : Slots s) {f : Packet α} (hf : f ∈ s.made) : s.made[f.id]? = some f := by
  obtain ⟨i, hi, hfi⟩ := List.mem_iff_getElem.1 hf
  have hget : s.made[i]? = some f := by rw [List.getElem?_eq_getElem hi, hfi]
  rw [h.ids i f hget]
  exact hget

/-- a packet more changes nothing for the bytes on the stream -/
theorem Slots.heard_make (h : Slots s) (body : List α) : (s.make body).heard p = s.heard p := by
  unfold Sender.heard
  refine congrArg (List.map Prod.snd) (List.filter_congr fun x hx => ?_)
  show ((s.made ++ [_])[x.1]?).any _ = _
  rw [List.getElem?_append_left (h.wire_lt x hx)]

/-- a piece of a reply is heard, a piece of anything else is not -/
theorem Sender.heard_put {f : Packet α} (hf : s.made[f.id]? = some f) (a b : ℕ) :
    (s.put f a b).heard p = s.heard p ++ if p f.body then (f.body.drop a).take (b - a) else [] := by
  unfold Sender.heard Sender.put
  dsimp only
  rw [List.filter_append, List.map_append, List.append_cancel_left_eq]
  have hall : ∀ x ∈ (f.mark.drop a).take (b - a), ((s.made[x.1]?).any fun f => p f.body) = p f.body := by
    intro x hx
    rw [fst_of_mem_mark (List.mem_of_mem_drop (List.mem_of_mem_take hx)), hf, Option.any_some]
  split_ifs with hp
  · rw [List.filter_eq_self.2 fun x hx => (hall x hx).trans hp, Packet.mark, ← List.map_drop, ← List.map_take,
      List.map_map]
    exact List.map_id _
  · rw [List.filter_eq_nil_iff.2 fun x hx => by rw [hall x hx]; exact hp]
    rfl

/-- the end of a stream -/
theorem Sender.said_detach (s : Sender α μ) : s.detach.said p = [] := rfl

theorem Sender.said_reply (h : Slots s) (hu : s.urgent = none) (body : List α) :
    (s.move (.reply body)).said p = s.said p ++ body := by
  have hheard : (s.move (.reply body)).heard p = s.heard p := h.heard_make body
  have howed : s.owed = [] := by unfold Sender.owed; rw [hu]; rfl
  unfold Sender.said
  rw [hheard, howed, List.append_nil]
  rfl

/-- what a silent move keeps, or the end of the stream -/
structure SaidKept (p : List α → Bool) (s t : Sender α μ) : Prop where
  voices : Voices p t
  said : (t.past.length = s.past.length ∧ t.said p = s.said p) ∨ (s.past.length < t.past.length ∧ t.said p = [])
  urgent : t.urgent = none ∨ (t.past.length = s.past.length ∧ t.urgent = s.urgent)

theorem SaidKept.refl (h : Voices p s) : SaidKept p s s := ⟨h, .inl ⟨rfl, rfl⟩, .inr ⟨rfl, rfl⟩⟩

/-- behind the end of the stream no slot is filled -/
theorem Voices.of_detach (u : Sender α μ) : Voices p u.detach where
  urgent _ hf := absurd hf.symm (Option.some_ne_none _)
  data _ hf := absurd hf.symm (Option.some_ne_none _)

theorem Voices.silent_move (hv : Voices p s) (h : Slots s) {m : Move α μ} (hc : s.can m) (hq : silent p s m) :
    SaidKept p s (s.move m) := by
  have hend : ∀ u : Sender α μ, u.past = s.past → SaidKept p s u.detach := fun u hu =>
    ⟨.of_detach u, .inr ⟨by simp [Sender.detach, hu], u.said_detach⟩, .inl rfl⟩
  cases m with
  | attach k => exact ⟨⟨hv.urgent, hv.data⟩, .inl ⟨rfl, rfl⟩, .inr ⟨rfl, rfl⟩⟩
  | detach => exact hend s rfl
  | farewell body n => exact hend _ rfl
  | flushUrgent n =>
    obtain ⟨-, -, f, hf, hle, hn⟩ := hc
    have hheard := s.heard_put (p := p) (h.made_of_mem (h.urgent f hf).mem) s.urgentOff n
    rw [if_pos (hv.urgent f hf)] at hheard
    have howed : s.owed = f.body.drop s.urgentOff := by unfold Sender.owed; rw [hf]; rfl
    have hsplit : (f.body.drop s.urgentOff).take (n - s.urgentOff) ++ f.body.drop n = f.body.drop s.urgentOff := by
      have := List.take_append_drop (n - s.urgentOff) (f.body.drop s.urgentOff)
      rwa [List.drop_drop, Nat.add_sub_cancel' hle] at this
    show SaidKept p s (s.urgent.elim s fun f => s.flushUrgent f n)
    rw [hf, Option.elim_some]
    unfold Sender.flushUrgent
    split_ifs with hall
    · refine ⟨⟨fun _ hf => absurd hf.symm (Option.some_ne_none _), hv.data⟩, .inl ⟨rfl, ?_⟩, .inl rfl⟩
      show (s.put f s.urgentOff n).heard p ++ [] = s.heard p ++ s.owed
      rw [hall, List.drop_length, List.append_nil] at hsplit
      rw [List.append_nil, hheard, howed, hall, hsplit]
    · refine ⟨⟨hv.urgent, hv.data⟩, .inl ⟨rfl, ?_⟩, .inr ⟨rfl, rfl⟩⟩
      show (s.put f s.urgentOff n).heard p ++ (s.urgent.elim [] fun f => f.body.drop n) = s.heard p ++ s.owed
      rw [hheard, howed, hf, Option.elim_some, List.append_assoc, hsplit]
  | flushData n =>
    obtain ⟨-, -, -, f, hf, -, -⟩ := hc
    have hheard := s.heard_put (p := p) (h.made_of_mem (h.data f hf).mem) s.dataOff n
    rw [if_neg (by rw [hv.data f hf]; exact Bool.false_ne_true), List.append_nil] at hheard
    have hsaid : (s.put f s.dataOff n).heard p ++ s.owed = s.said p := by rw [hheard]; rfl
    show SaidKept p s (s.data.elim s fun f => s.flushData f n)
    rw [hf, Option.elim_some]
    unfold Sender.flushData
    split_ifs
    · exact ⟨⟨hv.urgent, fun _ hf => absurd hf.symm (Option.some_ne_none _)⟩, .inl ⟨rfl, hsaid⟩, .inr ⟨rfl, rfl⟩⟩
    · exact ⟨⟨hv.urgent, hv.data⟩, .inl ⟨rfl, hsaid⟩, .inr ⟨rfl, rfl⟩⟩
  | reply body => exact hq.elim
  | load m body =>
    refine ⟨⟨hv.urgent, ?_⟩, .inl ⟨rfl, ?_⟩, .inr ⟨rfl, rfl⟩⟩
    · intro f hf
      obtain rfl := Option.some.inj hf
      exact hq
    · exact congrArg (· ++ s.owed) (h.heard_make body)
  | drain m body n =>
    have hfresh : (s.make body).made[(s.fresh body).id]? = some (s.fresh body) := List.getElem?_concat_length
    have hheard := (s.make body).heard_put (p := p) hfresh 0 n
    have hbody : ¬ p (s.fresh body).body = true := by
      show ¬ p body = true
      rw [show p body = false from hq]
      exact Bool.false_ne_true
    rw [if_neg hbody, List.append_nil, h.heard_make] at hheard
    exact ⟨⟨hv.urgent, hv.data⟩, .inl ⟨rfl, congrArg (· ++ s.owed) hheard⟩, .inr ⟨rfl, rfl⟩⟩

/-! ## Moves -/

theorem SaidKept.trans {u : Sender α μ} (h : SaidKept p s t) (h' : SaidKept p t u) : SaidKept p s u := by
  refine ⟨h'.voices, ?_, ?_⟩
  · rcases h.said with ⟨h1, h2⟩ | ⟨h1, h2⟩
    · rcases h'.said with ⟨h3, h4⟩ | ⟨h3, h4⟩
      · exact .inl ⟨h3.trans h1, h4.trans h2⟩
      · exact .inr ⟨by omega, h4⟩
    · rcases h'.said with ⟨h3, h4⟩ | ⟨h3, h4⟩
      · exact .inr ⟨by omega, h4.trans h2⟩
      · exact .inr ⟨by omega, h4⟩
  · rcases h'.urgent with h1 | ⟨h1, h2⟩
    · exact .inl h1
    · rcases h.urgent with h3 | ⟨h3, h4⟩
      · exact .inl (h2.trans h3)
      · exact .inr ⟨h1.trans h3, h2.trans h4⟩

/-- **Silent moves keep what was said**, until the stream ends. -/
theorem Moves.said_kept (h : Moves Q s t) (hq : ∀ u m, Q u m → silent p u m) (hs : Slots s) (hv : Voices p s) :
    SaidKept p s t := by
  induction h with
  | nil => exact .refl hv
  | cons m hc hm _ ih =>
    have hstep := hv.silent_move hs hc (hq _ _ hm)
    exact hstep.trans (ih (hs.move hc) hstep.voices)

end WsServer.Packets
