/-
A sender of packets over one stream at a time, with a slot for data and a slot for urgent packets.

The peer may change: each peer has a stream of its own, and the logs of the earlier ones are kept. A packet is written
from its slot in pieces; the urgent slot goes first. Two moves write without a slot: a farewell, written once as far as
it goes before the stream ends, and a packet that is tried once and then given up (`drain`).

- `Slots`: what holds in every run: what of the two slots' packets is on the stream, and on no other one.
- `Ordered`, `Moves.ordered`: while no move starts a packet in the middle of another one (`orderly`), every log can be
  cut into packets again.
- `Accounted`, `Moves.accounted`: every packet made for a message is in the data slot or has a fate, and its fate says
  on which one stream it is and whether in full.
- `Spared`, `Moves.spared`: the end of a stream costs at most one packet.
- `Moves.data_kept`: the packet in the data slot is not overwritten.
-/
import Mathlib
import WsServer.Core.Packets

namespace WsServer.Packets

variable {α μ : Type}

/-- what became of the packet of a message: the stream it is on, and whether in full -/
structure Fate where
  stream : ℕ
  whole : Bool
deriving DecidableEq, Repr

structure Sender (α μ : Type) where
  peer : Option ℕ
  data : Option (Packet α)
  dataOff : ℕ
  urgent : Option (Packet α)
  urgentOff : ℕ
  made : List (Packet α)
  wire : Log α
  past : List (Log α)
  cut : Bool
  sent : List (μ × Packet α)
  fates : List Fate

inductive Move (α μ : Type) where
  | attach (k : ℕ)
  | detach
  | farewell (body : List α) (n : ℕ)
  | flushUrgent (n : ℕ)
  | flushData (n : ℕ)
  | reply (body : List α)
  | load (m : μ) (body : List α)
  | drain (m : μ) (body : List α) (n : ℕ)

namespace Sender

def fresh (s : Sender α μ) (body : List α) : Packet α := ⟨s.made.length, body⟩

def put (s : Sender α μ) (f : Packet α) (a b : ℕ) : Sender α μ :=
  { s with wire := s.wire ++ (f.mark.drop a).take (b - a) }

def make (s : Sender α μ) (body : List α) : Sender α μ := { s with made := s.made ++ [s.fresh body] }

/-- the stream ends and takes what is in the slots with it -/
def detach (s : Sender α μ) : Sender α μ :=
  { s with
    peer := none
    data := none
    dataOff := 0
    urgent := none
    urgentOff := 0
    wire := []
    past := s.past ++ [s.wire]
    cut := false
    fates := if s.data.isSome then s.fates ++ [⟨s.past.length, false⟩] else s.fates }

def flushUrgent (s : Sender α μ) (f : Packet α) (n : ℕ) : Sender α μ :=
  if n = f.body.length then { s.put f s.urgentOff n with urgent := none, urgentOff := 0 }
  else { s.put f s.urgentOff n with urgentOff := n }

def flushData (s : Sender α μ) (f : Packet α) (n : ℕ) : Sender α μ :=
  if n = f.body.length then
    { s.put f s.dataOff n with data := none, dataOff := 0, fates := s.fates ++ [⟨s.past.length, true⟩] }
  else { s.put f s.dataOff n with dataOff := n }

def drain (s : Sender α μ) (m : μ) (body : List α) (n : ℕ) : Sender α μ :=
  { (s.make body).put (s.fresh body) 0 n with
    sent := s.sent ++ [(m, s.fresh body)]
    fates := s.fates ++ [⟨s.past.length, n = body.length⟩]
    cut := s.cut || (0 < n && n ≠ body.length) }

def move (s : Sender α μ) : Move α μ → Sender α μ
  | .attach k => { s with peer := some k }
  | .detach => s.detach
  | .farewell body n => ((s.make body).put (s.fresh body) 0 n).detach
  | .flushUrgent n => s.urgent.elim s fun f => s.flushUrgent f n
  | .flushData n => s.data.elim s fun f => s.flushData f n
  | .reply body => { s.make body with urgent := some (s.fresh body), urgentOff := 0 }
  | .load m body =>
    { s.make body with data := some (s.fresh body), dataOff := 0, sent := s.sent ++ [(m, s.fresh body)] }
  | .drain m body n => s.drain m body n

/-- when a move is possible -/
def can (s : Sender α μ) : Move α μ → Prop
  | .attach _ => s.peer = none
  | .detach => s.peer.isSome
  | .farewell body n => s.peer.isSome ∧ body ≠ [] ∧ n ≤ body.length
  | .flushUrgent n => s.peer.isSome ∧ s.cut = false ∧ ∃ f, s.urgent = some f ∧ s.urgentOff ≤ n ∧ n ≤ f.body.length
  | .flushData n =>
    s.peer.isSome ∧ s.cut = false ∧ s.urgent = none ∧ ∃ f, s.data = some f ∧ s.dataOff ≤ n ∧ n ≤ f.body.length
  | .reply body => s.peer.isSome ∧ s.urgent = none ∧ body ≠ []
  | .load _ body => s.peer.isSome ∧ s.data = none ∧ body ≠ []
  | .drain _ body n => s.peer.isSome ∧ s.data = none ∧ s.urgent = none ∧ body ≠ [] ∧ n ≤ body.length

/-- a packet is half written -/
def mid (s : Sender α μ) : Prop := 0 < s.dataOff ∨ 0 < s.urgentOff ∨ s.cut

instance (s : Sender α μ) : Decidable s.mid := by unfold mid; infer_instance

/-- the move starts no packet in the middle of another one, or none of its bytes is taken -/
def orderly (s : Sender α μ) : Move α μ → Prop
  | .farewell _ n => s.mid → n = 0
  | .flushUrgent n => s.urgentOff = 0 → 0 < s.dataOff → n = 0
  | .drain _ _ n => s.mid → n = 0
  | _ => True

/-- the logs of all streams, the present one last -/
def logs (s : Sender α μ) : List (Log α) := s.past ++ [s.wire]

end Sender

/-- moves one after the other; `Q` is a condition on each of them and the state it starts from -/
inductive Moves (Q : Sender α μ → Move α μ → Prop) : Sender α μ → Sender α μ → Prop where
  | nil (s : Sender α μ) : Moves Q s s
  | cons {s t : Sender α μ} (m : Move α μ) : s.can m → Q s m → Moves Q (s.move m) t → Moves Q s t

variable {Q Q' : Sender α μ → Move α μ → Prop} {s t u : Sender α μ}

theorem Moves.one (m : Move α μ) (hc : s.can m) (hq : Q s m) : Moves Q s (s.move m) := .cons m hc hq (.nil _)

theorem Moves.trans (h : Moves Q s t) (h' : Moves Q t u) : Moves Q s u := by
  induction h with
  | nil => exact h'
  | cons m hc hq _ ih => exact .cons m hc hq (ih h')

theorem Moves.mono (hle : ∀ s m, s.can m → Q s m → Q' s m) (h : Moves Q s t) : Moves Q' s t := by
  induction h with
  | nil => exact .nil _
  | cons m hc hq _ ih => exact .cons m hc (hle _ _ hc hq) ih

/-- **Invariant rule for moves.** -/
theorem Moves.invariant {P : Sender α μ → Prop} (hs : ∀ s m, P s → s.can m → Q s m → P (s.move m)) (h : Moves Q s t)
    (hp : P s) : P t := by
  induction h with
  | nil => exact hp
  | cons m hc hq _ ih => exact ih (hs _ _ hp hc hq)


/-- a stream that ended stays as it is -/
theorem Sender.past_prefix_move (s : Sender α μ) (m : Move α μ) : s.past <+: (s.move m).past := by
  have hdetach : ∀ u : Sender α μ, u.past <+: u.detach.past := fun u => List.prefix_append _ _
  cases m with
  | detach => exact hdetach s
  | farewell body n => exact hdetach ((s.make body).put (s.fresh body) 0 n)
  | flushUrgent n =>
    cases hf : s.urgent with
    | none => simp [Sender.move, hf]
    | some f => simp only [Sender.move, hf, Option.elim_some, Sender.flushUrgent]; split_ifs <;> exact List.prefix_rfl
  | flushData n =>
    cases hf : s.data with
    | none => simp [Sender.move, hf]
    | some f => simp only [Sender.move, hf, Option.elim_some, Sender.flushData]; split_ifs <;> exact List.prefix_rfl
  | _ => exact List.prefix_rfl

theorem Moves.past_prefix (h : Moves Q s t) : s.past <+: t.past := by
  induction h with
  | nil => exact List.prefix_rfl
  | cons m _ _ _ ih => exact (Sender.past_prefix_move _ m).trans ih

/-- streams end and do not come back -/
theorem Moves.past_le (h : Moves Q s t) : s.past.length ≤ t.past.length := h.past_prefix.length_le

/-- the body a move makes a packet of -/
def Move.body : Move α μ → Option (List α)
  | .farewell body _ => some body
  | .reply body => some body
  | .load _ body => some body
  | .drain _ body _ => some body
  | _ => none

theorem Sender.made_move (s : Sender α μ) (m : Move α μ) : (s.move m).made = s.made ++ (m.body.map s.fresh).toList := by
  have hsame : s.made = s.made ++ ([] : List (Packet α)) := (List.append_nil _).symm
  cases m with
  | flushUrgent n =>
    cases hf : s.urgent with
    | none => simp only [Sender.move, hf]; exact hsame
    | some f => simp only [Sender.move, hf, Option.elim_some, Sender.flushUrgent]; split_ifs <;> exact hsame
  | flushData n =>
    cases hf : s.data with
    | none => simp only [Sender.move, hf]; exact hsame
    | some f => simp only [Sender.move, hf, Option.elim_some, Sender.flushData]; split_ifs <;> exact hsame
  | attach | detach => exact hsame
  | _ => rfl

/-- what holds of every body that is made holds of every packet -/
theorem Moves.made_forall {P : List α → Prop} (h : Moves Q s t) (hq : ∀ u m body, Q u m → m.body = some body → P body)
    (hs : ∀ f ∈ s.made, P f.body) : ∀ f ∈ t.made, P f.body := by
  refine h.invariant (P := fun s => ∀ f ∈ s.made, P f.body) ?_ hs
  intro u m hu _ hm f hf
  rw [Sender.made_move] at hf
  rcases List.mem_append.1 hf with hf | hf
  · exact hu f hf
  · obtain ⟨body, hbody, rfl⟩ := Option.map_eq_some_iff.1 (Option.mem_toList.1 hf)
    exact hq u m body hm hbody

/-! ## What holds in every run -/

/-- what of packet `f`, written up to `off`, is on the streams -/
structure Slot (s : Sender α μ) (f : Packet α) (off : ℕ) : Prop where
  mem : f ∈ s.made
  lt : off < f.body.length
  wire : part f.id s.wire = f.body.take off
  past : ∀ w ∈ s.past, part f.id w = []

structure Slots (s : Sender α μ) : Prop where
  ids : ∀ (i : ℕ) (p : Packet α), s.made[i]? = some p → p.id = i
  bodies : ∀ p ∈ s.made, p.body ≠ []
  log_lt : ∀ w ∈ s.logs, ∀ x ∈ w, x.1 < s.made.length
  data : ∀ f, s.data = some f → Slot s f s.dataOff
  urgent : ∀ f, s.urgent = some f → Slot s f s.urgentOff
  ne : ∀ f g, s.urgent = some f → s.data = some g → f.id ≠ g.id
  data_off : s.data = none → s.dataOff = 0
  urgent_off : s.urgent = none → s.urgentOff = 0
  idle : s.peer = none → s.wire = [] ∧ s.data = none ∧ s.urgent = none ∧ s.cut = false

theorem Slots.wire_lt (h : Slots s) : ∀ x ∈ s.wire, x.1 < s.made.length := h.log_lt _ (by simp [Sender.logs])

theorem Slots.id_lt (h : Slots s) {f : Packet α} (hf : f ∈ s.made) : f.id < s.made.length := by
  obtain ⟨i, hi, rfl⟩ := List.mem_iff_getElem.1 hf
  rw [h.ids i _ (List.getElem?_eq_getElem hi)]; exact hi

/-- nothing of the next packet is on any stream -/
theorem Slots.fresh_absent (h : Slots s) (body : List α) {w : Log α} (hw : w ∈ s.logs) :
    part (s.fresh body).id w = [] :=
  part_eq_nil fun x hx => (h.log_lt w hw x hx).ne

theorem Slots.fresh_ne (h : Slots s) (body : List α) {f : Packet α} (hf : f ∈ s.made) : f.id ≠ (s.fresh body).id :=
  (h.id_lt hf).ne

theorem Slot.absent {f : Packet α} (h : Slot s f 0) : Absent f s.wire := by
  intro x hx hid
  have hmem : x.2 ∈ part f.id s.wire := by
    unfold part
    exact List.mem_map.2 ⟨x, List.mem_filter.2 ⟨hx, by simpa using hid⟩, rfl⟩
  rw [h.wire] at hmem
  simp at hmem

theorem Slot.same {f : Packet α} {off : ℕ} (h : Slot s f off) (hm : t.made = s.made) (hw : t.wire = s.wire)
    (hp : t.past = s.past) : Slot t f off :=
  ⟨hm ▸ h.mem, h.lt, hw ▸ h.wire, hp ▸ h.past⟩

/-- another packet is written: nothing changes for this one -/
theorem Slot.put {f g : Packet α} {off a b : ℕ} (h : Slot s f off) (hne : f.id ≠ g.id) : Slot (s.put g a b) f off :=
  ⟨h.mem, h.lt, by simp [Sender.put, part_piece_ne hne, h.wire], h.past⟩

theorem Slot.put_self {f : Packet α} {off n : ℕ} (h : Slot s f off) (hle : off ≤ n) (hn : n < f.body.length) :
    Slot (s.put f off n) f n := by
  refine ⟨h.mem, hn, ?_, h.past⟩
  simp only [Sender.put, part_append, part_piece, h.wire]
  rw [← List.take_add, Nat.add_sub_cancel' hle]

theorem Slot.make {f : Packet α} {off : ℕ} (h : Slot s f off) (body : List α) : Slot (s.make body) f off :=
  ⟨List.mem_append_left _ h.mem, h.lt, h.wire, h.past⟩

theorem Slots.fresh_slot (h : Slots s) {body : List α} (hb : body ≠ []) : Slot (s.make body) (s.fresh body) 0 :=
  ⟨by simp [Sender.make], List.length_pos_of_ne_nil hb, by
    rw [List.take_zero]; exact h.fresh_absent body (by simp [Sender.logs, Sender.make]), fun w hw =>
      h.fresh_absent body (by simp [Sender.logs]; exact .inl hw)⟩

theorem Slots.put (h : Slots s) {f : Packet α} (hf : f ∈ s.made) (a b : ℕ) :
    ∀ w ∈ (s.put f a b).logs, ∀ x ∈ w, x.1 < s.made.length := by
  intro w hw x hx
  rcases List.mem_append.1 hw with hw | hw
  · exact h.log_lt w (List.mem_append_left _ hw) x hx
  · rw [List.mem_singleton.1 hw] at hx
    rcases List.mem_append.1 hx with hx | hx
    · exact h.wire_lt x hx
    · rw [fst_of_mem_mark (List.mem_of_mem_drop (List.mem_of_mem_take hx))]
      exact h.id_lt hf

theorem Slots.make (h : Slots s) {body : List α} (hb : body ≠ []) : Slots (s.make body) where
  ids i p hp := by
    rcases lt_or_ge i s.made.length with hi | hi
    · exact h.ids i p (by rwa [Sender.make, List.getElem?_append_left hi] at hp)
    · rw [Sender.make, List.getElem?_append_right hi, List.getElem?_singleton] at hp
      split_ifs at hp with h0
      obtain rfl := Option.some.inj hp
      simp only [Sender.fresh]; omega
  bodies p hp := by
    rcases List.mem_append.1 hp with hp | hp
    · exact h.bodies p hp
    · rw [List.mem_singleton.1 hp]; exact hb
  log_lt w hw x hx := by
    have := h.log_lt w hw x hx
    simp only [Sender.make, List.length_append, List.length_singleton]; omega
  data f hf := (h.data f hf).make body
  urgent f hf := (h.urgent f hf).make body
  ne := h.ne
  data_off := h.data_off
  urgent_off := h.urgent_off
  idle := h.idle

theorem Slots.detach (h : Slots s) : Slots s.detach where
  ids := h.ids
  bodies := h.bodies
  log_lt w hw x hx := by
    rcases List.mem_append.1 hw with hw | hw
    · exact h.log_lt w hw x hx
    · rw [List.mem_singleton.1 hw] at hx
      cases hx
  data f hf := nomatch hf
  urgent f hf := nomatch hf
  ne f g hf := nomatch hf
  data_off _ := rfl
  urgent_off _ := rfl
  idle _ := ⟨rfl, rfl, rfl, rfl⟩

/-- a packet in no slot is written -/
theorem Slots.put_other (h : Slots s) {f : Packet α} (hf : f ∈ s.made) (hd : ∀ g, s.data = some g → g.id ≠ f.id)
    (hu : ∀ g, s.urgent = some g → g.id ≠ f.id) (hp : s.peer.isSome) (a b : ℕ) : Slots (s.put f a b) where
  ids := h.ids
  bodies := h.bodies
  log_lt := h.put hf a b
  data g hg := (h.data g hg).put (hd g hg)
  urgent g hg := (h.urgent g hg).put (hu g hg)
  ne := h.ne
  data_off := h.data_off
  urgent_off := h.urgent_off
  idle hn := by simp [show s.peer = none from hn] at hp

theorem Slots.flushUrgent (h : Slots s) {f : Packet α} {n : ℕ} (hf : s.urgent = some f) (hle : s.urgentOff ≤ n)
    (hn : n ≤ f.body.length) (hp : s.peer.isSome) : Slots (s.flushUrgent f n) := by
  have hs := h.urgent f hf
  have hd : ∀ g, s.data = some g → Slot (s.put f s.urgentOff n) g s.dataOff := fun g hg =>
    (h.data g hg).put (h.ne f g hf hg).symm
  have hidle : s.peer ≠ none := fun hn => by simp [hn] at hp
  unfold Sender.flushUrgent
  split_ifs with heq
  · exact ⟨h.ids, h.bodies, h.put hs.mem _ _, fun g hg => (hd g hg).same rfl rfl rfl,
      nofun, nofun, h.data_off, fun _ => rfl, fun hn => absurd hn hidle⟩
  · have hself := hs.put_self hle (by omega)
    refine ⟨h.ids, h.bodies, h.put hs.mem _ _, fun g hg => (hd g hg).same rfl rfl rfl,
      fun g hg => ?_, h.ne, h.data_off, fun hnone => ?_, fun hn => absurd hn hidle⟩
    · obtain rfl : f = g := Option.some.inj (hf.symm.trans hg)
      exact hself.same rfl rfl rfl
    · exact absurd (hf.symm.trans hnone) (by simp)

theorem Slots.flushData (h : Slots s) {f : Packet α} {n : ℕ} (hf : s.data = some f) (hle : s.dataOff ≤ n)
    (hn : n ≤ f.body.length) (hp : s.peer.isSome) : Slots (s.flushData f n) := by
  have hs := h.data f hf
  have hu : ∀ g, s.urgent = some g → Slot (s.put f s.dataOff n) g s.urgentOff := fun g hg =>
    (h.urgent g hg).put (h.ne g f hg hf)
  have hidle : s.peer ≠ none := fun hn => by simp [hn] at hp
  unfold Sender.flushData
  split_ifs with heq
  · exact ⟨h.ids, h.bodies, h.put hs.mem _ _, nofun,
      fun g hg => (hu g hg).same rfl rfl rfl, nofun, fun _ => rfl, h.urgent_off,
      fun hn => absurd hn hidle⟩
  · have hself := hs.put_self hle (by omega)
    refine ⟨h.ids, h.bodies, h.put hs.mem _ _, fun g hg => ?_,
      fun g hg => (hu g hg).same rfl rfl rfl, h.ne, fun hnone => ?_, h.urgent_off,
      fun hn => absurd hn hidle⟩
    · obtain rfl : f = g := Option.some.inj (hf.symm.trans hg)
      exact hself.same rfl rfl rfl
    · exact absurd (hf.symm.trans hnone) (by simp)

/-- the next packet is made and written at once -/
theorem Slots.make_put (h : Slots s) {body : List α} (hb : body ≠ []) (hp : s.peer.isSome) (n : ℕ) :
    Slots ((s.make body).put (s.fresh body) 0 n) :=
  (h.make hb).put_other (by simp [Sender.make]) (fun g hg => h.fresh_ne body (h.data g hg).mem)
    (fun g hg => h.fresh_ne body (h.urgent g hg).mem) hp 0 n

theorem Slots.move (h : Slots s) {m : Move α μ} (hc : s.can m) : Slots (s.move m) := by
  cases m with
  | attach k => exact ⟨h.ids, h.bodies, h.log_lt, fun f hf => (h.data f hf).same rfl rfl rfl, fun f hf => (h.urgent f hf).same rfl rfl rfl, h.ne, h.data_off, h.urgent_off, nofun⟩
  | detach => exact h.detach
  | farewell body n => exact (h.make_put hc.2.1 hc.1 n).detach
  | flushUrgent n =>
    obtain ⟨hp, -, f, hf, hle, hn⟩ := hc
    simp only [Sender.move, hf, Option.elim_some]
    exact h.flushUrgent hf hle hn hp
  | flushData n =>
    obtain ⟨hp, -, -, f, hf, hle, hn⟩ := hc
    simp only [Sender.move, hf, Option.elim_some]
    exact h.flushData hf hle hn hp
  | reply body =>
    obtain ⟨hp, hu, hb⟩ := hc
    have hm := h.make hb
    have hs := h.fresh_slot hb
    refine ⟨hm.ids, hm.bodies, hm.log_lt, fun f hf => ?_, fun f hf => ?_, fun f g hf hg => ?_, h.data_off, nofun,
      fun hn => by simp [Sender.move, Sender.make] at hn; simp [hn] at hp⟩
    · exact (hm.data f hf).same rfl rfl rfl
    · obtain rfl := Option.some.inj hf
      exact hs.same rfl rfl rfl
    · obtain rfl := Option.some.inj hf
      exact (h.fresh_ne body (h.data g hg).mem).symm
  | load m body =>
    obtain ⟨hp, hd, hb⟩ := hc
    have hm := h.make hb
    have hs := h.fresh_slot hb
    refine ⟨hm.ids, hm.bodies, hm.log_lt, fun f hf => ?_, fun f hf => ?_, fun f g hf hg => ?_, nofun, h.urgent_off,
      fun hn => by simp [Sender.move, Sender.make] at hn; simp [hn] at hp⟩
    · obtain rfl := Option.some.inj hf
      exact hs.same rfl rfl rfl
    · exact (hm.urgent f hf).same rfl rfl rfl
    · obtain rfl := Option.some.inj hg
      exact h.fresh_ne body (h.urgent f hf).mem
  | drain m body n =>
    obtain ⟨hp, hd, hu, hb, hn⟩ := hc
    have hm := h.make_put hb hp n
    exact ⟨hm.ids, hm.bodies, hm.log_lt, fun f hf => by simp [Sender.move, Sender.drain, Sender.make, Sender.put, hd] at hf,
      fun f hf => by simp [Sender.move, Sender.drain, Sender.make, Sender.put, hu] at hf,
      fun f g hf => by simp [Sender.move, Sender.drain, Sender.make, Sender.put, hu] at hf, h.data_off, h.urgent_off,
      fun hn => by simp [Sender.move, Sender.drain, Sender.make, Sender.put] at hn; simp [hn] at hp⟩

/-- **The slots and the streams agree in every run.** -/
theorem Moves.slots (h : Moves Q s t) (hs : Slots s) : Slots t := h.invariant (fun _ _ hp hc _ => hp.move hc) hs

/-! ## Streams that can be cut into packets -/

/-- the packet that is open on the stream -/
def Sender.cur (s : Sender α μ) : Option (Packet α × ℕ) :=
  (s.urgent.bind fun f => progress f s.urgentOff).or (s.data.bind fun f => progress f s.dataOff)

@[simp] theorem progress_zero (f : Packet α) : progress f 0 = none := rfl

theorem progress_length (f : Packet α) : progress f f.body.length = none := by
  unfold progress; split_ifs <;> simp_all

theorem progress_pos {f : Packet α} {n : ℕ} (h0 : 0 < n) (hn : n < f.body.length) : progress f n = some (f, n) := by
  unfold progress; rw [if_neg (by omega), if_pos hn]

theorem Sender.cur_none (hu : s.urgentOff = 0) (hd : s.dataOff = 0) : s.cur = none := by
  unfold Sender.cur
  rw [hu, hd]
  cases s.urgent <;> cases s.data <;> rfl

theorem OpenAt.at_cur {c : Option (Packet α × ℕ)} (h : OpenAt s.made s.wire c) (hc : s.cur = c) :
    OpenAt s.made s.wire s.cur := hc ▸ h

structure Ordered (s : Sender α μ) : Prop where
  slots : Slots s
  once : s.urgentOff = 0 ∨ s.dataOff = 0
  past : ∀ w ∈ s.past, Framed s.made w
  wire : Framed s.made s.wire
  opened : s.cut = false → OpenAt s.made s.wire s.cur

/-- nothing is half written: the stream holds whole packets -/
theorem Ordered.between (h : Ordered s) (hm : ¬ s.mid) : OpenAt s.made s.wire none := by
  unfold Sender.mid at hm
  push Not at hm
  rw [← Sender.cur_none (s := s) (by omega) (by omega)]
  exact h.opened (by simpa using hm.2.2)

theorem Ordered.logs (h : Ordered s) : ∀ w ∈ s.logs, Framed s.made w := by
  intro w hw
  rcases List.mem_append.1 hw with hw | hw
  · exact h.past w hw
  · rw [List.mem_singleton.1 hw]; exact h.wire

theorem mem_make (s : Sender α μ) (body : List α) : ∀ p ∈ s.made, p ∈ (s.make body).made :=
  fun _ hp => List.mem_append_left _ hp

theorem Ordered.detach (hs : Slots s) (hp : ∀ w ∈ s.past, Framed s.made w) (hw : Framed s.made s.wire) :
    Ordered s.detach where
  slots := hs.detach
  once := .inl rfl
  past w hm := by
    rcases List.mem_append.1 hm with hm | hm
    · exact hp w hm
    · rw [List.mem_singleton.1 hm]; exact hw
  wire := .nil _
  opened _ := OpenAt.nil _

/-- the first `n` bytes of the next packet: fine between packets, and if `n = 0` -/
theorem Ordered.write_fresh (h : Ordered s) {body : List α} {n : ℕ} (hb : body ≠ []) (hn : n ≤ body.length)
    (hmid : s.mid → n = 0) :
    Framed (s.make body).made ((s.make body).put (s.fresh body) 0 n).wire ∧
      (¬ s.mid → OpenAt (s.make body).made ((s.make body).put (s.fresh body) 0 n).wire (progress (s.fresh body) n)) := by
  have hmake := h.slots.make hb
  have habs := (h.slots.fresh_slot hb).absent
  have hopen : ¬ s.mid → OpenAt (s.make body).made ((s.make body).put (s.fresh body) 0 n).wire
      (progress (s.fresh body) n) := fun hm => by
    have := ((h.between hm).mono (mem_make s body)).write_new (n := n) hmake.bodies (f := s.fresh body)
      (by simp [Sender.make]) habs hn
    simpa [Sender.put, Sender.make] using this
  refine ⟨?_, hopen⟩
  by_cases hm : s.mid
  · obtain rfl := hmid hm
    simpa [Sender.put, Sender.make] using h.wire.mono (mem_make s body)
  · exact (hopen hm).framed

/-- the slot's packet is written on -/
theorem Slot.write {f : Packet α} {off n : ℕ} (h : Slot s f off) (hb : ∀ p ∈ s.made, p.body ≠ [])
    (hopen : OpenAt s.made s.wire (progress f off)) (hle : off ≤ n) (hn : n ≤ f.body.length) :
    OpenAt s.made (s.put f off n).wire (progress f n) := by
  rcases Nat.eq_zero_or_pos off with rfl | hpos
  · have := OpenAt.write_new hopen hb h.mem h.absent hn
    simpa [Sender.put] using this
  · rw [progress_pos hpos h.lt] at hopen
    exact hopen.write_more hle hn

theorem Ordered.flushUrgent (h : Ordered s) {n : ℕ} (hc : s.can (.flushUrgent n)) (ho : s.orderly (.flushUrgent n)) :
    Ordered (s.move (.flushUrgent n)) := by
  have hslots := h.slots.move hc
  obtain ⟨hp, hcut, f, hf, hle, hn⟩ := hc
  have hs := h.slots.urgent f hf
  -- the data slot is in the middle only if nothing is written
  have hd : s.dataOff = 0 ∨ s.urgentOff = 0 ∧ n = 0 := by
    rcases h.once with hu | hd
    · rcases Nat.eq_zero_or_pos s.dataOff with hd | hd
      · exact .inl hd
      · exact .inr ⟨hu, ho hu hd⟩
    · exact .inl hd
  simp only [Sender.move, hf, Option.elim_some] at hslots ⊢
  rcases hd with hd | ⟨hu, rfl⟩
  · have hopen : OpenAt s.made (s.put f s.urgentOff n).wire (progress f n) := by
      refine hs.write h.slots.bodies ?_ hle hn
      have := h.opened hcut
      rwa [Sender.cur, hf, hd, Option.bind_some,
        show (s.data.bind fun f => progress f 0) = none by cases s.data <;> rfl, Option.or_none] at this
    unfold Sender.flushUrgent at hslots ⊢
    split_ifs at hslots ⊢ with heq
    · rw [heq, progress_length] at hopen
      exact ⟨hslots, .inl rfl, h.past, (heq ▸ hopen.framed), fun _ => (heq ▸ hopen).at_cur (Sender.cur_none rfl hd)⟩
    · refine ⟨hslots, .inr hd, h.past, hopen.framed, fun _ => hopen.at_cur ?_⟩
      simp only [Sender.cur, Sender.put, hf, hd, Option.bind_some]
      cases s.data <;> simp
  · have hlen : 0 ≠ f.body.length := fun h0 => by have := hs.lt; omega
    have hsame : s.flushUrgent f 0 = s := by
      have hput : s.put f s.urgentOff 0 = s := by simp [Sender.put]
      rw [Sender.flushUrgent, if_neg hlen, hput, ← hu]
    rw [hsame]
    exact h

theorem Ordered.flushData (h : Ordered s) {n : ℕ} (hc : s.can (.flushData n)) : Ordered (s.move (.flushData n)) := by
  have hslots := h.slots.move hc
  obtain ⟨hp, hcut, hu, f, hf, hle, hn⟩ := hc
  have hs := h.slots.data f hf
  have hu0 := h.slots.urgent_off hu
  have hopen : OpenAt s.made (s.put f s.dataOff n).wire (progress f n) := by
    refine hs.write h.slots.bodies ?_ hle hn
    have := h.opened hcut
    rwa [Sender.cur, hu, hf, Option.bind_none, Option.none_or, Option.bind_some] at this
  simp only [Sender.move, hf, Option.elim_some] at hslots ⊢
  unfold Sender.flushData at hslots ⊢
  split_ifs at hslots ⊢ with heq
  · rw [heq, progress_length] at hopen
    exact ⟨hslots, .inl hu0, h.past, (heq ▸ hopen.framed), fun _ => (heq ▸ hopen).at_cur (Sender.cur_none hu0 rfl)⟩
  · refine ⟨hslots, .inl hu0, h.past, hopen.framed, fun _ => hopen.at_cur ?_⟩
    simp [Sender.cur, Sender.put, hf, hu]

/-- **A move that starts no packet inside another one keeps the streams in order.** -/
theorem Ordered.move (h : Ordered s) {m : Move α μ} (hc : s.can m) (ho : s.orderly m) : Ordered (s.move m) := by
  have hslots := h.slots.move hc
  cases m with
  | attach k => exact ⟨hslots, h.once, h.past, h.wire, h.opened⟩
  | detach => exact .detach h.slots h.past h.wire
  | farewell body n =>
    have hw := (h.write_fresh hc.2.1 hc.2.2 ho).1
    exact .detach (h.slots.make_put hc.2.1 hc.1 n) (fun w hw => (h.past w hw).mono (mem_make s body)) hw
  | flushUrgent n => exact h.flushUrgent hc ho
  | flushData n => exact h.flushData hc
  | reply body =>
    have hu0 := h.slots.urgent_off hc.2.1
    refine ⟨hslots, .inl rfl, fun w hw => (h.past w hw).mono (mem_make s body), h.wire.mono (mem_make s body),
      fun hcut => ?_⟩
    have : Sender.cur (s.move (.reply body)) = s.cur := by simp [Sender.cur, Sender.move, Sender.make, hc.2.1]
    rw [this]
    exact (h.opened hcut).mono (mem_make s body)
  | load m body =>
    refine ⟨hslots, .inr rfl, fun w hw => (h.past w hw).mono (mem_make s body), h.wire.mono (mem_make s body),
      fun hcut => ?_⟩
    have : Sender.cur (s.move (.load m body)) = s.cur := by simp [Sender.cur, Sender.move, Sender.make, hc.2.1]
    rw [this]
    exact (h.opened hcut).mono (mem_make s body)
  | drain m body n =>
    obtain ⟨hp, hd, hu, hb, hn⟩ := hc
    obtain ⟨hframed, hopen⟩ := h.write_fresh hb hn ho
    have hu0 := h.slots.urgent_off hu
    have hd0 := h.slots.data_off hd
    refine ⟨hslots, .inl hu0, fun w hw => (h.past w hw).mono (mem_make s body), hframed, fun hcut => ?_⟩
    simp only [Sender.move, Sender.drain, Bool.or_eq_false_iff, Bool.and_eq_false_iff, decide_eq_false_iff_not] at hcut
    have hm : ¬ s.mid := by simp [Sender.mid, hu0, hd0, hcut.1]
    have hdone : progress (s.fresh body) n = none := by
      rcases hcut.2 with h0 | hall
      · rw [show n = 0 by omega]; rfl
      · rw [show n = (s.fresh body).body.length by simpa [Sender.fresh] using hall]; exact progress_length _
    rw [Sender.cur_none (s := s.move (.drain m body n)) hu0 hd0, ← hdone]
    exact hopen hm

/-- **Streams stay in order.** -/
theorem Moves.ordered (h : Moves Sender.orderly s t) (hs : Ordered s) : Ordered t :=
  h.invariant (fun _ _ hp hc ho => hp.move hc ho) hs

/-! ## What became of every packet made for a message -/

/-- packet `f` is on the stream its fate names, in full or in part, and on no other one -/
structure Settled (s : Sender α μ) (f : Packet α) (a : Fate) : Prop where
  le : a.stream ≤ s.past.length
  parts : ∃ n ≤ f.body.length, (a.whole = true ↔ n = f.body.length) ∧
    ∀ (j : ℕ) (w : Log α), s.logs[j]? = some w → part f.id w = if j = a.stream then f.body.take n else []

structure Accounted (s : Sender α μ) : Prop where
  slots : Slots s
  mem : ∀ e ∈ s.sent, e.2 ∈ s.made
  nodup : (s.sent.map fun e => e.2.id).Nodup
  urgent : ∀ f, s.urgent = some f → f.id ∉ s.sent.map fun e => e.2.id
  waiting : ∀ f, s.data = some f → ∃ m, s.sent[s.fates.length]? = some (m, f) ∧ s.sent.length = s.fates.length + 1
  idle : s.data = none → s.sent.length = s.fates.length
  settled : ∀ (i : ℕ) (e : μ × Packet α) (a : Fate), s.sent[i]? = some e → s.fates[i]? = some a → Settled s e.2 a

theorem Settled.same {f : Packet α} {a : Fate} (h : Settled s f a) (hp : t.past = s.past) (hw : t.wire = s.wire) :
    Settled t f a :=
  ⟨hp ▸ h.le, by simpa only [Sender.logs, hp, hw] using h.parts⟩

theorem logs_cases {j : ℕ} {w : Log α} (h : s.logs[j]? = some w) :
    j < s.past.length ∧ s.past[j]? = some w ∨ j = s.past.length ∧ w = s.wire := by
  unfold Sender.logs at h
  rcases lt_or_ge j s.past.length with hj | hj
  · exact .inl ⟨hj, by rwa [List.getElem?_append_left hj] at h⟩
  · rw [List.getElem?_append_right hj, List.getElem?_singleton] at h
    split_ifs at h with h0
    exact .inr ⟨by omega, (Option.some.inj h).symm⟩

/-- another packet is written -/
theorem Settled.put {f g : Packet α} {a : Fate} (h : Settled s f a) (hne : f.id ≠ g.id) (x y : ℕ) :
    Settled (s.put g x y) f a := by
  obtain ⟨n, hn, hwhole, hparts⟩ := h.parts
  refine ⟨h.le, n, hn, hwhole, fun j w hw => ?_⟩
  rcases logs_cases hw with ⟨hj, hp⟩ | ⟨hj, rfl⟩
  · exact hparts j w ((List.getElem?_append_left hj).trans hp)
  · have hwire := hparts j s.wire (by rw [hj]; exact List.getElem?_concat_length)
    rw [Sender.put, part_append, part_piece_ne hne, List.append_nil]
    exact hwire

theorem Settled.detach {f : Packet α} {a : Fate} (h : Settled s f a) : Settled s.detach f a := by
  obtain ⟨n, hn, hwhole, hparts⟩ := h.parts
  have hlen : s.detach.past.length = s.past.length + 1 := List.length_append
  have hle := h.le
  refine ⟨by omega, n, hn, hwhole, fun j w hw => ?_⟩
  rcases logs_cases hw with ⟨-, hp⟩ | ⟨hj, rfl⟩
  · exact hparts j w hp
  · rw [if_neg (by omega)]; rfl

/-- what a slot says of its packet is what a fate says -/
theorem Slot.settled {f : Packet α} {off : ℕ} (h : Slot s f off) : Settled s f ⟨s.past.length, false⟩ := by
  refine ⟨le_rfl, off, h.lt.le, ⟨nofun, fun he => absurd he h.lt.ne⟩, fun j w hw => ?_⟩
  rcases logs_cases hw with ⟨hj, hp⟩ | ⟨hj, rfl⟩
  · rw [if_neg (by simpa using hj.ne), h.past w (List.mem_of_getElem? hp)]
  · rw [if_pos hj, h.wire]

/-- a packet is written up to `n` and leaves its slot -/
theorem Slot.finish {f : Packet α} {off n : ℕ} (h : Slot s f off) (hle : off ≤ n) (hn : n ≤ f.body.length) :
    Settled (s.put f off n) f ⟨s.past.length, n = f.body.length⟩ := by
  refine ⟨le_rfl, n, hn, by simp, fun j w hw => ?_⟩
  rcases logs_cases hw with ⟨hj, hp⟩ | ⟨hj, rfl⟩
  · rw [if_neg (by simpa [Sender.put] using hj.ne), h.past w (List.mem_of_getElem? hp)]
  · rw [if_pos (show j = s.past.length from hj), Sender.put, part_append, part_piece, h.wire, ← List.take_add, Nat.add_sub_cancel' hle]

theorem Accounted.id_ne (h : Accounted s) {i j : ℕ} {e e' : μ × Packet α} (hi : s.sent[i]? = some e)
    (hj : s.sent[j]? = some e') (hne : i ≠ j) : e.2.id ≠ e'.2.id := by
  intro heq
  have hil := (List.getElem?_eq_some_iff.1 hi).1
  exact hne ((List.getElem?_inj (by simpa using hil) h.nodup).1 (by simp [hi, hj, heq]))

theorem Accounted.fates_le (h : Accounted s) : s.fates.length ≤ s.sent.length := by
  cases hd : s.data with
  | none => exact (h.idle hd).ge
  | some f =>
    obtain ⟨m, -, hlen⟩ := h.waiting f hd
    omega

theorem Accounted.fresh_id (h : Accounted s) (body : List α) : (s.fresh body).id ∉ s.sent.map fun e => e.2.id := by
  intro hm
  obtain ⟨e, he, hid⟩ := List.mem_map.1 hm
  exact h.slots.fresh_ne body (h.mem e he) hid

/-- a packet that is not one of a message is written -/
theorem Accounted.put_other (h : Accounted s) {g : Packet α} (hg : g.id ∉ s.sent.map fun e => e.2.id) {x y : ℕ}
    (hs : Slots (s.put g x y)) : Accounted (s.put g x y) where
  slots := hs
  mem := h.mem
  nodup := h.nodup
  urgent := h.urgent
  waiting := h.waiting
  idle := h.idle
  settled i e a he ha := (h.settled i e a he ha).put
    (fun hid => hg (List.mem_map.2 ⟨e, List.mem_of_getElem? he, hid⟩)) x y

theorem Accounted.make (h : Accounted s) {body : List α} (hb : body ≠ []) : Accounted (s.make body) where
  slots := h.slots.make hb
  mem e he := List.mem_append_left _ (h.mem e he)
  nodup := h.nodup
  urgent := h.urgent
  waiting := h.waiting
  idle := h.idle
  settled i e a he ha := (h.settled i e a he ha).same rfl rfl

theorem Accounted.detach (h : Accounted s) : Accounted s.detach where
  slots := h.slots.detach
  mem := h.mem
  nodup := h.nodup
  urgent f hf := nomatch hf
  waiting f hf := nomatch hf
  idle _ := by
    cases hd : s.data with
    | none => simpa [Sender.detach, hd] using h.idle hd
    | some f =>
      obtain ⟨m, -, hlen⟩ := h.waiting f hd
      simpa [Sender.detach, hd] using hlen
  settled i e a he ha := by
    cases hd : s.data with
    | none =>
      simp only [Sender.detach, hd, Option.isSome_none, Bool.false_eq_true, if_false] at ha
      exact (h.settled i e a he ha).detach
    | some f =>
      obtain ⟨m, hm, hlen⟩ := h.waiting f hd
      simp only [Sender.detach, hd, Option.isSome_some, if_true] at ha
      rcases lt_or_ge i s.fates.length with hi | hi
      · exact (h.settled i e a he (by rwa [List.getElem?_append_left hi] at ha)).detach
      · rw [List.getElem?_append_right hi, List.getElem?_singleton] at ha
        split_ifs at ha with h0
        obtain rfl := Option.some.inj ha
        obtain rfl : i = s.fates.length := by omega
        obtain rfl := Option.some.inj (he.symm.trans hm)
        exact (h.slots.data f hd).settled.detach

theorem Accounted.flushUrgent (h : Accounted s) {n : ℕ} (hc : s.can (.flushUrgent n)) :
    Accounted (s.move (.flushUrgent n)) := by
  have hslots := h.slots.move hc
  obtain ⟨hp, hcut, f, hf, hle, hn⟩ := hc
  have hne := h.urgent f hf
  have hsettled : ∀ (i : ℕ) (e : μ × Packet α) (a : Fate), s.sent[i]? = some e → s.fates[i]? = some a →
      Settled (s.put f s.urgentOff n) e.2 a := fun i e a he ha => (h.settled i e a he ha).put
    (fun hid => hne (List.mem_map.2 ⟨e, List.mem_of_getElem? he, hid⟩)) _ _
  simp only [Sender.move, hf, Option.elim_some, Sender.flushUrgent] at hslots ⊢
  split_ifs at hslots ⊢
  · exact ⟨hslots, h.mem, h.nodup, nofun, h.waiting, h.idle, fun i e a he ha => (hsettled i e a he ha).same rfl rfl⟩
  · exact ⟨hslots, h.mem, h.nodup, h.urgent, h.waiting, h.idle, fun i e a he ha => (hsettled i e a he ha).same rfl rfl⟩

theorem Accounted.flushData (h : Accounted s) {n : ℕ} (hc : s.can (.flushData n)) :
    Accounted (s.move (.flushData n)) := by
  have hslots := h.slots.move hc
  obtain ⟨hp, hcut, hu, f, hf, hle, hn⟩ := hc
  obtain ⟨m, hm, hlen⟩ := h.waiting f hf
  have hs := h.slots.data f hf
  have hsettled : ∀ (i : ℕ) (e : μ × Packet α) (a : Fate), s.sent[i]? = some e → s.fates[i]? = some a →
      Settled (s.put f s.dataOff n) e.2 a := fun i e a he ha => (h.settled i e a he ha).put
    (h.id_ne he hm (List.getElem?_eq_some_iff.1 ha).1.ne) _ _
  simp only [Sender.move, hf, Option.elim_some, Sender.flushData] at hslots ⊢
  split_ifs at hslots ⊢ with heq
  · refine ⟨hslots, h.mem, h.nodup, h.urgent, nofun, fun _ => by simpa [Sender.put] using hlen,
      fun i e a he ha => ?_⟩
    rcases lt_or_ge i s.fates.length with hi | hi
    · exact (hsettled i e a he (by rwa [List.getElem?_append_left hi] at ha)).same rfl rfl
    · rw [List.getElem?_append_right hi, List.getElem?_singleton] at ha
      split_ifs at ha with h0
      obtain rfl := Option.some.inj ha
      obtain rfl : i = s.fates.length := by omega
      obtain rfl := Option.some.inj (he.symm.trans hm)
      have hfin := hs.finish hle hn
      simp only [heq, decide_true] at hfin
      exact (heq ▸ hfin).same rfl rfl
  · refine ⟨hslots, h.mem, h.nodup, h.urgent, fun g hg => ?_, fun hnone => ?_, fun i e a he ha =>
      (hsettled i e a he ha).same rfl rfl⟩
    · exact h.waiting g hg
    · exact absurd (hf.symm.trans hnone) (by simp)

/-- a packet of a message is added -/
theorem Accounted.nodup_snoc (h : Accounted s) (m : μ) (body : List α) :
    ((s.sent ++ [(m, s.fresh body)]).map fun e => e.2.id).Nodup := by
  rw [List.map_append, List.nodup_append]
  refine ⟨h.nodup, by simp, fun i hi j hj hij => ?_⟩
  simp only [List.map_cons, List.map_nil, List.mem_singleton] at hj
  exact h.fresh_id body (hj ▸ hij ▸ hi)

theorem Accounted.mem_snoc (h : Accounted s) (m : μ) (body : List α) :
    ∀ e ∈ s.sent ++ [(m, s.fresh body)], e.2 ∈ (s.make body).made := by
  intro e he
  rcases List.mem_append.1 he with he | he
  · exact List.mem_append_left _ (h.mem e he)
  · rw [List.mem_singleton.1 he]; simp [Sender.make]

theorem Accounted.urgent_snoc (h : Accounted s) (m : μ) (body : List α) (f : Packet α) (hf : s.urgent = some f) :
    f.id ∉ (s.sent ++ [(m, s.fresh body)]).map fun e => e.2.id := by
  rw [List.map_append, List.mem_append]
  rintro (hm | hm)
  · exact h.urgent f hf hm
  · exact h.slots.fresh_ne body (h.slots.urgent f hf).mem (by simpa using hm)

theorem Accounted.move (h : Accounted s) {m : Move α μ} (hc : s.can m) : Accounted (s.move m) := by
  have hslots := h.slots.move hc
  cases m with
  | attach k => exact ⟨hslots, h.mem, h.nodup, h.urgent, h.waiting, h.idle, fun i e a he ha =>
      (h.settled i e a he ha).same rfl rfl⟩
  | detach => exact h.detach
  | farewell body n =>
    exact ((h.make hc.2.1).put_other (h.fresh_id body) (h.slots.make_put hc.2.1 hc.1 n)).detach
  | flushUrgent n => exact h.flushUrgent hc
  | flushData n => exact h.flushData hc
  | reply body =>
    have hm := h.make hc.2.2
    refine ⟨hslots, hm.mem, h.nodup, fun f hf => ?_, h.waiting, h.idle, fun i e a he ha =>
      (hm.settled i e a he ha).same rfl rfl⟩
    obtain rfl := Option.some.inj hf
    exact h.fresh_id body
  | load m body =>
    have hlen := h.idle hc.2.1
    refine ⟨hslots, h.mem_snoc m body, h.nodup_snoc m body, h.urgent_snoc m body, fun f hf => ?_, nofun,
      fun i e a he ha => ?_⟩
    · obtain rfl := Option.some.inj hf
      refine ⟨m, ?_, by simpa [Sender.move, Sender.make] using hlen⟩
      simp only [Sender.move, Sender.make, ← hlen]
      exact List.getElem?_concat_length
    · have hi := (List.getElem?_eq_some_iff.1 ha).1
      have he' : s.sent[i]? = some e := by
        simp only [Sender.move, Sender.make] at he hi
        rwa [List.getElem?_append_left (by omega)] at he
      exact (h.settled i e a he' ha).same rfl rfl
  | drain m body n =>
    obtain ⟨hp, hd, hu, hb, hn⟩ := hc
    have hlen := h.idle hd
    have hs := h.slots.fresh_slot hb
    have hput := (h.make hb).put_other (h.fresh_id body) (h.slots.make_put hb hp n)
    refine ⟨hslots, h.mem_snoc m body, h.nodup_snoc m body, h.urgent_snoc m body, fun f hf => ?_, fun _ => ?_,
      fun i e a he ha => ?_⟩
    · exact absurd (hf.symm.trans hd) (by simp)
    · simpa [Sender.move, Sender.drain, Sender.make, Sender.put] using hlen
    · simp only [Sender.move, Sender.drain, Sender.make, Sender.put] at he ha
      rcases lt_or_ge i s.fates.length with hi | hi
      · rw [List.getElem?_append_left (by omega)] at he
        rw [List.getElem?_append_left hi] at ha
        exact (hput.settled i e a he ha).same rfl rfl
      · rw [List.getElem?_append_right hi, List.getElem?_singleton] at ha
        split_ifs at ha with h0
        obtain rfl := Option.some.inj ha
        rw [List.getElem?_append_right (by omega), List.getElem?_singleton, if_pos (by omega)] at he
        obtain rfl := Option.some.inj he
        exact (hs.finish (Nat.zero_le n) hn).same rfl rfl

/-- **Every packet made for a message is accounted for in every run.** -/
theorem Moves.accounted (h : Moves Q s t) (hs : Accounted s) : Accounted t := h.invariant (fun _ _ hp hc _ => hp.move hc) hs

/-! ## What the end of a stream costs -/

/-- the streams that hold a packet of a message only in part, once for each such packet -/
def Sender.drops (s : Sender α μ) : List ℕ := (s.fates.filter fun a => !a.whole).map Fate.stream

structure Spared (s : Sender α μ) : Prop where
  nodup : s.drops.Nodup
  lt : ∀ k ∈ s.drops, k < s.past.length

/-- every move but the one that tries a packet once and gives it up -/
def undrained (_ : Sender α μ) : Move α μ → Prop
  | .drain _ _ _ => False
  | _ => True

theorem Spared.detach (h : Spared s) : Spared s.detach := by
  have hlen : s.detach.past.length = s.past.length + 1 := List.length_append
  cases hd : s.data with
  | none =>
    have hdrops : s.detach.drops = s.drops := by simp [Sender.drops, Sender.detach, hd]
    exact ⟨hdrops ▸ h.nodup, fun k hk => by have := h.lt k (hdrops ▸ hk); omega⟩
  | some f =>
    have hdrops : s.detach.drops = s.drops ++ [s.past.length] := by simp [Sender.drops, Sender.detach, hd]
    refine ⟨?_, fun k hk => ?_⟩
    · rw [hdrops, List.nodup_append]
      refine ⟨h.nodup, by simp, fun i hi j hj hij => ?_⟩
      have := h.lt i hi
      simp only [List.mem_singleton] at hj
      omega
    · rw [hdrops] at hk
      rcases List.mem_append.1 hk with hk | hk
      · have := h.lt k hk; omega
      · rw [List.mem_singleton.1 hk]; omega

theorem Spared.same (h : Spared s) (hd : t.drops = s.drops) (hp : t.past = s.past) : Spared t :=
  ⟨hd ▸ h.nodup, hd ▸ hp ▸ h.lt⟩

theorem Spared.move (h : Spared s) {m : Move α μ} (hc : s.can m) (hq : undrained s m) : Spared (s.move m) := by
  cases m with
  | attach k => exact h.same rfl rfl
  | detach => exact h.detach
  | farewell body n =>
    have h' : Spared ((s.make body).put (s.fresh body) 0 n) := h.same rfl rfl
    exact h'.detach
  | flushUrgent n =>
    obtain ⟨-, -, f, hf, -⟩ := hc
    simp only [Sender.move, hf, Option.elim_some, Sender.flushUrgent]
    split_ifs <;> exact h.same rfl rfl
  | flushData n =>
    obtain ⟨-, -, -, f, hf, -⟩ := hc
    simp only [Sender.move, hf, Option.elim_some, Sender.flushData]
    split_ifs
    · exact h.same (by simp [Sender.drops]) rfl
    · exact h.same rfl rfl
  | reply body => exact h.same rfl rfl
  | load m body => exact h.same rfl rfl
  | drain m body n => exact hq.elim

/-- **The end of a stream costs at most one packet.** -/
theorem Moves.spared (h : Moves undrained s t) (hs : Spared s) : Spared t :=
  h.invariant (fun _ _ hp hc hq => hp.move hc hq) hs

/-! ## The data slot is not overwritten -/

/-- every move but the one that fills the data slot -/
def unloaded (_ : Sender α μ) : Move α μ → Prop
  | .load _ _ => False
  | _ => True

theorem Sender.move_data {f : Packet α} (hs : s.data = some f ∨ s.data = none) {m : Move α μ} (hq : unloaded s m) :
    (s.move m).data = some f ∨ (s.move m).data = none := by
  cases m with
  | attach k | reply body | drain m body n => exact hs
  | detach | farewell body n => exact .inr rfl
  | flushUrgent n =>
    cases hu : s.urgent with
    | none => simpa only [Sender.move, hu, Option.elim_none] using hs
    | some g => simp only [Sender.move, hu, Option.elim_some, Sender.flushUrgent]; split_ifs <;> exact hs
  | flushData n =>
    cases hd : s.data with
    | none => exact .inr (by simp only [Sender.move, hd, Option.elim_none])
    | some g =>
      simp only [Sender.move, hd, Option.elim_some, Sender.flushData]
      split_ifs
      · exact .inr rfl
      · exact hs
  | load m body => exact hq.elim

/-- **What waits in the data slot stays there until it is gone.** -/
theorem Moves.data_kept {f : Packet α} (h : Moves unloaded s t) (hs : s.data = some f) :
    t.data = some f ∨ t.data = none :=
  h.invariant (P := fun u => u.data = some f ∨ u.data = none) (fun _ _ hp _ hq => Sender.move_data hp hq) (.inl hs)

end WsServer.Packets
