/-
The documented rules for the frames of one peer, as one pass over its whole byte stream.

This is what a receive loop is for, stated without its buffers: read the next frame, join the fragments of the open
message, answer with what the rules say. A message is judged as a whole (`Utf8.Viable`, `Utf8.WellFormed` of the bytes
joined so far), not by a validator's state, and the stream is there at once, not in pieces.

- `Limits`: the mask the peer has to set or to leave out, and the two size limits.
- `readFrame`, `judge`: what the next bytes are, and what a frame means for the open message.
- `pass`: messages and pings in order, and how the stream ends: still open, in a violation and its code, or in a CLOSE.
- `pass_append`: a pass over more bytes goes on where the pass over the first ones stopped. This is what makes a loop
  that is fed piece by piece comparable with one pass.
-/
import Mathlib
import WsServer.Proto.Ws

namespace WsServer.Rules

open Ws

structure Limits where
  masked : Bool
  maxFrame : ℕ
  maxMessage : ℕ

/-- what the next bytes are: not a frame yet, a violation, or a frame with its payload unmasked -/
inductive Read where
  | more
  | bad (code : ℕ)
  | frame (fin : Bool) (op : ℕ) (payload rest : Bytes)

/-- the payload behind a header, as the peer meant it -/
def payloadOf (h : WsFrameHdr) (bs : Bytes) : Bytes :=
  let raw := (bs.drop h.headerLen).take h.payloadLen
  if h.masked then wsUnmask raw h.maskKey else raw

def readFrame (lim : Limits) (bs : Bytes) : Read :=
  match wsParseHeader bs with
  | .needMore => .more
  | .errProto => .bad 1002
  | .ok h =>
    if h.masked ≠ lim.masked then .bad 1002
    else if lim.maxFrame < h.payloadLen then .bad 1009
    else if bs.length < h.headerLen + h.payloadLen then .more
    else .frame h.fin h.opcode (payloadOf h bs) (bs.drop (h.headerLen + h.payloadLen))

/-- the open message: its opcode and the bytes joined so far -/
abbrev Assembly := Option (ℕ × Bytes)

inductive Event where
  | message (op : ℕ) (data : Bytes)
  | ping (payload : Bytes)
deriving DecidableEq, Repr

inductive Stop where
  | violation (code : ℕ)
  | closed (payload : Bytes)
deriving DecidableEq, Repr

inductive Judgement where
  | stop (s : Stop)
  | go (asm : Assembly) (events : List Event)

/-- the message a data frame belongs to: a continuation needs one, any other opcode opens one -/
def belongsTo (asm : Assembly) (op : ℕ) : Assembly :=
  if op = opCont then asm else if asm.isSome then none else some (op, [])

/-- a data frame of the message `op0`, `sofar` -/
def judgeFragment (lim : Limits) (op0 : ℕ) (sofar : Bytes) (fin : Bool) (payload : Bytes) : Judgement :=
  if lim.maxMessage < sofar.length + payload.length then .stop (.violation 1009)
  else if op0 = opText ∧ ¬ Utf8.Viable (sofar ++ payload) then .stop (.violation 1007)
  else if ¬ fin then .go (some (op0, sofar ++ payload)) []
  else if op0 = opText ∧ ¬ Utf8.WellFormed (sofar ++ payload) then .stop (.violation 1007)
  else .go none [.message op0 (sofar ++ payload)]

def judge (lim : Limits) (asm : Assembly) (fin : Bool) (op : ℕ) (payload : Bytes) : Judgement :=
  if op = opPing then .go asm [.ping payload]
  else if op = opPong then .go asm []
  else if op = opClose then .stop (.closed payload)
  else
    match belongsTo asm op with
    | none => .stop (.violation 1002)
    | some (op0, sofar) => judgeFragment lim op0 sofar fin payload

/-- the next move of the pass -/
inductive Move where
  | more
  | stop (s : Stop)
  | go (asm : Assembly) (events : List Event) (rest : Bytes)

/-- the judgement of a frame with `rest` behind it -/
def Judgement.move (rest : Bytes) : Judgement → Move
  | .stop s => .stop s
  | .go asm events => .go asm events rest

def move (lim : Limits) (asm : Assembly) (bs : Bytes) : Move :=
  match readFrame lim bs with
  | .more => .more
  | .bad code => .stop (.violation code)
  | .frame fin op payload rest => (judge lim asm fin op payload).move rest

structure Pass where
  events : List Event
  stop : Option Stop
  asm : Assembly
  rest : Bytes

def Pass.after (events : List Event) (p : Pass) : Pass := { p with events := events ++ p.events }

/-! ## Reading consumes, and does not look ahead -/

theorem readFrame_rest {lim : Limits} {bs : Bytes} {fin : Bool} {op : ℕ} {payload rest : Bytes}
    (h : readFrame lim bs = .frame fin op payload rest) :
    ∃ n, 2 ≤ n ∧ n ≤ bs.length ∧ rest = bs.drop n ∧ IsOpcode op := by
  unfold readFrame at h
  split at h
  · cases h
  · cases h
  · rename_i hd hp
    have hg := wsParseHeader_good hp
    split_ifs at h with h1 h2 h3
    simp only [Read.frame.injEq] at h
    obtain ⟨-, rfl, -, rfl⟩ := h
    exact ⟨_, by have := hg.two_le; omega, by omega, rfl, hg.opcode⟩

theorem move_go_length {lim : Limits} {asm asm' : Assembly} {bs rest : Bytes} {events : List Event}
    (h : move lim asm bs = .go asm' events rest) : rest.length < bs.length := by
  unfold move at h
  split at h
  · cases h
  · cases h
  · rename_i fin op payload rest' hr
    obtain ⟨n, hn, hle, hrest, -⟩ := readFrame_rest hr
    cases hj : judge lim asm fin op payload with
    | stop s => rw [hj] at h; cases h
    | go asm'' ev =>
      rw [hj] at h
      simp only [Judgement.move, Move.go.injEq] at h
      obtain ⟨-, -, rfl⟩ := h
      rw [hrest, List.length_drop]
      omega

/-- **The pass.** -/
def pass (lim : Limits) (asm : Assembly) (bs : Bytes) : Pass :=
  match h : move lim asm bs with
  | .more => ⟨[], none, asm, bs⟩
  | .stop s => ⟨[], some s, asm, bs⟩
  | .go asm' events rest =>
    have := move_go_length h
    (pass lim asm' rest).after events
termination_by bs.length

variable {lim : Limits} {asm asm' : Assembly} {bs rest : Bytes}

theorem pass_more (h : move lim asm bs = .more) : pass lim asm bs = ⟨[], none, asm, bs⟩ := by
  rw [pass]; split <;> simp_all

theorem pass_stop {s : Stop} (h : move lim asm bs = .stop s) : pass lim asm bs = ⟨[], some s, asm, bs⟩ := by
  rw [pass]; split <;> simp_all

theorem pass_go {events : List Event} (h : move lim asm bs = .go asm' events rest) :
    pass lim asm bs = (pass lim asm' rest).after events := by
  rw [pass]; split <;> simp_all

/-- a frame that was read is read in the same way when more bytes follow -/
theorem readFrame_append (t : Bytes) (h : readFrame lim bs ≠ .more) :
    readFrame lim (bs ++ t) = match readFrame lim bs with
      | .frame fin op payload rest => .frame fin op payload (rest ++ t)
      | r => r := by
  unfold readFrame at h ⊢
  have hnm : wsParseHeader bs ≠ .needMore := by
    intro hp; rw [hp] at h; exact h rfl
  rw [wsParseHeader_append t hnm]
  cases hp : wsParseHeader bs with
  | needMore => exact absurd hp hnm
  | errProto => rfl
  | ok hd =>
    rw [hp] at h
    dsimp only at h ⊢
    by_cases h1 : hd.masked ≠ lim.masked
    · rw [if_pos h1, if_pos h1]
    by_cases h2 : lim.maxFrame < hd.payloadLen
    · rw [if_neg h1, if_pos h2, if_neg h1, if_pos h2]
    by_cases h3 : bs.length < hd.headerLen + hd.payloadLen
    · rw [if_neg h1, if_neg h2, if_pos h3] at h; exact absurd rfl h
    have h3' : ¬ (bs ++ t).length < hd.headerLen + hd.payloadLen := by simp; omega
    rw [if_neg h1, if_neg h2, if_neg h3, if_neg h1, if_neg h2, if_neg h3',
      List.drop_append_of_le_length (by omega), payloadOf, payloadOf, take_drop_append (by omega)]

theorem move_append (t : Bytes) (h : move lim asm bs ≠ .more) :
    move lim asm (bs ++ t) = match move lim asm bs with
      | .go asm' events rest => .go asm' events (rest ++ t)
      | m => m := by
  have hr : readFrame lim bs ≠ .more := by
    intro hr; unfold move at h; rw [hr] at h; exact h rfl
  unfold move
  rw [readFrame_append t hr]
  cases hf : readFrame lim bs with
  | more => exact absurd hf hr
  | bad code => rfl
  | frame fin op payload rest =>
    dsimp only
    cases judge lim asm fin op payload <;> rfl

/-- what a pass becomes when more bytes follow: after a stop nothing more is read -/
def Pass.goOn (lim : Limits) (p : Pass) (t : Bytes) : Pass :=
  if p.stop.isSome then { p with rest := p.rest ++ t } else (pass lim p.asm (p.rest ++ t)).after p.events

theorem after_goOn (lim : Limits) (events : List Event) (p : Pass) (t : Bytes) :
    (p.after events).goOn lim t = (p.goOn lim t).after events := by
  unfold Pass.goOn Pass.after
  split_ifs <;> simp

/-- **A pass goes on where the pass over the first bytes ended.** -/
theorem pass_append (lim : Limits) (asm : Assembly) (bs t : Bytes) :
    pass lim asm (bs ++ t) = (pass lim asm bs).goOn lim t := by
  induction hn : bs.length using Nat.strong_induction_on generalizing asm bs with
  | _ n ih =>
    cases hm : move lim asm bs with
    | more => rw [pass_more hm]; rfl
    | stop s =>
      have hm' := move_append t (show move lim asm bs ≠ .more by rw [hm]; simp)
      rw [hm] at hm'
      rw [pass_stop hm', pass_stop hm]
      rfl
    | go asm' events rest =>
      have hm' := move_append t (show move lim asm bs ≠ .more by rw [hm]; simp)
      rw [hm] at hm'
      rw [pass_go hm', pass_go hm, ih rest.length (hn ▸ move_go_length hm) asm' rest rfl, after_goOn]

/-- what is left behind holds no frame the pass could take -/
theorem pass_rest_more (h : (pass lim asm bs).stop = none) :
    move lim (pass lim asm bs).asm (pass lim asm bs).rest = .more := by
  induction hn : bs.length using Nat.strong_induction_on generalizing asm bs with
  | _ n ih =>
    cases hm : move lim asm bs with
    | more => rw [pass_more hm]; exact hm
    | stop s => rw [pass_stop hm] at h; cases h
    | go asm' events rest =>
      rw [pass_go hm] at h ⊢
      exact ih rest.length (hn ▸ move_go_length hm) h rfl

/-! ## What the pass reports -/

/-- the messages of a pass -/
def messages (events : List Event) : List (ℕ × Bytes) :=
  events.filterMap fun e => match e with
    | .message op data => some (op, data)
    | .ping _ => none

/-- the payloads of its pings -/
def pings (events : List Event) : List Bytes :=
  events.filterMap fun e => match e with
    | .message _ _ => none
    | .ping payload => some payload

@[simp] theorem messages_append (xs ys : List Event) : messages (xs ++ ys) = messages xs ++ messages ys :=
  List.filterMap_append

@[simp] theorem pings_append (xs ys : List Event) : pings (xs ++ ys) = pings xs ++ pings ys :=
  List.filterMap_append

theorem judge_pings {fin : Bool} {op : ℕ} {payload : Bytes} {events : List Event}
    (h : judge lim asm fin op payload = .go asm' events) : ∀ p ∈ pings events, op = opPing ∧ p = payload := by
  unfold judge at h
  split_ifs at h with h1 h2 h3
  · simp only [Judgement.go.injEq] at h
    obtain ⟨-, rfl⟩ := h
    intro p hp
    exact ⟨h1, by simpa [pings] using hp⟩
  · simp only [Judgement.go.injEq] at h
    obtain ⟨-, rfl⟩ := h
    simp [pings]
  · split at h
    · cases h
    · unfold judgeFragment at h
      split_ifs at h <;> simp only [Judgement.go.injEq] at h <;> obtain ⟨-, rfl⟩ := h <;> simp [pings]

/-- a ping is as short as every control frame -/
theorem move_pings {events : List Event} (h : move lim asm bs = .go asm' events rest) :
    ∀ p ∈ pings events, p.length ≤ 125 := by
  unfold move readFrame at h
  split at h
  · cases h
  · cases h
  · rename_i fin op payload rest' hr
    split at hr
    · cases hr
    · cases hr
    · rename_i hd hp
      have hg := wsParseHeader_good hp
      split_ifs at hr with h1 h2 h3
      simp only [Read.frame.injEq] at hr
      obtain ⟨rfl, rfl, rfl, rfl⟩ := hr
      cases hj : judge lim asm hd.fin hd.opcode (payloadOf hd bs) with
      | stop s => rw [hj] at h; cases h
      | go asm'' ev =>
        rw [hj] at h
        simp only [Judgement.move, Move.go.injEq] at h
        obtain ⟨-, rfl, -⟩ := h
        intro p hpm
        obtain ⟨hop, rfl⟩ := judge_pings hj p hpm
        have h125 := (hg.control (by rw [hop]; decide)).2
        unfold payloadOf
        dsimp only
        split_ifs <;> simp <;> omega

theorem pass_pings (lim : Limits) (asm : Assembly) (bs : Bytes) :
    ∀ p ∈ pings (pass lim asm bs).events, p.length ≤ 125 := by
  induction hn : bs.length using Nat.strong_induction_on generalizing asm bs with
  | _ n ih =>
    cases hm : move lim asm bs with
    | more => rw [pass_more hm]; simp [pings]
    | stop s => rw [pass_stop hm]; simp [pings]
    | go asm' events rest =>
      rw [pass_go hm, Pass.after]
      intro p hp
      rw [pings_append, List.mem_append] at hp
      rcases hp with hp | hp
      · exact move_pings hm p hp
      · exact ih rest.length (hn ▸ move_go_length hm) asm' rest rfl p hp

/-- the status codes a peer may send -/
def AllowedCode (code : ℕ) : Prop :=
  (1000 ≤ code ∧ code ≤ 1003) ∨ (1007 ≤ code ∧ code ≤ 1011) ∨ (3000 ≤ code ∧ code ≤ 4999)

instance (code : ℕ) : Decidable (AllowedCode code) := by unfold AllowedCode; infer_instance

/-- the code a server answers a CLOSE with: 1000 to an empty one, 1002 to one byte or a forbidden code, 1007 to a reason
that is not UTF-8, its own code otherwise -/
def closeCode : Bytes → ℕ
  | [] => 1000
  | [_] => 1002
  | a :: b :: reason =>
    let code := a.toNat * 256 + b.toNat
    if ¬ AllowedCode code then 1002
    else if ¬ Utf8.WellFormed reason then 1007
    else code

/-- the code a server answers with at the end of a pass -/
def Stop.code : Stop → ℕ
  | .violation code => code
  | .closed payload => closeCode payload

theorem closeCode_allowed (payload : Bytes) : AllowedCode (closeCode payload) := by
  match payload with
  | [] => exact (by decide : AllowedCode 1000)
  | [_] => exact (by decide : AllowedCode 1002)
  | a :: b :: reason =>
    unfold closeCode
    dsimp only
    split_ifs with h1 h2
    · exact h1
    · decide
    · decide

theorem judge_stop {fin : Bool} {op : ℕ} {payload : Bytes} {st : Stop} (h : judge lim asm fin op payload = .stop st) :
    AllowedCode st.code := by
  unfold judge at h
  split_ifs at h with h1 h2 h3
  · obtain rfl := Judgement.stop.inj h
    exact closeCode_allowed payload
  · split at h
    · obtain rfl := Judgement.stop.inj h
      decide
    · unfold judgeFragment at h
      split_ifs at h <;> obtain rfl := Judgement.stop.inj h <;> decide

theorem readFrame_bad {code : ℕ} (h : readFrame lim bs = .bad code) : AllowedCode code := by
  unfold readFrame at h
  split at h
  · cases h
  · obtain rfl := Read.bad.inj h
    decide
  · split_ifs at h <;> obtain rfl := Read.bad.inj h <;> decide

/-- a pass stops with a code a peer may be sent -/
theorem move_stop {st : Stop} (h : move lim asm bs = .stop st) : AllowedCode st.code := by
  unfold move at h
  cases hr : readFrame lim bs with
  | more => rw [hr] at h; cases h
  | bad code =>
    rw [hr] at h
    obtain rfl := Move.stop.inj h
    exact readFrame_bad hr
  | frame fin op payload rest =>
    rw [hr] at h
    dsimp only at h
    cases hj : judge lim asm fin op payload with
    | go asm' events => rw [hj] at h; cases h
    | stop s =>
      rw [hj] at h
      obtain rfl := Move.stop.inj h
      exact judge_stop hj

theorem judge_closed {fin : Bool} {op : ℕ} {payload p : Bytes} (h : judge lim asm fin op payload = .stop (.closed p)) :
    op = opClose ∧ payload = p := by
  unfold judge at h
  split_ifs at h with h1 h2 h3
  · exact ⟨h3, Stop.closed.inj (Judgement.stop.inj h)⟩
  · split at h
    · cases h
    · unfold judgeFragment at h
      split_ifs at h <;> cases Judgement.stop.inj h

/-- a pass that ends in a CLOSE has read it -/
theorem move_closed {p : Bytes} (h : move lim asm bs = .stop (.closed p)) :
    ∃ fin rest, readFrame lim bs = .frame fin opClose p rest := by
  unfold move at h
  cases hr : readFrame lim bs with
  | more => rw [hr] at h; cases h
  | bad code => rw [hr] at h; cases h
  | frame fin op payload rest =>
    rw [hr] at h
    dsimp only at h
    cases hj : judge lim asm fin op payload with
    | go asm' events => rw [hj] at h; cases h
    | stop s =>
      rw [hj] at h
      obtain rfl := Move.stop.inj h
      obtain ⟨rfl, rfl⟩ := judge_closed hj
      exact ⟨fin, rest, rfl⟩

/-! ## The end of a session -/

/-- the opcodes of the frames said in a session: none is behind a CLOSE, a second CLOSE neither -/
def ClosesLast (ops : List ℕ) : Prop := opClose ∉ ops.dropLast

theorem closesLast_of_none {ops : List ℕ} (h : opClose ∉ ops) : ClosesLast ops :=
  fun hmem => h (List.mem_of_mem_dropLast hmem)

/-- one frame more, of any kind -/
theorem closesLast_snoc {ops : List ℕ} (h : opClose ∉ ops) (op : ℕ) : ClosesLast (ops ++ [op]) := by
  unfold ClosesLast
  rw [List.dropLast_concat]
  exact h

/-! ## Streams of frames -/

/-- a frame as a client sends it -/
structure ClientFrame where
  fin : Bool
  op : ℕ
  payload : Bytes
  key : Bytes
deriving DecidableEq, Repr

def ClientFrame.bytes (f : ClientFrame) : Bytes := maskedFrame f.fin f.op f.payload f.key

/-- valid on its own: a defined opcode, a four-byte key, the limits of control frames and of the configuration -/
structure ClientFrame.Valid (lim : Limits) (f : ClientFrame) : Prop where
  opcode : IsOpcode f.op
  key : f.key.length = 4
  len : f.payload.length ≤ lim.maxFrame
  len_lt : f.payload.length < 2 ^ 63
  control : ControlOk f.fin f.op f.payload.length

instance (op : ℕ) : Decidable (IsOpcode op) := by unfold IsOpcode; infer_instance

instance (fin : Bool) (op len : ℕ) : Decidable (ControlOk fin op len) := by unfold ControlOk; infer_instance

instance (lim : Limits) (f : ClientFrame) : Decidable (f.Valid lim) :=
  decidable_of_iff (IsOpcode f.op ∧ f.key.length = 4 ∧ f.payload.length ≤ lim.maxFrame ∧
      f.payload.length < 2 ^ 63 ∧ ControlOk f.fin f.op f.payload.length)
    ⟨fun ⟨h1, h2, h3, h4, h5⟩ => ⟨h1, h2, h3, h4, h5⟩, fun h => ⟨h.opcode, h.key, h.len, h.len_lt, h.control⟩⟩

/-- a stream the rules find no fault with; a CLOSE in it does not ask for 1009 itself -/
structure Legal (lim : Limits) (bs : Bytes) : Prop where
  noViolation : ∀ code, (pass lim none bs).stop ≠ some (.violation code)
  noBigClose : ∀ payload, (pass lim none bs).stop = some (.closed payload) → closeCode payload ≠ 1009

/-- what arrived so far of a legal stream is legal -/
theorem Legal.of_append {bs t : Bytes} (h : Legal lim (bs ++ t)) : Legal lim bs := by
  have hgo : ∀ st, (pass lim none bs).stop = some st → (pass lim none (bs ++ t)).stop = some st := by
    intro st hst
    rw [pass_append, Pass.goOn, if_pos (by rw [hst]; rfl)]
    exact hst
  exact ⟨fun code hc => h.noViolation code (hgo _ hc), fun payload hp => h.noBigClose payload (hgo _ hp)⟩

end WsServer.Rules
