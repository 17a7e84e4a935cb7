/-
What reaches a sink: whole frames, one after the other, as long as no frame is started inside another one.

`aggSysStep` is the aggregator thread among the others: a label is a step of the thread, or anything the other threads
and the network do to the shared part.

- `sink_frames`: in every run in which each step meets `WireOk`, the bytes sent to every sink are the beginning of
  whole frames put one after the other.
- `ping_splits_frame`: without the condition it fails. A PING that arrives while a data frame is half sent puts the
  PONG into the middle of that frame, because the control slot is flushed first whatever `pendingOff` is.
-/
import Mathlib
import WsServer.Agg.Steps
import WsServer.Core.Machine

namespace WsServer

open Ws Packets Machine

inductive AggAct where
  /-- one step of the thread -/
  | agg (e : AggEnv)
  /-- what the other threads and the network do to connections, queues and park list -/
  | others (conn : ℕ → Conn) (dataQueue ctrlQueue : Queue Msg) (park : List ℕ)

def aggSysStep (conf : ServerConfig) (s : AggSys) : AggAct → Option AggSys
  | .agg e => aggStep conf s e
  | .others conn dataQueue ctrlQueue park =>
    some { s with conn := conn, dataQueue := dataQueue, ctrlQueue := ctrlQueue, park := park }

variable {conf : ServerConfig} {s t : AggSys}

/-! ## What holds in every run -/

structure AggInv (s : AggSys) : Prop where
  accounted : Accounted s.sender
  at_pc : AtPc s
  frames : ∀ p ∈ s.made, IsFrame p.body
  messages : ∀ e ∈ s.encoded, IsFrameOf e.1 e.2.body

theorem AggInv.slots (h : AggInv s) : Slots s.sender := h.accounted.slots

theorem AggInv.start (conn : ℕ → Conn) (dataQueue ctrlQueue : Queue Msg) (park : List ℕ) :
    AggInv (AggSys.start conn dataQueue ctrlQueue park) where
  accounted := by
    refine ⟨⟨nofun, nofun, ?_, nofun, nofun, nofun, fun _ => rfl, fun _ => rfl, fun _ => ⟨rfl, rfl, rfl, rfl⟩⟩, nofun,
      List.nodup_nil, nofun, nofun, fun _ => rfl, nofun⟩
    intro w hw x hx
    rw [List.mem_singleton.1 hw] at hx
    cases hx
  at_pc := .free rfl rfl nofun
  frames := nofun
  messages := nofun

theorem IsFrameOf.isFrame {m : Msg} {body : Bytes} (h : IsFrameOf m body) : IsFrame body := by
  obtain ⟨seq, h⟩ := h
  exact ⟨_, _, h⟩

/-- the moves of a step make frames, and frames of messages -/
theorem StepMove.genuine {e : AggEnv} {u v : Sender UInt8 Msg} (h : Moves (StepMove s e) u v)
    (hf : (∀ p ∈ u.made, IsFrame p.body) ∧ ∀ x ∈ u.sent, IsFrameOf x.1 x.2.body) :
    (∀ p ∈ v.made, IsFrame p.body) ∧ ∀ x ∈ v.sent, IsFrameOf x.1 x.2.body := by
  constructor
  · refine h.made_forall (P := IsFrame) ?_ hf.1
    intro u m body hq hbody
    cases m with
    | farewell => obtain rfl := Option.some.inj hbody; exact hq.2.2.2
    | reply => obtain rfl := Option.some.inj hbody; exact hq
    | load => obtain rfl := Option.some.inj hbody; exact hq.2.isFrame
    | drain => obtain rfl := Option.some.inj hbody; exact hq.2.2.2.2.isFrame
    | _ => cases hbody
  refine h.invariant (P := fun u => ∀ x ∈ u.sent, IsFrameOf x.1 x.2.body) ?_ hf.2
  intro u m hsent hc hq
  have hsnoc : ∀ {m : Msg} {body : Bytes}, IsFrameOf m body → ∀ x ∈ u.sent ++ [(m, u.fresh body)],
      IsFrameOf x.1 x.2.body := by
    intro m body hb x hx
    rcases List.mem_append.1 hx with hx | hx
    · exact hsent x hx
    · rw [List.mem_singleton.1 hx]; exact hb
  cases m with
  | flushUrgent n =>
    obtain ⟨-, -, f, hf, -⟩ := hc
    simp only [Sender.move, hf, Option.elim_some, Sender.flushUrgent]
    split_ifs <;> exact hsent
  | flushData n =>
    obtain ⟨-, -, -, f, hf, -⟩ := hc
    simp only [Sender.move, hf, Option.elim_some, Sender.flushData]
    split_ifs <;> exact hsent
  | load m body => exact hsnoc hq.2
  | drain m body n => exact hsnoc hq.2.2.2.2
  | _ => exact hsent

theorem AggInv.step {e : AggEnv} (h : AggInv s) (hs : aggStep conf s e = some t) : AggInv t := by
  obtain ⟨hm, hpc⟩ := aggStep_moves h.slots h.at_pc hs
  obtain ⟨hf, hm'⟩ := StepMove.genuine hm ⟨h.frames, h.messages⟩
  exact ⟨hm.accounted h.accounted, hpc, hf, hm'⟩

/-- the other threads touch neither the slots nor the record -/
theorem AggInv.act {a : AggAct} (h : AggInv s) (hs : aggSysStep conf s a = some t) : AggInv t := by
  cases a with
  | agg e => exact h.step hs
  | others conn dq cq park =>
    simp only [aggSysStep, Option.some.injEq] at hs
    subst hs
    exact ⟨h.accounted, ⟨h.at_pc.pumped, h.at_pc.draining, h.at_pc.cut⟩, h.frames, h.messages⟩

/-! ## Frames on the wire -/

/-- no frame is started while another one is half sent, or the kernel takes no byte of it -/
def WireOk (s : AggSys) : AggAct → Prop
  | .agg e => startsFrame s e → s.sender.mid → Quiet e.sends
  | .others _ _ _ _ => True

instance (s : AggSys) : DecidablePred (WireOk s)
  | .agg e => inferInstanceAs (Decidable (startsFrame s e → s.sender.mid → Quiet e.sends))
  | .others _ _ _ _ => .isTrue trivial

/-- under `WireOk` the moves of a step start no frame inside another one -/
theorem StepMove.orderly {e : AggEnv} (hok : WireOk s (.agg e)) {u : Sender UInt8 Msg} {m : Move UInt8 Msg}
    (hc : u.can m) (hq : StepMove s e u m) : u.orderly m := by
  cases m with
  | farewell body n => exact fun hm => hq.2.2.1 (hok hq.1 (hq.2.1 hm))
  | flushUrgent n =>
    obtain ⟨hpc, rfl, hn⟩ := hq
    obtain ⟨hs, -, f, hf, -⟩ := hc
    intro hoff hd
    rw [hn (hok ?_ (.inl hd))]
    · exact hoff
    · simp only [startsFrame, hpc]
      exact ⟨hs, by rw [show s.agg.pendingCtrl = some f from hf]; rfl, hoff⟩
  | drain m body n =>
    obtain ⟨-, hstart, hm, rfl, -⟩ := hq
    exact fun hmid => sendFrom_quiet (hok hstart (hm hmid)) _ _
  | _ => trivial

theorem ordered_act {a : AggAct} (hi : AggInv s) (h : Ordered s.sender) (hok : WireOk s a)
    (hs : aggSysStep conf s a = some t) : Ordered t.sender := by
  cases a with
  | agg e =>
    have hm := (aggStep_moves hi.slots hi.at_pc hs).1
    exact (hm.mono fun _ _ hc hq => StepMove.orderly hok hc hq).ordered h
  | others conn dq cq park =>
    simp only [aggSysStep, Option.some.injEq] at hs
    subst hs
    exact h

/-- **Every sink is sent whole frames.** In every run of the thread among the others in which no step starts a frame
inside another one, the bytes each sink was sent are the beginning of whole frames put one after the other. -/
theorem sink_frames (conf : ServerConfig) (conn : ℕ → Conn) (dataQueue ctrlQueue : Queue Msg) (park : List ℕ)
    (s : AggSys) (h : Reach (aggSysStep conf) WireOk (AggSys.start conn dataQueue ctrlQueue park) s) :
    (∀ w ∈ s.logs, Framed s.made w) ∧ ∀ p ∈ s.made, IsFrame p.body := by
  have hinv : AggInv s ∧ Ordered s.sender := by
    refine h.invariant (P := fun s => AggInv s ∧ Ordered s.sender) ⟨.start conn dataQueue ctrlQueue park, ?_⟩
      fun s a t hi hok hs => ⟨hi.1.act hs, ordered_act hi.1 hi.2 hok hs⟩
    exact ⟨(AggInv.start conn dataQueue ctrlQueue park).slots, .inl rfl, nofun, .nil _, fun _ => OpenAt.nil _⟩
  exact ⟨hinv.2.logs, hinv.1.frames⟩

/-! ### A PING in the middle of a data frame -/

/-- sink 7 is handed over with the bytes of a PING in its socket; one message of three bytes waits -/
def pingStart : AggSys :=
  .start (fun c => { freshConn c with sock := ⟨[0x89, 0x81, 1, 2, 3, 4, 0x20], .open⟩ })
    ⟨[msgNewData 3 opBin ⟨0, 0⟩ [1, 2, 3]], false⟩ ⟨[msgNewSinkAdd 7], false⟩ []

/-- an `AggEnv` for steps that make no system call -/
def calm : AggEnv := ⟨[], [], .interrupted⟩

/-- the kernel takes two bytes of the frame, later the other three -/
def pieceRun : List AggAct :=
  List.replicate 6 (AggAct.agg calm) ++ [AggAct.agg ⟨[.sent 2, .again], [], .interrupted⟩] ++ List.replicate 5 (AggAct.agg calm) ++
    [AggAct.agg ⟨[.sent 100], [], .interrupted⟩]

/-- as before, but the sink's PING is read in between -/
def pingRun : List AggAct :=
  List.replicate 6 (AggAct.agg calm) ++ [AggAct.agg ⟨[.sent 2, .again], [], .interrupted⟩] ++ List.replicate 3 (AggAct.agg calm) ++
    [AggAct.agg ⟨[], [], .events [.conn 7 false true]⟩] ++ List.replicate 3 (AggAct.agg calm) ++
    [AggAct.agg ⟨[.sent 100], [], .interrupted⟩]

theorem sink_frames_piece : ∃ s, exec (aggSysStep smallConf) pingStart pieceRun = some s ∧
    s.wire.map Prod.snd = [0x82, 3, 1, 2, 3] ∧ (∀ w ∈ s.logs, Framed s.made w) ∧ ∀ p ∈ s.made, IsFrame p.body := by
  have hrun : (exec (aggSysStep smallConf) pingStart pieceRun).map (fun s => s.wire.map Prod.snd) =
      some [0x82, 3, 1, 2, 3] := by decide +kernel
  rw [Option.map_eq_some_iff] at hrun
  obtain ⟨s, hs, hw⟩ := hrun
  have hok : allOk (aggSysStep smallConf) WireOk pingStart pieceRun := by decide +kernel
  have hreach : Reach (aggSysStep smallConf) WireOk pingStart s := .of_exec hok hs
  exact ⟨s, hs, hw, sink_frames smallConf _ _ _ _ s hreach⟩

/-- **A PING splits a data frame.** The PONG stands behind the first two bytes of the data frame. -/
theorem ping_splits_frame : ∃ s, Reachable (aggSysStep smallConf) pingStart s ∧
    s.wire.map Prod.snd = [0x82, 3, 0x8A, 1, 0x21] ∧ ¬ ∀ w ∈ s.logs, Framed s.made w := by
  obtain ⟨s, hr, hc⟩ := Reachable.of_check (aggSysStep smallConf) pingStart pingRun
    (fun s => s.wire.map Prod.snd = [0x82, 3, 0x8A, 1, 0x21] ∧ ¬ framedCheck s.made 9 s.wire) (by decide +kernel)
  simp only [Bool.decide_and, Bool.and_eq_true, decide_eq_true_eq] at hc
  exact ⟨s, hr, hc.1, fun h => hc.2 ((h s.wire (by simp [AggSys.logs])).check 9)⟩

end WsServer
