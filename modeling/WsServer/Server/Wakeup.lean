/-
The eventfds: what wakes the aggregator out of `epoll_wait`.

`push` and `shutdownQueue` write to the queue's eventfd behind their unlock, so between the two the aggregator may find an
item nobody has announced, or an announcement whose item it has already taken. `Wakeup` is the aggregator among the
others (`Agg/Wire.lean`) with the two eventfd counters, the calls that are behind their unlock with the write still to
come, and what the sink is registered for. The descriptors are level-triggered: what is announced is returned by every
`epoll_wait` until it is read.

- `sleeps_only_when_idle`: where the thread waits, no eventfd is raised and no write is on its way, there is nothing it
  could do: no control message, no reason to end, and a message or a half-sent frame only for a sink that is registered
  for EPOLLOUT.
- `nodeReach_wakeup`: the whole program is such a run.

The park list is not announced to the thread. A connection that is parked once the aggregator has emptied dataQueue waits
for the next message, the timer or the timeout of `epoll_wait`.
-/
import Mathlib
import WsServer.Server.Node

namespace WsServer

open Ws Machine

/-- the two queues the aggregator reads -/
inductive Inbox where
  | data
  | ctrl
deriving DecidableEq, Repr

structure Wakeup where
  sys : AggSys
  /-- the counter of the eventfd -/
  fd : Inbox → ℕ
  /-- calls behind their unlock, with the write to the eventfd still to come -/
  owed : Inbox → ℕ
  /-- what the sink is registered for; `true` is with EPOLLOUT -/
  interest : Option Bool

inductive WakeupAct where
  /-- a step of the aggregator; an EV_WAKE carries the tag of a queue -/
  | agg (e : AggEnv) (tag : Inbox)
  /-- what the others do to connections and park list -/
  | others (conn : ℕ → Conn) (park : List ℕ)
  /-- up to the unlock -/
  | push (q : Inbox) (m : Msg)
  | shutdownQueue (q : Inbox)
  /-- the write behind it -/
  | write (q : Inbox)

/-- the other threads at the part they share -/
def AggSys.put (s : AggSys) (q : Inbox) (m : Msg) : AggSys :=
  match q with
  | .data => { s with dataQueue := push s.dataQueue m }
  | .ctrl => { s with ctrlQueue := push s.ctrlQueue m }

def AggSys.close (s : AggSys) (q : Inbox) : AggSys :=
  match q with
  | .data => { s with dataQueue := shutdownQueue s.dataQueue }
  | .ctrl => { s with ctrlQueue := shutdownQueue s.ctrlQueue }

/-- a `write` of 1; at its maximum the counter stays -/
def eventfdWrite (v : ℕ) : ℕ := if v + 1 < 2 ^ 64 - 1 then v + 1 else v

/-- a frame of one of the slots waits -/
def AggSys.unsent (s : AggSys) : Bool := s.agg.pending.isSome || s.agg.pendingCtrl.isSome

/-- `sinkArm` -/
def sinkArm (s : AggSys) : Option Bool := s.agg.sink.map fun _ => s.unsent

/-- the registration of the sink behind a step from `s` to `t`: `adoptSink` adds it, `closeSink` ends it, and `aggPump`
calls `sinkArm` where the sink takes no more and where dataQueue is empty -/
def registration (s t : AggSys) (interest : Option Bool) : Option Bool :=
  match s.pc with
  | .ctrl | .drainCtrl =>
    if (trypop s.ctrlQueue).any fun m => m.1.kind = .MSG_SINK_ADD ∧ m.1.conn.isSome then some false else interest
  | .pump | .take => if t.pc = .exitData then sinkArm t else interest
  | .events _ | .final => if t.agg.sink.isSome then interest else none
  | _ => interest

/-- the counters behind a step from `s`: EV_WAKE is read until the counter is 0, `resumeParked` pushes -/
def counters (s : AggSys) (tag : Inbox) (fd : Inbox → ℕ) : Inbox → ℕ :=
  match s.pc with
  | .events (.wake :: _) => Function.update fd tag 0
  | .rpush _ => Function.update fd .data (eventfdWrite (fd .data))
  | _ => fd

def wakeupStep (conf : ServerConfig) (w : Wakeup) : WakeupAct → Option Wakeup
  | .agg e tag =>
    (aggStep conf w.sys e).map fun t =>
      { w with sys := t, fd := counters w.sys tag w.fd, interest := registration w.sys t w.interest }
  | .others conn park => some { w with sys := { w.sys with conn := conn, park := park } }
  | .push q m => some { w with sys := w.sys.put q m, owed := Function.update w.owed q (w.owed q + 1) }
  | .shutdownQueue q => some { w with sys := w.sys.close q, owed := Function.update w.owed q (w.owed q + 1) }
  | .write q =>
    if 0 < w.owed q then
      some { w with
        fd := Function.update w.fd q (eventfdWrite (w.fd q))
        owed := Function.update w.owed q (w.owed q - 1) }
    else none

/-- the thread behind `queueEnableNotify`; what was pushed before is in the queues, and nobody announced it -/
def Wakeup.start (conn : ℕ → Conn) (dataQueue ctrlQueue : Queue Msg) (park : List ℕ) : Wakeup :=
  ⟨.start conn dataQueue ctrlQueue park, fun _ => 0, fun _ => 0, none⟩

variable {conf : ServerConfig} {w w' : Wakeup} {a : WakeupAct}

/-- the aggregator in a run is the aggregator among the others -/
theorem wakeupStep_agg (h : wakeupStep conf w a = some w') : w'.sys = w.sys ∨ ∃ b, aggSysStep conf w.sys b = some w'.sys := by
  cases a with
  | agg e tag =>
    obtain ⟨t, ht, rfl⟩ := Option.map_eq_some_iff.1 h
    exact .inr ⟨.agg e, ht⟩
  | others conn park =>
    obtain rfl := Option.some.inj h
    exact .inr ⟨.others conn w.sys.dataQueue w.sys.ctrlQueue park, rfl⟩
  | push q m =>
    obtain rfl := Option.some.inj h
    cases q with
    | data => exact .inr ⟨.others w.sys.conn (push w.sys.dataQueue m) w.sys.ctrlQueue w.sys.park, rfl⟩
    | ctrl => exact .inr ⟨.others w.sys.conn w.sys.dataQueue (push w.sys.ctrlQueue m) w.sys.park, rfl⟩
  | shutdownQueue q =>
    obtain rfl := Option.some.inj h
    cases q with
    | data => exact .inr ⟨.others w.sys.conn (shutdownQueue w.sys.dataQueue) w.sys.ctrlQueue w.sys.park, rfl⟩
    | ctrl => exact .inr ⟨.others w.sys.conn w.sys.dataQueue (shutdownQueue w.sys.ctrlQueue) w.sys.park, rfl⟩
  | write q =>
    simp only [wakeupStep] at h
    split_ifs at h
    obtain rfl := Option.some.inj h
    exact .inl rfl

theorem wakeupReach_agg {conn : ℕ → Conn} {dataQueue ctrlQueue : Queue Msg} {park : List ℕ}
    (h : Reachable (wakeupStep conf) (.start conn dataQueue ctrlQueue park) w) :
    Reachable (aggSysStep conf) (.start conn dataQueue ctrlQueue park) w.sys := by
  induction h with
  | start => exact .start
  | step a _ _ hstep ih =>
    rcases wakeupStep_agg hstep with hs | ⟨b, hb⟩
    · rw [hs]
      exact ih
    · exact .step b ih trivial hb

/-! ## What the thread has seen -/

/-- the eventfd of the queue is raised, or a write to it is still to come -/
def Wakeup.signalled (w : Wakeup) (q : Inbox) : Prop := 0 < w.fd q ∨ 0 < w.owed q

/-- behind the `trypop` that found ctrlQueue empty, up to `epoll_wait` -/
def AggPc.sawCtrl : AggPc → Bool
  | .pump | .mark | .unpark | .rpush _ | .rclear _ | .radd _ | .take | .exitData | .exitCtrl _ | .exitDrain | .wait => true
  | _ => false

/-- behind `aggPump`, up to `epoll_wait` -/
def AggPc.sawData : AggPc → Bool
  | .exitData | .exitCtrl _ | .exitDrain | .wait => true
  | _ => false

/-- behind the first test for the end -/
def AggPc.sawEnd : AggPc → Bool
  | .exitDrain | .wait => true
  | _ => false

def dataDone (s : AggSys) : Prop := s.dataQueue.shutdown = true ∧ s.dataQueue.items = []

def ctrlDone (s : AggSys) : Prop := s.ctrlQueue.shutdown = true ∧ s.ctrlQueue.items = []

/-- what the thread saw is still so, or it will be woken -/
structure Alert (w : Wakeup) : Prop where
  registered : w.interest.isSome = w.sys.agg.sink.isSome
  ctrl : w.sys.pc.sawCtrl → w.sys.ctrlQueue.items ≠ [] → w.signalled .ctrl
  armed : w.sys.pc.sawData → w.interest = sinkArm w.sys
  data : w.sys.pc.sawData → w.sys.agg.sink.isSome → w.sys.dataQueue.items ≠ [] → w.sys.unsent ∨ w.signalled .data
  dataEnd : w.sys.pc = .exitCtrl false → dataDone w.sys → w.signalled .data
  bothEnd : w.sys.pc.sawEnd → dataDone w.sys → ctrlDone w.sys → w.signalled .data ∨ w.signalled .ctrl
  closing : w.sys.pc = .wait → w.sys.dataQueue.shutdown = true → w.sys.agg.sink = none → w.signalled .data

theorem Alert.start (conn : ℕ → Conn) (dataQueue ctrlQueue : Queue Msg) (park : List ℕ) :
    Alert (.start conn dataQueue ctrlQueue park) where
  registered := rfl
  ctrl h := absurd h Bool.false_ne_true
  armed h := absurd h Bool.false_ne_true
  data h := absurd h Bool.false_ne_true
  dataEnd h := by cases h
  bothEnd h := absurd h Bool.false_ne_true
  closing h := by cases h

theorem eventfdWrite_pos (v : ℕ) : 0 < eventfdWrite v := by
  unfold eventfdWrite
  split_ifs with h <;> omega

/-! ### The others -/

/-- `u` has the sink, its slots and the place of `s` -/
structure SameSink (s u : AggSys) : Prop where
  pc : u.pc = s.pc
  sink : u.agg.sink = s.agg.sink
  unsent : u.unsent = s.unsent

theorem SameSink.arm {s u : AggSys} (h : SameSink s u) : sinkArm u = sinkArm s := by
  unfold sinkArm
  rw [h.sink, h.unsent]

/-- what the others do to the queues they announce, and they take nothing -/
structure Announced (w w' : Wakeup) : Prop where
  same : SameSink w.sys w'.sys
  interest : w'.interest = w.interest
  keeps : ∀ q, w.signalled q → w'.signalled q
  ctrl : w'.sys.ctrlQueue = w.sys.ctrlQueue ∨ w'.signalled .ctrl
  data : w'.sys.dataQueue = w.sys.dataQueue ∨ w'.signalled .data

theorem Announced.alert (h : Announced w w') (hw : Alert w) : Alert w' where
  registered := by rw [h.interest, h.same.sink]; exact hw.registered
  ctrl hpc hne := by
    rw [h.same.pc] at hpc
    rcases h.ctrl with hq | hs
    · exact h.keeps _ (hw.ctrl hpc (hq ▸ hne))
    · exact hs
  armed hpc := by
    rw [h.same.pc] at hpc
    rw [h.interest, h.same.arm]
    exact hw.armed hpc
  data hpc hsink hne := by
    rw [h.same.pc] at hpc
    rw [h.same.sink] at hsink
    rw [h.same.unsent]
    rcases h.data with hq | hs
    · exact (hw.data hpc hsink (hq ▸ hne)).imp_right (h.keeps _)
    · exact .inr hs
  dataEnd hpc hd := by
    rw [h.same.pc] at hpc
    rcases h.data with hq | hs
    · exact h.keeps _ (hw.dataEnd hpc ⟨hq ▸ hd.1, hq ▸ hd.2⟩)
    · exact hs
  bothEnd hpc hd hc := by
    rw [h.same.pc] at hpc
    rcases h.data with hq | hs
    · rcases h.ctrl with hq' | hs
      · exact (hw.bothEnd hpc ⟨hq ▸ hd.1, hq ▸ hd.2⟩ ⟨hq' ▸ hc.1, hq' ▸ hc.2⟩).imp (h.keeps _) (h.keeps _)
      · exact .inr hs
    · exact .inl hs
  closing hpc hd hs := by
    rw [h.same.pc] at hpc
    rw [h.same.sink] at hs
    rcases h.data with hq | hsig
    · exact h.keeps _ (hw.closing hpc (hq ▸ hd) hs)
    · exact hsig

/-- a call of `push` or `shutdownQueue` up to its unlock -/
theorem owe_announced {u : AggSys} {q : Inbox} (hsame : SameSink w.sys u)
    (hctrl : u.ctrlQueue = w.sys.ctrlQueue ∨ q = .ctrl) (hdata : u.dataQueue = w.sys.dataQueue ∨ q = .data) :
    Announced w { w with sys := u, owed := Function.update w.owed q (w.owed q + 1) } := by
  have howes : Wakeup.signalled { w with sys := u, owed := Function.update w.owed q (w.owed q + 1) } q := by
    refine .inr ?_
    show 0 < Function.update w.owed q (w.owed q + 1) q
    rw [Function.update_self]
    exact Nat.succ_pos _
  refine ⟨hsame, rfl, fun p hp => ?_, hctrl.imp_right fun h => ?_, hdata.imp_right fun h => ?_⟩
  · by_cases hpq : p = q
    · exact hpq ▸ howes
    · refine hp.imp_right fun hpos => ?_
      show 0 < Function.update w.owed q (w.owed q + 1) p
      rw [Function.update_of_ne hpq]
      exact hpos
  · subst h
    exact howes
  · subst h
    exact howes

theorem write_announced {q : Inbox} :
    Announced w { w with
      fd := Function.update w.fd q (eventfdWrite (w.fd q))
      owed := Function.update w.owed q (w.owed q - 1) } := by
  refine ⟨⟨rfl, rfl, rfl⟩, rfl, fun p hp => ?_, .inl rfl, .inl rfl⟩
  by_cases hpq : p = q
  · subst hpq
    refine .inl ?_
    show 0 < Function.update w.fd p (eventfdWrite (w.fd p)) p
    rw [Function.update_self]
    exact eventfdWrite_pos _
  · refine hp.imp (fun hpos => ?_) fun hpos => ?_
    · show 0 < Function.update w.fd q (eventfdWrite (w.fd q)) p
      rw [Function.update_of_ne hpq]
      exact hpos
    · show 0 < Function.update w.owed q (w.owed q - 1) p
      rw [Function.update_of_ne hpq]
      exact hpos

/-! ### The thread -/

/-- a step that ends where nothing is claimed -/
theorem Alert.blank (hreg : w'.interest.isSome = w'.sys.agg.sink.isSome) (hpc : w'.sys.pc.sawCtrl = false) : Alert w' := by
  have hdata : w'.sys.pc.sawData = false := by
    cases hp : w'.sys.pc with
    | exitData | exitCtrl | exitDrain | wait => rw [hp] at hpc; cases hpc
    | _ => rfl
  have hend : w'.sys.pc.sawEnd = false := by
    cases hp : w'.sys.pc with
    | exitDrain | wait => rw [hp] at hpc; cases hpc
    | _ => rfl
  refine ⟨hreg, fun h => ?_, fun h => ?_, fun h => ?_, fun h => ?_, fun h => ?_, fun h => ?_⟩
  · rw [hpc] at h; cases h
  · rw [hdata] at h; cases h
  · rw [hdata] at h; cases h
  · rw [h] at hpc; cases hpc
  · rw [hend] at h; cases h
  · rw [h] at hpc; cases hpc

/-- a step inside of `aggPump` -/
theorem Alert.inPump (hreg : w'.interest.isSome = w'.sys.agg.sink.isSome) (hpc : w'.sys.pc.sawData = false)
    (hctrl : w'.sys.ctrlQueue.items ≠ [] → w'.signalled .ctrl) : Alert w' := by
  have hend : w'.sys.pc.sawEnd = false := by
    cases hp : w'.sys.pc with
    | exitDrain | wait => rw [hp] at hpc; cases hpc
    | _ => rfl
  refine ⟨hreg, fun _ => hctrl, fun h => ?_, fun h => ?_, fun h => ?_, fun h => ?_, fun h => ?_⟩
  · rw [hpc] at h; cases h
  · rw [hpc] at h; cases h
  · rw [h] at hpc; cases hpc
  · rw [hend] at h; cases h
  · rw [h] at hpc; cases hpc

/-- a step that ends `aggPump` -/
theorem Alert.pumped (hpc : w'.sys.pc = .exitData) (harm : w'.interest = sinkArm w'.sys)
    (hctrl : w'.sys.ctrlQueue.items ≠ [] → w'.signalled .ctrl)
    (hdata : w'.sys.agg.sink.isSome → w'.sys.dataQueue.items ≠ [] → w'.sys.unsent ∨ w'.signalled .data) : Alert w' := by
  refine ⟨?_, fun _ => hctrl, fun _ => harm, fun _ => hdata, fun h => ?_, fun h => ?_, fun h => ?_⟩
  · rw [harm, sinkArm, Option.isSome_map]
  · rw [hpc] at h; cases h
  · rw [hpc] at h; cases h
  · rw [hpc] at h; cases h

section Thread

variable {s t : AggSys} {e : AggEnv} {tag : Inbox}

theorem handleCtrl_sink (s : AggSys) (sends : List SendRes) (m : Msg) :
    ((m.kind = .MSG_SINK_ADD ∧ m.conn.isSome) ∧ (handleCtrl s sends m).agg.sink.isSome) ∨
      ¬ (m.kind = .MSG_SINK_ADD ∧ m.conn.isSome) ∧ (handleCtrl s sends m).agg.sink = s.agg.sink := by
  unfold handleCtrl
  cases hk : m.kind with
  | MSG_SINK_ADD =>
    cases hc : m.conn with
    | none => exact .inr ⟨fun h => absurd h.2 Bool.false_ne_true, rfl⟩
    | some c => exact .inl ⟨⟨rfl, rfl⟩, rfl⟩
  | MSG_SRC_DOWN => exact .inr ⟨fun h => absurd h.1 MsgKind.noConfusion, rfl⟩
  | MSG_DATA => exact .inr ⟨fun h => absurd h.1 MsgKind.noConfusion, rfl⟩

/-- a control message leaves the sink registered, and nothing else -/
theorem ctrl_registered {q : Queue Msg} {m : Msg} {interest : Option Bool} (hreg : interest.isSome = s.agg.sink.isSome)
    (hpc : s.pc = .ctrl ∨ s.pc = .drainCtrl) (hq : trypop s.ctrlQueue = some (m, q)) :
    (registration s (handleCtrl { s with ctrlQueue := q } e.sends m) interest).isSome =
      (handleCtrl { s with ctrlQueue := q } e.sends m).agg.sink.isSome := by
  have hany : registration s (handleCtrl { s with ctrlQueue := q } e.sends m) interest =
      if m.kind = .MSG_SINK_ADD ∧ m.conn.isSome then some false else interest := by
    unfold registration
    rcases hpc with hpc | hpc <;> simp only [hpc, hq, Option.any_some, decide_eq_true_eq]
  rw [hany]
  rcases handleCtrl_sink { s with ctrlQueue := q } e.sends m with ⟨hadd, hsink⟩ | ⟨hno, hsink⟩
  · rw [if_pos hadd, hsink]
    rfl
  · rw [if_neg hno, hsink]
    exact hreg

theorem sinkFlushCtrl_blocked {sends : List SendRes} (h : (sinkFlushCtrl s sends).1 ≤ 0) :
    (sinkFlushCtrl s sends).2.1.agg.pendingCtrl.isSome = true := by
  cases hf : s.agg.pendingCtrl with
  | none =>
    simp only [sinkFlushCtrl, hf] at h
    exact absurd h (by decide)
  | some f =>
    simp only [sinkFlushCtrl, hf] at h ⊢
    split_ifs at h ⊢ with hone
    · exact absurd (show (1 : ℤ) ≤ 0 from h) (by decide)
    · rfl

theorem sinkFlushData_blocked {sends : List SendRes} (h : (sinkFlushData s sends).1 ≤ 0) :
    (sinkFlushData s sends).2.agg.pending.isSome = true := by
  cases hf : s.agg.pending with
  | none =>
    simp only [sinkFlushData, hf] at h
    exact absurd h (by decide)
  | some f =>
    simp only [sinkFlushData, hf] at h ⊢
    split_ifs at h ⊢ with hone
    · exact absurd (show (1 : ℤ) ≤ 0 from h) (by decide)
    · rfl

/-- a flush the sink stops leaves a frame unsent -/
theorem sinkFlush_blocked {sends : List SendRes} (h : (sinkFlush s sends).1 ≤ 0) : (sinkFlush s sends).2.unsent = true := by
  unfold sinkFlush at h ⊢
  dsimp only at h ⊢
  rw [AggSys.unsent, Bool.or_eq_true]
  split_ifs at h ⊢ with hrc
  · exact .inr (sinkFlushCtrl_blocked hrc)
  · exact .inl (sinkFlushData_blocked h)

theorem done_iff (q : Queue Msg) :
    (queueIsShutdown q ∧ queueSize q = 0) ↔ q.shutdown = true ∧ q.items = [] := by
  unfold queueIsShutdown queueSize
  rw [List.length_eq_zero_iff]

/-- steps that touch neither the counters nor the registration of the sink -/
def AggPc.still : AggPc → Bool
  | .mark | .unpark | .rclear _ | .radd _ | .exitData | .exitCtrl _ | .exitDrain => true
  | _ => false

theorem still_same (h : s.pc.still) (tag : Inbox) (fd : Inbox → ℕ) (interest : Option Bool) :
    counters s tag fd = fd ∧ ∀ t, registration s t interest = interest := by
  unfold counters registration
  cases hpc : s.pc with
  | mark | unpark | rclear | radd | exitData | exitCtrl | exitDrain => exact ⟨rfl, fun _ => rfl⟩
  | _ => rw [hpc] at h; cases h

theorem Alert.step (hw : Alert w) (hs : aggStep conf w.sys e = some t) :
    Alert { w with sys := t, fd := counters w.sys tag w.fd, interest := registration w.sys t w.interest } := by
  have hreg := hw.registered
  unfold aggStep at hs
  cases hpc : w.sys.pc with
  | ctrl =>
    simp only [hpc] at hs
    cases hq : trypop w.sys.ctrlQueue with
    | none =>
      simp only [hq, Option.some.injEq] at hs
      subst hs
      refine .inPump ?_ rfl fun hne => absurd (trypop_eq_none.1 hq) hne
      simpa [registration, hpc, hq] using hreg
    | some mq =>
      simp only [hq, Option.some.injEq] at hs
      subst hs
      refine .blank (hpc ▸ ctrl_registered (e := e) hreg (.inl hpc) hq) ?_
      dsimp only
      rw [(handleCtrl_only _ _ _).pc]
      rfl
  | pump =>
    have hctrl := hw.ctrl (by rw [hpc]; rfl)
    have hfd : counters w.sys tag w.fd = w.fd := by unfold counters; rw [hpc]
    have honly := sinkFlush_only (fun _ => False) w.sys e.sends
    simp only [hpc] at hs
    rw [hfd]
    split_ifs at hs with hsink hneg hzero
    all_goals obtain rfl := Option.some.inj hs
    · refine .pumped rfl (by simp [registration, hpc, sinkArm, AggSys.unsent]) hctrl fun h => ?_
      rw [hsink] at h
      cases h
    · have hgone := closeSink_sink (sinkFlush w.sys e.sends).2
      have hclose := closeSink_only (fun _ => False) (sinkFlush w.sys e.sends).2
      refine .pumped rfl (by simp [registration, hpc, sinkArm, AggSys.unsent]) ?_ fun h => ?_
      · dsimp only
        rw [hclose.ctrlQueue, honly.ctrlQueue]
        exact hctrl
      · dsimp only at h
        rw [hgone] at h
        cases h
    · refine .pumped rfl (by simp [registration, hpc, sinkArm, AggSys.unsent]) ?_ fun _ _ => ?_
      · dsimp only
        rw [honly.ctrlQueue]
        exact hctrl
      · exact .inl (sinkFlush_blocked hzero.le)
    · refine .inPump ?_ rfl ?_
      · dsimp only
        rw [sinkFlush_done.1]
        simpa [registration, hpc] using hreg
      · dsimp only
        rw [honly.ctrlQueue]
        exact hctrl
  | mark =>
    have hctrl := hw.ctrl (by rw [hpc]; rfl)
    obtain ⟨hfd, hint⟩ := still_same (s := w.sys) (by rw [hpc]; rfl) tag w.fd w.interest
    simp only [hpc] at hs
    rw [hfd, hint]
    obtain rfl := Option.some.inj hs
    refine .inPump hreg ?_ hctrl
    dsimp only
    split_ifs <;> rfl
  | unpark =>
    have hctrl := hw.ctrl (by rw [hpc]; rfl)
    obtain ⟨hfd, hint⟩ := still_same (s := w.sys) (by rw [hpc]; rfl) tag w.fd w.interest
    simp only [hpc] at hs
    rw [hfd, hint]
    split at hs
    all_goals
      obtain rfl := Option.some.inj hs
      exact .inPump hreg rfl hctrl
  | rpush c =>
    have hctrl := hw.ctrl (by rw [hpc]; rfl)
    simp only [hpc] at hs
    obtain ⟨m, -, rfl⟩ := Option.map_eq_some_iff.1 hs
    refine .inPump (by simpa [registration, hpc] using hreg) rfl fun hne => ?_
    -- the write of `resumeParked` goes to the other counter
    refine (hctrl hne).imp_left fun hpos => ?_
    show 0 < counters w.sys tag w.fd .ctrl
    unfold counters
    rw [hpc]
    dsimp only
    rw [Function.update_of_ne Inbox.noConfusion]
    exact hpos
  | rclear c =>
    have hctrl := hw.ctrl (by rw [hpc]; rfl)
    obtain ⟨hfd, hint⟩ := still_same (s := w.sys) (by rw [hpc]; rfl) tag w.fd w.interest
    simp only [hpc] at hs
    rw [hfd, hint]
    obtain rfl := Option.some.inj hs
    exact .inPump hreg rfl hctrl
  | radd c =>
    have hctrl := hw.ctrl (by rw [hpc]; rfl)
    obtain ⟨hfd, hint⟩ := still_same (s := w.sys) (by rw [hpc]; rfl) tag w.fd w.interest
    simp only [hpc] at hs
    rw [hfd, hint]
    obtain rfl := Option.some.inj hs
    exact .inPump hreg rfl hctrl
  | take =>
    have hctrl := hw.ctrl (by rw [hpc]; rfl)
    have hfd : counters w.sys tag w.fd = w.fd := by unfold counters; rw [hpc]
    simp only [hpc] at hs
    rw [hfd]
    cases hq : trypop w.sys.dataQueue with
    | none =>
      simp only [hq, Option.some.injEq] at hs
      subst hs
      refine .pumped rfl (by simp [registration, hpc, sinkArm, AggSys.unsent]) hctrl fun _ hne => ?_
      exact absurd (trypop_eq_none.1 hq) hne
    | some mq =>
      simp only [hq, Option.some.injEq] at hs
      subst hs
      refine .inPump ?_ rfl hctrl
      simpa [registration, hpc, takeMessage, aggOnMessage] using hreg
  | exitData =>
    have hctrl := hw.ctrl (by rw [hpc]; rfl)
    have harm := hw.armed (by rw [hpc]; rfl)
    have hdata := hw.data (by rw [hpc]; rfl)
    obtain ⟨hfd, hint⟩ := still_same (s := w.sys) (by rw [hpc]; rfl) tag w.fd w.interest
    simp only [hpc] at hs
    obtain rfl := Option.some.inj hs
    rw [hfd, hint]
    refine ⟨hreg, fun _ => hctrl, fun _ => harm, fun _ => hdata, fun h hd => ?_,
      fun h => absurd h Bool.false_ne_true, fun h => by cases h⟩
    have hno := of_decide_eq_false (AggPc.exitCtrl.inj h)
    exact absurd ((done_iff _).2 hd) hno
  | exitCtrl d =>
    have hctrl := hw.ctrl (by rw [hpc]; rfl)
    have harm := hw.armed (by rw [hpc]; rfl)
    have hdata := hw.data (by rw [hpc]; rfl)
    obtain ⟨hfd, hint⟩ := still_same (s := w.sys) (by rw [hpc]; rfl) tag w.fd w.interest
    simp only [hpc] at hs
    rw [hfd, hint]
    split_ifs at hs with hend
    all_goals obtain rfl := Option.some.inj hs
    · exact .blank hreg rfl
    · refine ⟨hreg, fun _ => hctrl, fun _ => harm, fun _ => hdata, fun h => (by cases h), fun _ hd hc => ?_,
        fun h => by cases h⟩
      cases d with
      | true => exact absurd ⟨rfl, (done_iff _).2 hc⟩ hend
      | false => exact .inl (hw.dataEnd hpc hd)
  | exitDrain =>
    have hctrl := hw.ctrl (by rw [hpc]; rfl)
    have harm := hw.armed (by rw [hpc]; rfl)
    have hdata := hw.data (by rw [hpc]; rfl)
    have hboth := hw.bothEnd (by rw [hpc]; rfl)
    obtain ⟨hfd, hint⟩ := still_same (s := w.sys) (by rw [hpc]; rfl) tag w.fd w.interest
    simp only [hpc] at hs
    rw [hfd, hint]
    split_ifs at hs with hend
    all_goals obtain rfl := Option.some.inj hs
    · exact .blank hreg rfl
    · exact ⟨hreg, fun _ => hctrl, fun _ => harm, fun _ => hdata, fun h => (by cases h), fun _ => hboth,
        fun _ hd hn => absurd ⟨hd, hn⟩ hend⟩
  | wait =>
    simp only [hpc] at hs
    split at hs
    all_goals
      obtain rfl := Option.some.inj hs
      exact .blank (by simpa [registration, hpc] using hreg) rfl
  | events evs =>
    cases evs with
    | nil =>
      simp only [hpc] at hs
      obtain rfl := Option.some.inj hs
      refine .blank ?_ rfl
      cases hk : w.sys.agg.sink <;> simp [registration, hpc, hk, hreg]
    | cons ev evs =>
      simp only [hpc] at hs
      obtain rfl := Option.some.inj hs
      refine .blank ?_ rfl
      rcases (handleEvent_only (fun _ => False) w.sys e ev).sink with hk | hk | ⟨c, hc, -⟩
      · cases hk' : w.sys.agg.sink <;> simp [registration, hpc, hk, hk', hreg]
      · simp [registration, hpc, hk]
      · exact hc.elim
  | drainCtrl =>
    simp only [hpc] at hs
    cases hq : trypop w.sys.ctrlQueue with
    | none =>
      simp only [hq, Option.some.injEq] at hs
      subst hs
      exact .blank (by simpa [registration, hpc, hq] using hreg) rfl
    | some mq =>
      simp only [hq, Option.some.injEq] at hs
      subst hs
      refine .blank (hpc ▸ ctrl_registered (e := e) hreg (.inr hpc) hq) ?_
      dsimp only
      rw [(handleCtrl_only _ _ _).pc]
      rfl
  | drainData =>
    simp only [hpc] at hs
    cases hq : trypop w.sys.dataQueue with
    | none =>
      simp only [hq, Option.some.injEq] at hs
      subst hs
      exact .blank (by simpa [registration, hpc] using hreg) rfl
    | some mq =>
      simp only [hq, Option.some.injEq] at hs
      subst hs
      refine .blank ?_ ?_
      · dsimp only
        rw [(drainMessage_same _ _ _).2.2.2]
        simpa [registration, hpc] using hreg
      · dsimp only
        rw [(drainMessage_same _ _ _).1]
        rfl
  | final =>
    simp only [hpc] at hs
    obtain rfl := Option.some.inj hs
    have hgone : (freeSink w.sys e.sends).agg.sink = none := freeSink_sink w.sys e.sends
    refine .blank ?_ rfl
    have hsink : ({ aggFreeState (freeSink w.sys e.sends) with pc := .done } : AggSys).agg.sink = none := hgone
    show (registration w.sys { aggFreeState (freeSink w.sys e.sends) with pc := .done } w.interest).isSome = _
    unfold registration
    simp only [hpc]
    rw [hsink]
    exact congrArg Option.isSome hgone.symm
  | done => simp only [hpc] at hs; cases hs

end Thread

theorem wakeupStep_alert (hw : Alert w) (hs : wakeupStep conf w a = some w') : Alert w' := by
  cases a with
  | agg e tag =>
    obtain ⟨t, ht, rfl⟩ := Option.map_eq_some_iff.1 hs
    exact hw.step ht
  | others conn park =>
    obtain rfl := Option.some.inj hs
    exact Announced.alert (w := w) ⟨⟨rfl, rfl, rfl⟩, rfl, fun _ => id, .inl rfl, .inl rfl⟩ hw
  | push q m =>
    obtain rfl := Option.some.inj hs
    cases q with
    | data => exact (owe_announced (u := w.sys.put .data m) ⟨rfl, rfl, rfl⟩ (.inl rfl) (.inr rfl)).alert hw
    | ctrl => exact (owe_announced (u := w.sys.put .ctrl m) ⟨rfl, rfl, rfl⟩ (.inr rfl) (.inl rfl)).alert hw
  | shutdownQueue q =>
    obtain rfl := Option.some.inj hs
    cases q with
    | data => exact (owe_announced (u := w.sys.close .data) ⟨rfl, rfl, rfl⟩ (.inl rfl) (.inr rfl)).alert hw
    | ctrl => exact (owe_announced (u := w.sys.close .ctrl) ⟨rfl, rfl, rfl⟩ (.inr rfl) (.inl rfl)).alert hw
  | write q =>
    simp only [wakeupStep] at hs
    split_ifs at hs
    obtain rfl := Option.some.inj hs
    exact write_announced.alert hw

theorem reach_alert {conn : ℕ → Conn} {dataQueue ctrlQueue : Queue Msg} {park : List ℕ}
    (h : Reachable (wakeupStep conf) (.start conn dataQueue ctrlQueue park) w) : Alert w :=
  h.invariant (P := Alert) (.start conn dataQueue ctrlQueue park) fun _ _ _ hw _ hs => wakeupStep_alert hw hs

/-- **The aggregator never sleeps on work.** Where it waits with no eventfd raised and no write to one still to come:
ctrlQueue is empty, it has no reason to end, without a sink dataQueue is open, and a sink is registered for EPOLLOUT
exactly while a frame is unsent; without an unsent frame dataQueue is empty. -/
theorem sleeps_only_when_idle (conf : ServerConfig) (conn : ℕ → Conn) (dataQueue ctrlQueue : Queue Msg) (park : List ℕ)
    (w : Wakeup) (h : Reachable (wakeupStep conf) (.start conn dataQueue ctrlQueue park) w) (hpc : w.sys.pc = .wait)
    (hquiet : ∀ q, w.fd q = 0 ∧ w.owed q = 0) :
    w.sys.ctrlQueue.items = [] ∧ ¬ (dataDone w.sys ∧ ctrlDone w.sys) ∧
      (w.sys.agg.sink = none → w.interest = none ∧ w.sys.dataQueue.shutdown = false) ∧
      ∀ k, w.sys.agg.sink = some k → w.interest = some w.sys.unsent ∧
        (w.sys.dataQueue.items ≠ [] → w.sys.unsent = true) := by
  have hw := reach_alert h
  have hno : ∀ q, ¬ w.signalled q := by
    rintro q (hpos | hpos)
    · exact absurd (hquiet q).1 hpos.ne'
    · exact absurd (hquiet q).2 hpos.ne'
  have hdata : w.sys.pc.sawData := by rw [hpc]; rfl
  refine ⟨?_, fun hend => ?_, fun hsink => ⟨?_, ?_⟩, fun k hk => ⟨?_, fun hne => ?_⟩⟩
  · by_contra hne
    exact hno _ (hw.ctrl (by rw [hpc]; rfl) hne)
  · rcases hw.bothEnd (by rw [hpc]; rfl) hend.1 hend.2 with hs | hs
    · exact hno _ hs
    · exact hno _ hs
  · rw [hw.armed hdata, sinkArm, hsink]
    rfl
  · rw [← Bool.not_eq_true]
    exact fun hsd => hno _ (hw.closing hpc hsd hsink)
  · rw [hw.armed hdata, sinkArm, hk]
    rfl
  · exact (hw.data hdata (by rw [hk]; rfl) hne).resolve_right (hno _)

/-- the sink takes no byte of the first message, the second stays in dataQueue, and the eventfds are read -/
def idleRun : List WakeupAct :=
  [WakeupAct.push .ctrl (msgNewSinkAdd 7), .push .data (msgNewData 3 opBin ⟨0, 0⟩ [1]),
    .push .data (msgNewData 3 opBin ⟨0, 0⟩ [2]), .write .ctrl, .write .data, .write .data] ++
    List.replicate 11 (WakeupAct.agg ⟨[], [], .events [.wake, .wake]⟩ .ctrl) ++
    [WakeupAct.agg calm .data, .agg calm .ctrl] ++ List.replicate 6 (WakeupAct.agg calm .ctrl)

def waitsBlocked (w : Wakeup) : Bool :=
  w.sys.pc = .wait ∧ (w.fd .data = 0 ∧ w.owed .data = 0) ∧ (w.fd .ctrl = 0 ∧ w.owed .ctrl = 0) ∧ w.sys.agg.sink = some 7 ∧
    w.sys.dataQueue.items.length = 1

theorem sleeps_only_when_idle_blocked :
    ∃ w, Reachable (wakeupStep smallConf) (.start freshConn createQueue createQueue []) w ∧ waitsBlocked w = true ∧
      w.interest = some true := by
  obtain ⟨w, hr, hp⟩ := Reachable.of_check (wakeupStep smallConf) (.start freshConn createQueue createQueue []) idleRun
    waitsBlocked (by decide)
  obtain ⟨hpc, hdata, hctrl, hsink, hlen⟩ : w.sys.pc = .wait ∧ (w.fd .data = 0 ∧ w.owed .data = 0) ∧
    (w.fd .ctrl = 0 ∧ w.owed .ctrl = 0) ∧ w.sys.agg.sink = some 7 ∧ w.sys.dataQueue.items.length = 1 := of_decide_eq_true hp
  obtain ⟨-, -, -, hregistered⟩ := sleeps_only_when_idle smallConf _ _ _ _ w hr hpc fun q => by
    cases q with
    | data => exact hdata
    | ctrl => exact hctrl
  obtain ⟨hinterest, hunsent⟩ := hregistered 7 hsink
  rw [hunsent (List.ne_nil_of_length_pos (hlen ▸ one_pos))] at hinterest
  exact ⟨w, hr, hp, hinterest⟩

/-! ## The whole program -/

/-- what a step of another thread does to what the aggregator sees -/
theorem srvStep_inbox {s t : Srv} {b : Act} (h : srvStep conf s b = some t) (hb : ∀ e, b ≠ .agg e) :
    ∃ u : AggSys, (u = s.sys ∨ ∃ q m, u = s.sys.put q m) ∧ t.sys = { u with conn := t.sys.conn, park := t.sys.park } := by
  cases b with
  | accept => obtain rfl := Option.some.inj h; exact ⟨s.sys, .inl rfl, rfl⟩
  | deliver => simp only [srvStep] at h; split_ifs at h; obtain rfl := Option.some.inj h; exact ⟨s.sys, .inl rfl, rfl⟩
  | fetch => simp only [srvStep] at h; split_ifs at h; obtain rfl := Option.some.inj h; exact ⟨s.sys, .inl rfl, rfl⟩
  | enqueue => simp only [srvStep] at h; split_ifs at h; obtain rfl := Option.some.inj h; exact ⟨s.sys, .inl rfl, rfl⟩
  | agg e => exact absurd rfl (hb e)
  | worker w e =>
    cases workerStep_shift h with
    | push c eof m => exact ⟨s.sys.put .data m, .inr ⟨.data, m, rfl⟩, rfl⟩
    | handoffPush c => exact ⟨s.sys.put .ctrl (msgNewSinkAdd c), .inr ⟨.ctrl, _, rfl⟩, rfl⟩
    | _ => exact ⟨s.sys, .inl rfl, rfl⟩

variable {W : ℕ} {client : ℕ → UpstreamClient} {count : ℕ} {n m : Node}

/-- a push with its write -/
theorem put_announced {w0 : Wakeup} (h : Reachable (wakeupStep conf) w0 w) (hquiet : ∀ q, w.owed q = 0) (q : Inbox) (m : Msg) :
    ∃ w', Reachable (wakeupStep conf) w0 w' ∧ w'.sys = w.sys.put q m ∧ ∀ q, w'.owed q = 0 := by
  have howed : Function.update w.owed q (w.owed q + 1) q = 1 := by rw [Function.update_self, hquiet]
  have hwrite : ∃ w', wakeupStep conf { w with sys := w.sys.put q m, owed := Function.update w.owed q (w.owed q + 1) }
      (.write q) = some w' ∧ w'.sys = w.sys.put q m ∧ w'.owed = Function.update (Function.update w.owed q (w.owed q + 1)) q 0 := by
    simp only [wakeupStep, howed]
    exact ⟨_, if_pos one_pos, rfl, rfl⟩
  obtain ⟨w', hstep, hsys, howed'⟩ := hwrite
  refine ⟨w', .step (.write q) (.step (.push q m) h trivial rfl) trivial hstep, hsys, fun p => ?_⟩
  rw [howed']
  by_cases hp : p = q
  · subst hp
    rw [Function.update_self]
  · rw [Function.update_of_ne hp, Function.update_of_ne hp, hquiet]

/-- **The whole program** is a run in which every push is announced before anybody else goes on. -/
theorem nodeReach_wakeup (h : Reachable (nodeStep conf W) (.start client count) n) :
    ∃ w, Reachable (wakeupStep conf) (.start Srv.start.sys.conn createQueue createQueue []) w ∧ w.sys = n.agg ∧
      ∀ q, w.owed q = 0 := by
  induction h with
  | start => exact ⟨_, .start, rfl, fun _ => rfl⟩
  | @step n m a _ _ hstep ih =>
    obtain ⟨w, hr, hsys, hquiet⟩ := ih
    rcases nodeStep_cases hstep with ⟨b, s, rfl, -, hs, rfl⟩ | ⟨e, r, rfl, hr', rfl⟩
    · by_cases hb : ∃ e, b = .agg e
      · obtain ⟨e, rfl⟩ := hb
        obtain ⟨t, ht, rfl⟩ := Option.map_eq_some_iff.1 hs
        have hstep' : wakeupStep conf w (.agg e .data) = some { w with
            sys := t, fd := counters w.sys .data w.fd, interest := registration w.sys t w.interest } := by
          simp only [wakeupStep, show aggStep conf w.sys e = some t from hsys ▸ ht, Option.map_some]
        exact ⟨_, .step (.agg e .data) hr trivial hstep', rfl, hquiet⟩
      · obtain ⟨u, hu, ht⟩ := srvStep_inbox hs fun e he => hb ⟨e, he⟩
        obtain ⟨w', hr', hsys', hquiet'⟩ : ∃ w', Reachable (wakeupStep conf) _ w' ∧ w'.sys = u ∧ ∀ q, w'.owed q = 0 := by
          rcases hu with rfl | ⟨q, m, rfl⟩
          · exact ⟨w, hr, hsys, hquiet⟩
          · obtain ⟨w', hr', hsys', hquiet'⟩ := put_announced hr hquiet q m
            exact ⟨w', hr', hsys'.trans (by rw [hsys]; rfl), hquiet'⟩
        refine ⟨_, .step (.others s.sys.conn s.sys.park) hr' trivial rfl, ?_, hquiet'⟩
        show { w'.sys with conn := s.sys.conn, park := s.sys.park } = s.sys
        rw [hsys', ← ht]
    · have hq := reactorStep_queue hr'
      cases hp : n.reactor.pushes with
      | none =>
        rw [hp] at hq
        refine ⟨w, hr, ?_, hquiet⟩
        show w.sys = { n.agg with dataQueue := r.1 }
        rw [hq, hsys]
        rfl
      | some m =>
        rw [hp] at hq
        obtain ⟨w', hr', hsys', hquiet'⟩ := put_announced hr hquiet .data m
        refine ⟨w', hr', ?_, hquiet'⟩
        show w'.sys = { n.agg with dataQueue := r.1 }
        rw [hq, hsys', hsys]
        rfl

end WsServer
