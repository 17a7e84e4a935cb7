/-
What the aggregator does to a connection.

It reads what the sink sends, closes sinks, lets parked connections go; it never writes to the tx of a connection, never
joins fragments, and never marks one as closing.

- `AggTouch`: what a step may change of one connection.
- `aggStep_touch`: every step of the thread changes every connection in this way only.
-/
import Mathlib
import WsServer.Agg.Steps

namespace WsServer

open Ws

/-- what the aggregator may change of a connection; `sink`: the connection is the sink it reads from -/
structure AggTouch (sink : Prop) (a b : Conn) : Prop where
  state : b.state = a.state
  closeAfterSend : b.closeAfterSend = a.closeAfterSend
  tx : b.tx = a.tx
  msg : b.msg = a.msg
  msgOpcode : b.msgOpcode = a.msgOpcode
  fragmenting : b.fragmenting = a.fragmenting
  msgUtf8 : b.msgUtf8 = a.msgUtf8
  pendingMsg : b.pendingMsg = a.pendingMsg ∨ b.pendingMsg = none
  read : ¬ sink → b.rx = a.rx ∧ b.sock = a.sock
  role : b.role = a.role ∨ b.role = .ROLE_SINK

variable {sink : Prop} {s t : AggSys} {c : ℕ}

theorem AggTouch.refl (sink : Prop) (a : Conn) : AggTouch sink a a :=
  ⟨rfl, rfl, rfl, rfl, rfl, rfl, rfl, .inl rfl, fun _ => ⟨rfl, rfl⟩, .inl rfl⟩

theorem AggTouch.trans {a b c : Conn} (h : AggTouch sink a b) (h' : AggTouch sink b c) : AggTouch sink a c where
  state := h'.state.trans h.state
  closeAfterSend := h'.closeAfterSend.trans h.closeAfterSend
  tx := h'.tx.trans h.tx
  msg := h'.msg.trans h.msg
  msgOpcode := h'.msgOpcode.trans h.msgOpcode
  fragmenting := h'.fragmenting.trans h.fragmenting
  msgUtf8 := h'.msgUtf8.trans h.msgUtf8
  pendingMsg := by
    rcases h'.pendingMsg with hp | hp
    · rw [hp]
      exact h.pendingMsg
    · exact .inr hp
  read hs := ⟨(h'.read hs).1.trans (h.read hs).1, (h'.read hs).2.trans (h.read hs).2⟩
  role := by
    rcases h'.role with hr | hr
    · rw [hr]
      exact h.role
    · exact .inr hr

/-- one connection is changed -/
theorem AggTouch.update {f : ℕ → Conn} {k : ℕ} {v : Conn} (h : k = c → AggTouch sink (f k) v) :
    AggTouch sink (f c) (Function.update f k v c) := by
  by_cases hc : k = c
  · subst hc
    rw [Function.update_self]
    exact h rfl
  · rw [Function.update_of_ne (Ne.symm hc)]
    exact .refl sink _

variable (c)

theorem closeSink_touch (s : AggSys) : AggTouch sink (s.conn c) ((closeSink s).conn c) := by
  unfold closeSink
  split
  · exact .refl sink _
  · apply AggTouch.update
    intro _
    exact ⟨rfl, rfl, rfl, rfl, rfl, rfl, rfl, .inr rfl, fun _ => ⟨rfl, rfl⟩, .inl rfl⟩

theorem freeSink_touch (s : AggSys) (sends : List SendRes) : AggTouch sink (s.conn c) ((freeSink s sends).conn c) := by
  unfold freeSink
  split_ifs
  · exact closeSink_touch c (sendCloseBestEffort s sends 1001)
  · exact .refl sink _

theorem handleCtrl_touch (s : AggSys) (sends : List SendRes) (m : Msg) :
    AggTouch sink (s.conn c) ((handleCtrl s sends m).conn c) := by
  unfold handleCtrl
  split
  · rw [adoptSink_eq]
    refine (freeSink_touch c s sends).trans (AggTouch.update fun _ => ?_)
    exact ⟨rfl, rfl, rfl, rfl, rfl, rfl, rfl, .inl rfl, fun _ => ⟨rfl, rfl⟩, .inr rfl⟩
  · exact .refl sink _
  · exact .refl sink _

theorem sinkFlush_conn (s : AggSys) (sends : List SendRes) : (sinkFlush s sends).2.conn = s.conn := by
  have hctrl : (sinkFlushCtrl s sends).2.1.conn = s.conn := by
    unfold sinkFlushCtrl
    split
    · rfl
    · dsimp only
      split_ifs <;> rfl
  have hdata : ∀ (u : AggSys) (rest : List SendRes), (sinkFlushData u rest).2.conn = u.conn := by
    intro u rest
    unfold sinkFlushData
    split
    · rfl
    · dsimp only
      split_ifs <;> rfl
  unfold sinkFlush
  dsimp only
  split_ifs
  · exact hctrl
  · exact (hdata _ _).trans hctrl

theorem sinkTaken_touch (s : AggSys) (e : AggEnv) (k : ℕ) :
    AggTouch (k = c) (s.conn c) ((sinkTaken s e k).conn c) := by
  have hread : ∀ rx, k = c →
      AggTouch (k = c) (s.conn k) { (sinkRecv e.sizes (s.conn k)).1 with rx := rx } := by
    intro rx hk
    exact ⟨rfl, rfl, rfl, rfl, rfl, rfl, rfl, .inl rfl, fun hn => absurd hk hn, .inl rfl⟩
  unfold sinkTaken
  dsimp only
  split
  · exact AggTouch.update (hread _)
  · exact AggTouch.update (hread _)

theorem sinkReadAndHandle_touch (s : AggSys) (e : AggEnv) (k : ℕ) :
    AggTouch (k = c) (s.conn c) ((sinkReadAndHandle s e k).2.conn c) := by
  rw [sinkReadAndHandle_eq]
  split
  · exact sinkTaken_touch c s e k
  · exact sinkTaken_touch c s e k

theorem handleEvent_touch (s : AggSys) (e : AggEnv) (ev : AggEvent) :
    AggTouch (s.agg.sink = some c) (s.conn c) ((handleEvent s e ev).conn c) := by
  cases ev with
  | wake => exact .refl _ _
  | timer => exact .refl _ _
  | conn k hup inn =>
    simp only [handleEvent]
    split_ifs with hk
    · exact .refl _ _
    · exact closeSink_touch c s
    · have h := sinkReadAndHandle_touch c s e k
      exact ⟨h.1, h.2, h.3, h.4, h.5, h.6, h.7, h.8, fun hn => h.9 fun hkc => hn (hkc ▸ not_not.1 hk), h.10⟩
    · have h := (sinkReadAndHandle_touch c s e k).trans (closeSink_touch c (sinkReadAndHandle s e k).2)
      exact ⟨h.1, h.2, h.3, h.4, h.5, h.6, h.7, h.8, fun hn => h.9 fun hkc => hn (hkc ▸ not_not.1 hk), h.10⟩
    · exact .refl _ _

theorem drainMessage_conn (s : AggSys) (sends : List SendRes) (m : Msg) : (drainMessage s sends m).conn = s.conn := by
  unfold drainMessage
  split_ifs <;> rfl

variable {conf : ServerConfig}

/-- **What a step of the aggregator changes of a connection.** -/
theorem aggStep_touch {e : AggEnv} (h : aggStep conf s e = some t) :
    AggTouch (s.agg.sink = some c) (s.conn c) (t.conn c) := by
  have hctrl : ∀ (u : AggSys) (m : Msg), u.conn = s.conn →
      AggTouch (s.agg.sink = some c) (s.conn c) ((handleCtrl u e.sends m).conn c) := by
    intro u m hu
    rw [← hu]
    exact handleCtrl_touch c u e.sends m
  unfold aggStep at h
  cases hpc : s.pc with
  | pump =>
    simp only [hpc] at h
    have hflush := sinkFlush_conn s e.sends
    split_ifs at h <;> obtain rfl := Option.some.inj h
    · exact .refl _ _
    · rw [← hflush]
      exact closeSink_touch c (sinkFlush s e.sends).2
    · dsimp only
      rw [hflush]
      exact .refl _ _
    · dsimp only
      rw [hflush]
      exact .refl _ _
  | ctrl | drainCtrl =>
    simp only [hpc] at h
    split at h <;> obtain rfl := Option.some.inj h
    · exact .refl _ _
    · exact hctrl _ _ rfl
  | rpush k =>
    simp only [hpc] at h
    obtain ⟨m, -, rfl⟩ := Option.map_eq_some_iff.1 h
    exact .refl _ _
  | rclear k =>
    simp only [hpc] at h
    obtain rfl := Option.some.inj h
    apply AggTouch.update
    intro _
    exact ⟨rfl, rfl, rfl, rfl, rfl, rfl, rfl, .inr rfl, fun _ => ⟨rfl, rfl⟩, .inl rfl⟩
  | radd k =>
    simp only [hpc] at h
    obtain rfl := Option.some.inj h
    apply AggTouch.update
    intro _
    unfold epollAdd
    split_ifs <;> exact ⟨rfl, rfl, rfl, rfl, rfl, rfl, rfl, .inl rfl, fun _ => ⟨rfl, rfl⟩, .inl rfl⟩
  | mark | exitData => simp only [hpc] at h; obtain rfl := Option.some.inj h; exact .refl _ _
  | unpark | take | exitCtrl | exitDrain | wait =>
    simp only [hpc] at h
    split at h <;> obtain rfl := Option.some.inj h <;> exact .refl _ _
  | events evs =>
    cases evs with
    | nil => simp only [hpc] at h; obtain rfl := Option.some.inj h; exact .refl _ _
    | cons ev evs =>
      simp only [hpc] at h
      obtain rfl := Option.some.inj h
      exact handleEvent_touch c s e ev
  | drainData =>
    simp only [hpc] at h
    split at h <;> obtain rfl := Option.some.inj h
    · exact .refl _ _
    · rw [drainMessage_conn]
      exact .refl _ _
  | final =>
    simp only [hpc] at h
    obtain rfl := Option.some.inj h
    have hfree : AggTouch (s.agg.sink = some c) (s.conn c) ((freeSink s e.sends).conn c) := freeSink_touch c s e.sends
    refine hfree.trans ?_
    show AggTouch _ _ (if c ∈ (freeSink s e.sends).park then
      { (freeSink s e.sends).conn c with pendingMsg := none } else (freeSink s e.sends).conn c)
    split_ifs
    · exact ⟨rfl, rfl, rfl, rfl, rfl, rfl, rfl, .inr rfl, fun _ => ⟨rfl, rfl⟩, .inl rfl⟩
    · exact .refl _ _
  | done => simp only [hpc] at h; cases h

end WsServer
