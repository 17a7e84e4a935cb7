/-
What one step of a worker does.

- `Touch`, `Local`, `LoopDone`: what a worker leaves alone while it works on a connection, and what its place says about it.
- `wsFrame_waits`, `wsFrame_stop`: a pass that ends the frame loop waits for more of a frame, or has queued a CLOSE.
- `workerStep_shift`: the inversion lemma; every step is one of the cases of `WShift`.
-/
import Mathlib
import WsServer.Server.Server
import WsServer.Worker.Refine

namespace WsServer

open Ws

/-- the connection a worker has in its hands; behind `parkListPush` it has given it away -/
def WPc.holds : WPc → Option ℕ
  | .idle | .parkDel _ => none
  | .run c | .hsSend c | .handoffDel c | .handoffPush c | .recv c | .loop c _ | .check c _ _ | .push c _ _
  | .parkStore c _ | .parkPush c | .flush c _ | .apply c _ => some c

/-! ## What a worker does -/

/-- a pass of the loop has nothing to act on -/
def FrameStep.waits : FrameStep → Bool
  | .wait => true
  | _ => false

/-- the loop of `handleWsOpen` would still act on what rx holds: on a complete frame, or on a header it refuses -/
def HoldsFrame (conf : ServerConfig) (c : Conn) : Prop :=
  c.closeAfterSend = false ∧ (wsFrame conf c).waits = false

/-- `applyDisposition` closes the connection or arms it -/
def Disposition.decides (disp : Disposition) : Prop := disp ≠ .DISP_PARKED ∧ disp ≠ .DISP_HANDOFF

/-- a worker's place agrees with its connection -/
def Local (p : WPc) (v : Conn) : Prop :=
  match p with
  | .hsSend _ => v.state = .ST_HANDSHAKE_SEND
  | .handoffDel _ | .handoffPush _ => v.role = .ROLE_SINK
  | .apply _ disp => disp.decides
  | _ => True

/-- behind the loop rx holds nothing to act on -/
def LoopDone (conf : ServerConfig) (p : WPc) (v : Conn) : Prop :=
  match p with
  | .flush _ _ => ¬ HoldsFrame conf v
  | .apply _ disp => disp ≠ .DISP_CLOSE → v.state = .ST_WS_OPEN → ¬ HoldsFrame conf v
  | _ => True

/-! ## One pass of the loop -/

theorem wsControl_stop {c v : Conn} {h : WsFrameHdr} {payload : Bytes} (hs : wsControl c h payload = .stop v) :
    v.closeAfterSend = true := by
  unfold wsControl at hs
  split_ifs at hs
  obtain rfl := FrameStep.stop.inj hs
  exact sendCloseAndMark_marked c _

theorem wsFragment_stop {conf : ServerConfig} {c v : Conn} {h : WsFrameHdr} {payload : Bytes}
    (hs : wsFragment conf c h payload = .stop v) : v.closeAfterSend = true := by
  unfold wsFragment at hs
  split_ifs at hs
  · obtain rfl := FrameStep.stop.inj hs
    exact sendCloseAndMark_marked c _
  · split at hs
    · obtain rfl := FrameStep.stop.inj hs
      exact sendCloseAndMark_marked c _
    · unfold wsJoined at hs
      dsimp only at hs
      split_ifs at hs
      obtain rfl := FrameStep.stop.inj hs
      exact sendCloseAndMark_marked _ _

/-- a pass that stops has queued a CLOSE -/
theorem wsFrame_stop {conf : ServerConfig} {c v : Conn} (h : wsFrame conf c = .stop v) : v.closeAfterSend = true := by
  unfold wsFrame at h
  split at h
  · cases h
  · obtain rfl := FrameStep.stop.inj h
    exact sendCloseAndMark_marked c _
  · dsimp only at h
    split_ifs at h
    · obtain rfl := FrameStep.stop.inj h
      exact sendCloseAndMark_marked c _
    · exact wsControl_stop h
    · unfold wsData at h
      split_ifs at h
      · exact wsFragment_stop h
      · obtain rfl := FrameStep.stop.inj h
        exact sendCloseAndMark_marked _ _
      · obtain rfl := FrameStep.stop.inj h
        exact sendCloseAndMark_marked _ _
      · exact wsFragment_stop h
    · obtain rfl := FrameStep.stop.inj h
      exact sendCloseAndMark_marked c _

theorem wsFragment_waits (conf : ServerConfig) (c : Conn) (h : WsFrameHdr) (payload : Bytes) :
    (wsFragment conf c h payload).waits = false := by
  unfold wsFragment
  split_ifs
  · rfl
  · split
    · rfl
    · unfold wsJoined
      dsimp only
      split_ifs <;> rfl

/-- **What a pass waits for**: the rest of a header, or of a masked frame within the limit -/
theorem wsFrame_waits (conf : ServerConfig) (c : Conn) : (wsFrame conf c).waits = true ↔
    wsParseHeader (bufData c.rx) = .needMore ∨ ∃ h, wsParseHeader (bufData c.rx) = .ok h ∧ h.masked = true ∧
      h.payloadLen ≤ conf.maxFrame ∧ bufLen c.rx < h.headerLen + h.payloadLen := by
  unfold wsFrame
  cases hp : wsParseHeader (bufData c.rx) with
  | needMore => exact ⟨fun _ => .inl rfl, fun _ => rfl⟩
  | errProto =>
    constructor
    · intro h
      exact absurd h Bool.false_ne_true
    · rintro (h | ⟨_, h, _⟩) <;> cases h
  | ok h =>
    simp only [reduceCtorEq, false_or, WsRc.ok.injEq, exists_eq_left']
    have hlate : ¬ bufLen c.rx < h.headerLen + h.payloadLen → ∀ r : FrameStep, r.waits = false →
        (r.waits = true ↔ h.masked = true ∧ h.payloadLen ≤ conf.maxFrame ∧ bufLen c.rx < h.headerLen + h.payloadLen) := by
      intro hall r hr
      rw [hr]
      exact ⟨fun h => absurd h Bool.false_ne_true, fun h => absurd h.2.2 hall⟩
    split_ifs with hmask hbig hpart hctl
    · exact ⟨fun h => absurd h Bool.false_ne_true, fun h => absurd hbig (not_lt.2 h.2.1)⟩
    · exact ⟨fun _ => ⟨hmask, not_lt.1 hbig, hpart⟩, fun _ => rfl⟩
    · refine hlate hpart _ ?_
      unfold wsControl
      dsimp only
      split_ifs <;> rfl
    · refine hlate hpart _ ?_
      unfold wsData
      split_ifs
      · exact wsFragment_waits _ _ _ _
      · rfl
      · rfl
      · exact wsFragment_waits _ _ _ _
    · exact ⟨fun h => absurd h Bool.false_ne_true, fun h => absurd h.1 hmask⟩

/-- whether a frame is held depends on rx, and on the CLOSE queued -/
theorem holdsFrame_congr {conf : ServerConfig} {a b : Conn} (hclose : b.closeAfterSend = a.closeAfterSend) (hrx : b.rx = a.rx) :
    HoldsFrame conf b ↔ HoldsFrame conf a := by
  have hwaits : (wsFrame conf b).waits = (wsFrame conf a).waits := by
    rw [Bool.eq_iff_iff, wsFrame_waits, wsFrame_waits, hrx]
  unfold HoldsFrame
  rw [hclose, hwaits]

theorem HoldsFrame.congr {conf : ServerConfig} {a b : Conn} (h : HoldsFrame conf a)
    (hclose : b.closeAfterSend = a.closeAfterSend) (hrx : b.rx = a.rx) : HoldsFrame conf b :=
  (holdsFrame_congr hclose hrx).2 h

/-! ## What a worker leaves alone -/

/-- what a worker leaves alone while it works on a connection -/
structure Touch (a b : Conn) : Prop where
  id : b.id = a.id
  reg : b.reg = a.reg
  live : b.live = a.live
  pendingMsg : b.pendingMsg = a.pendingMsg

theorem Touch.refl (a : Conn) : Touch a a := ⟨rfl, rfl, rfl, rfl⟩

theorem SameShell.touch {a b : Conn} (h : SameShell a b) : Touch a b := ⟨h.id, h.reg, h.live, h.pendingMsg⟩

theorem wsOpenRead_touch (conf : ServerConfig) (sizes : List ℕ) (c : Conn) : Touch c (wsOpenRead conf sizes c).1 := by
  unfold wsOpenRead
  dsimp only
  split_ifs
  · have h := sendCloseAndMark_shell
      { c with
        rx := (bufRecv sizes c.sock c.rx 4096 (conf.maxMessage + conf.maxFrame)).2.1
        sock := (bufRecv sizes c.sock c.rx 4096 (conf.maxMessage + conf.maxFrame)).2.2 } 1009
    exact ⟨h.id, h.reg, h.live, h.pendingMsg⟩
  · exact ⟨rfl, rfl, rfl, rfl⟩

theorem flushTx_touch (sends : List SendRes) (c : Conn) : Touch c (flushTx sends c).2.1 := by
  rw [(flushTx_spec sends c).1]
  exact ⟨rfl, rfl, rfl, rfl⟩

theorem flushTx_same (conf : ServerConfig) (sends : List SendRes) (c : Conn) :
    (flushTx sends c).2.1.state = c.state ∧ (flushTx sends c).2.1.role = c.role ∧
      (HoldsFrame conf (flushTx sends c).2.1 ↔ HoldsFrame conf c) := by
  rw [(flushTx_spec sends c).1]
  exact ⟨rfl, rfl, holdsFrame_congr rfl rfl⟩

theorem wsOpenFlush_conn (sends : List SendRes) (eof : Bool) (c : Conn) :
    (wsOpenFlush sends eof c).2.1 = (flushTx sends c).2.1 := by
  unfold wsOpenFlush
  dsimp only
  split_ifs <;> rfl

theorem flushTx_decides (sends : List SendRes) (c : Conn) : (flushTx sends c).1.decides := by
  unfold flushTx
  dsimp only
  split_ifs <;> exact ⟨nofun, nofun⟩

theorem wsOpenFlush_decides (sends : List SendRes) (eof : Bool) (c : Conn) : (wsOpenFlush sends eof c).1.decides := by
  unfold wsOpenFlush
  dsimp only
  split_ifs
  · exact ⟨nofun, nofun⟩
  · exact flushTx_decides sends c

theorem handleHandshakeRead_ret {conf : ServerConfig} {sizes : List ℕ} {c v : Conn} {disp : Disposition}
    (h : handleHandshakeRead conf sizes c = .ret disp v) : Touch c v ∧ v.state = c.state ∧ disp.decides := by
  have hbehind := handleHandshakeRead_behind conf sizes c
  rw [h] at hbehind
  cases hbehind with
  | read _ hdisp =>
    refine ⟨⟨rfl, rfl, rfl, rfl⟩, rfl, ?_⟩
    rcases hdisp with rfl | rfl <;> exact ⟨nofun, nofun⟩

theorem handleHandshakeRead_send {conf : ServerConfig} {sizes : List ℕ} {c v : Conn}
    (h : handleHandshakeRead conf sizes c = .send v) : Touch c v ∧ v.state = .ST_HANDSHAKE_SEND := by
  have hbehind := handleHandshakeRead_behind conf sizes c
  rw [h] at hbehind
  cases hbehind with
  | tooLarge | answered => exact ⟨⟨rfl, rfl, rfl, rfl⟩, rfl⟩

theorem applyDisposition_id (c : Conn) (disp : Disposition) : (applyDisposition c disp).id = c.id := by
  cases disp <;> simp only [applyDisposition, rearmEpoll, connClose] <;> split_ifs <;> rfl

theorem applyDisposition_same (conf : ServerConfig) (c : Conn) (disp : Disposition) :
    (applyDisposition c disp).state = c.state ∧ (HoldsFrame conf (applyDisposition c disp) ↔ HoldsFrame conf c) := by
  have hrearm : ∀ out, (rearmEpoll c out).state = c.state ∧ (HoldsFrame conf (rearmEpoll c out) ↔ HoldsFrame conf c) := by
    intro out
    unfold rearmEpoll
    split_ifs <;> exact ⟨rfl, holdsFrame_congr rfl rfl⟩
  cases disp with
  | DISP_REARM_IN => exact hrearm false
  | DISP_REARM_OUT | DISP_REARM_INOUT => exact hrearm true
  | DISP_CLOSE | DISP_PARKED | DISP_HANDOFF => exact ⟨rfl, holdsFrame_congr rfl rfl⟩

/-! ## One step of a worker -/

/-- the connection a worker's place is about, also when it has given it away -/
def WPc.about (p : WPc) (c : ℕ) : Prop := p.holds = some c ∨ p = .parkDel c

/-- the message a worker holds -/
def WPc.carries : WPc → Option Msg
  | .check _ _ m | .push _ _ m | .parkStore _ m => some m
  | _ => none

/-- the registration a worker's place needs -/
def WPc.reg : WPc → Reg
  | .handoffPush _ => .absent
  | _ => .disabled

/-- the connection a worker works on, with no message in its hands -/
def WPc.works : WPc → Option ℕ
  | .run c | .hsSend c | .handoffDel c | .recv c | .loop c _ | .flush c _ | .apply c _ => some c
  | _ => none

theorem WPc.works_spec {p : WPc} {c : ℕ} (h : p.works = some c) :
    p.holds = some c ∧ p.carries = none ∧ p.reg = .disabled ∧ ∀ c', p ≠ .parkPush c' ∧ p ≠ .parkDel c' := by
  cases p with
  | run | hsSend | handoffDel | recv | loop | flush | apply => exact ⟨h, rfl, rfl, fun _ => ⟨nofun, nofun⟩⟩
  | _ => cases h

/-- one step of worker `w`, as the other threads see it -/
inductive WShift (conf : ServerConfig) (s : Srv) (w : ℕ) : Srv → Prop where
  | take (c : ℕ) (q : Queue ℕ) : s.workers w = .idle → s.queue.items = c :: q.items → q.shutdown = s.queue.shutdown →
      WShift conf s w ({ s with queue := q }.goto w (.run c))
  | think (c : ℕ) (v : Conn) (p : WPc) : (s.workers w).works = some c → p.works = some c → Touch (s.conn c) v →
      (Local (s.workers w) (s.conn c) → Local p v ∧ (LoopDone conf (s.workers w) (s.conn c) → LoopDone conf p v)) →
      WShift conf s w ((s.setConn c v).goto w p)
  | complete (c : ℕ) (eof : Bool) (m : Msg) (v : Conn) : s.workers w = .loop c eof → Touch (s.conn c) v →
      m.srcId = (s.conn c).id →
      WShift conf s w ({ s.setConn c v with completed := Function.update s.completed c (s.completed c ++ [m]) }.goto w
        (.check c eof m))
  | decide (c : ℕ) (eof : Bool) (m : Msg) (p : WPc) : s.workers w = .check c eof m →
      p = .parkStore c m ∨ p = .push c eof m → WShift conf s w (s.goto w p)
  | push (c : ℕ) (eof : Bool) (m : Msg) : s.workers w = .push c eof m →
      WShift conf s w ({ s with sys := { s.sys with dataQueue := push s.sys.dataQueue m } }.goto w (.loop c eof))
  | parkStore (c : ℕ) (m : Msg) : s.workers w = .parkStore c m →
      WShift conf s w ((s.setConn c { s.conn c with pendingMsg := some m }).goto w (.parkPush c))
  | parkPush (c : ℕ) : s.workers w = .parkPush c →
      WShift conf s w ({ s with sys := { s.sys with park := s.sys.park ++ [c] } }.goto w (.parkDel c))
  | parkDel (c : ℕ) : s.workers w = .parkDel c →
      WShift conf s w ((s.setConn c { s.conn c with reg := .absent }).goto w .idle)
  | handoffDel (c : ℕ) : s.workers w = .handoffDel c →
      WShift conf s w ((s.setConn c { s.conn c with reg := .absent }).goto w (.handoffPush c))
  | handoffPush (c : ℕ) : s.workers w = .handoffPush c →
      WShift conf s w ({ s with sys := { s.sys with ctrlQueue := WsServer.push s.sys.ctrlQueue (msgNewSinkAdd c) } }.goto w .idle)
  | apply (c : ℕ) (disp : Disposition) : s.workers w = .apply c disp →
      WShift conf s w ((s.setConn c (applyDisposition (s.conn c) disp)).goto w .idle)

variable {conf : ServerConfig} {s t : Srv} {w : ℕ} {e : WorkEnv}

theorem Srv.setConn_self (s : Srv) (c : ℕ) : s.setConn c (s.conn c) = s := by
  unfold Srv.setConn Srv.conn
  rw [Function.update_eq_self]

/-- it goes on without a change to the connection -/
theorem WShift.move {c : ℕ} {p : WPc} (hw : (s.workers w).works = some c) (hp : p.works = some c)
    (hl : Local (s.workers w) (s.conn c) → Local p (s.conn c) ∧ (LoopDone conf (s.workers w) (s.conn c) → LoopDone conf p (s.conn c))) :
    WShift conf s w (s.goto w p) := by
  have h := WShift.think c (s.conn c) p hw hp (.refl _) hl
  rwa [Srv.setConn_self] at h

/-- **What one step of a worker does.** -/
theorem workerStep_shift (h : workerStep conf s w e = some t) : WShift conf s w t := by
  unfold workerStep at h
  cases hw : s.workers w with
  | idle =>
    simp only [hw] at h
    unfold pop at h
    cases hq : s.queue.items with
    | nil => simp only [hq] at h; split_ifs at h
    | cons c q =>
      simp only [hq] at h
      obtain rfl := Option.some.inj h
      exact .take c _ hw hq rfl
  | run c =>
    have hworks : (s.workers w).works = some c := by rw [hw]; rfl
    simp only [hw] at h
    split at h
    · next hread =>
      split at h
      · next disp v hr =>
        obtain rfl := Option.some.inj h
        obtain ⟨htouch, hstate, hd⟩ := handleHandshakeRead_ret hr
        exact .think c v _ hworks rfl htouch fun _ => ⟨hd, fun _ _ hopen => by simp [hstate, hread] at hopen⟩
      · next v hr =>
        obtain rfl := Option.some.inj h
        obtain ⟨htouch, hstate⟩ := handleHandshakeRead_send hr
        exact .think c v _ hworks rfl htouch fun _ => ⟨hstate, fun _ => trivial⟩
    · next hstate =>
      obtain rfl := Option.some.inj h
      exact .move hworks rfl fun _ => ⟨hstate, fun _ => trivial⟩
    · obtain rfl := Option.some.inj h
      exact .move hworks rfl fun _ => ⟨trivial, fun _ => trivial⟩
  | hsSend c =>
    have hworks : (s.workers w).works = some c := by rw [hw]; rfl
    simp only [hw] at h
    have htouch := flushTx_touch e.sends (s.conn c)
    obtain ⟨hstate, hrole, -⟩ := flushTx_same conf e.sends (s.conn c)
    have hbehind := handleHandshakeSend_behind e.sends (s.conn c)
    cases hr : handleHandshakeSend e.sends (s.conn c)
    all_goals
      simp only [hr] at h hbehind
      obtain rfl := Option.some.inj h
    · cases hbehind with
      | ret =>
        refine .think c _ _ hworks rfl htouch fun hl => ⟨flushTx_decides _ _, fun _ _ hopen => ?_⟩
        rw [hw] at hl
        rw [hstate, show (s.conn c).state = _ from hl] at hopen
        cases hopen
    · cases hbehind with
      | handoff _ hsink => exact .think c _ _ hworks rfl htouch fun _ => ⟨hrole.trans hsink, fun _ => trivial⟩
    · cases hbehind with
      | wsOpen =>
        exact .think c _ _ hworks rfl ⟨htouch.id, htouch.reg, htouch.live, htouch.pendingMsg⟩ fun _ =>
          ⟨trivial, fun _ => trivial⟩
  | handoffDel c => simp only [hw] at h; obtain rfl := Option.some.inj h; exact .handoffDel c hw
  | handoffPush c => simp only [hw] at h; obtain rfl := Option.some.inj h; exact .handoffPush c hw
  | recv c =>
    simp only [hw] at h
    obtain rfl := Option.some.inj h
    exact .think c _ _ (by rw [hw]; rfl) rfl (wsOpenRead_touch _ _ _) fun _ => ⟨trivial, fun _ => trivial⟩
  | loop c eof =>
    have hworks : (s.workers w).works = some c := by rw [hw]; rfl
    have hshell := wsFrame_shell conf (s.conn c)
    simp only [hw] at h
    split at h
    · next hclose =>
      obtain rfl := Option.some.inj h
      exact .move hworks rfl fun _ => ⟨trivial, fun _ hf => by simp [hf.1] at hclose⟩
    · split at h
      · next hr =>
        obtain rfl := Option.some.inj h
        exact .move hworks rfl fun _ => ⟨trivial, fun _ hf => by simp [HoldsFrame, hr, FrameStep.waits] at hf⟩
      · next v hr =>
        rw [hr] at hshell
        obtain rfl := Option.some.inj h
        exact .think c v _ hworks rfl hshell.touch fun _ => ⟨trivial, fun _ hf => absurd hf.1 (by simp [wsFrame_stop hr])⟩
      · next v hr =>
        rw [hr] at hshell
        obtain rfl := Option.some.inj h
        exact .think c v _ hworks rfl hshell.touch fun _ => ⟨trivial, fun _ => trivial⟩
      · next v opcode data hr =>
        rw [hr] at hshell
        obtain rfl := Option.some.inj h
        exact .complete c eof _ v hw hshell.touch hshell.id
  | check c eof m =>
    simp only [hw] at h
    obtain rfl := Option.some.inj h
    refine .decide c eof m _ hw ?_
    split_ifs <;> simp
  | push c eof m => simp only [hw] at h; obtain rfl := Option.some.inj h; exact .push c eof m hw
  | parkStore c m => simp only [hw] at h; obtain rfl := Option.some.inj h; exact .parkStore c m hw
  | parkPush c => simp only [hw] at h; obtain rfl := Option.some.inj h; exact .parkPush c hw
  | parkDel c => simp only [hw] at h; obtain rfl := Option.some.inj h; exact .parkDel c hw
  | flush c eof =>
    simp only [hw] at h
    obtain rfl := Option.some.inj h
    have htouch := flushTx_touch e.sends (s.conn c)
    obtain ⟨-, -, hframe⟩ := flushTx_same conf e.sends (s.conn c)
    rw [← wsOpenFlush_conn e.sends eof] at htouch hframe
    refine .think c _ _ (by rw [hw]; rfl) rfl htouch fun _ => ⟨wsOpenFlush_decides _ _ _, fun hserved _ _ hf => ?_⟩
    rw [hw] at hserved
    exact hserved (hframe.1 hf)
  | apply c disp => simp only [hw] at h; obtain rfl := Option.some.inj h; exact .apply c disp hw

end WsServer
