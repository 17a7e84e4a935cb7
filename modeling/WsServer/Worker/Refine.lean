/-
The frame loop of a worker follows the documented rules.

`Agrees c asm` relates a connection to the open message of `Proto/Rules.lean`: the fragments joined in `msg`, and for a
TEXT the validator state reached on them. One pass of the loop is one move of the rules (`wsFrame_follows`), so the loop
is the pass (`wsLoop_looped`).

What the two handlers of the opening handshake leave is said once, by `handleHandshakeRead_behind` and
`handleHandshakeSend_behind`.
-/
import Mathlib
import WsServer.Proto.Rules
import WsServer.Worker.Worker

namespace WsServer

open Ws

/-! ## What the frame loop leaves alone -/

/-- the fields of a connection that the loop does not touch -/
structure SameShell (c c' : Conn) : Prop where
  id : c'.id = c.id
  role : c'.role = c.role
  state : c'.state = c.state
  pendingMsg : c'.pendingMsg = c.pendingMsg
  sock : c'.sock = c.sock
  reg : c'.reg = c.reg
  live : c'.live = c.live

theorem SameShell.refl (c : Conn) : SameShell c c := ⟨rfl, rfl, rfl, rfl, rfl, rfl, rfl⟩

theorem SameShell.after {a b c : Conn} (g : SameShell b c) (h : SameShell a b) : SameShell a c :=
  ⟨g.id.trans h.id, g.role.trans h.role, g.state.trans h.state, g.pendingMsg.trans h.pendingMsg, g.sock.trans h.sock,
    g.reg.trans h.reg, g.live.trans h.live⟩

theorem sendCloseAndMark_shell (c : Conn) (code : ℕ) : SameShell c (sendCloseAndMark c code) := by
  unfold sendCloseAndMark
  split_ifs
  · exact .refl c
  · exact ⟨rfl, rfl, rfl, rfl, rfl, rfl, rfl⟩

@[simp] theorem sendCloseAndMark_marked (c : Conn) (code : ℕ) : (sendCloseAndMark c code).closeAfterSend = true := by
  unfold sendCloseAndMark
  split_ifs with h
  · exact h
  · rfl

/-- the first CLOSE goes to tx -/
theorem sendCloseAndMark_tx {c : Conn} (h : c.closeAfterSend = false) (code : ℕ) :
    bufData (sendCloseAndMark c code).tx = bufData c.tx ++ frameNew opClose (codeBytes code) := by
  unfold sendCloseAndMark
  rw [if_neg (by simp [h])]
  simp

theorem sendCloseAndMark_of_marked {c : Conn} (h : c.closeAfterSend = true) (code : ℕ) : sendCloseAndMark c code = c := by
  unfold sendCloseAndMark; rw [if_pos h]

/-- the connection a pass of the loop goes on with -/
def FrameStep.conn (c : Conn) : FrameStep → Conn
  | .wait => c
  | .stop c' => c'
  | .next c' => c'
  | .message c' _ _ => c'

theorem wsControl_shell (c d : Conn) (h : WsFrameHdr) (payload : Bytes) :
    SameShell c ((wsControl c h payload).conn d) := by
  unfold wsControl
  split_ifs
  · exact ⟨rfl, rfl, rfl, rfl, rfl, rfl, rfl⟩
  · have hs := sendCloseAndMark_shell c (closeAnswer payload)
    exact ⟨hs.id, hs.role, hs.state, hs.pendingMsg, hs.sock, hs.reg, hs.live⟩
  · exact ⟨rfl, rfl, rfl, rfl, rfl, rfl, rfl⟩

theorem wsJoined_shell (c d : Conn) (fin : Bool) : SameShell c ((wsJoined c fin).conn d) := by
  unfold wsJoined
  dsimp only
  split_ifs
  · exact (sendCloseAndMark_shell _ 1007).after ⟨rfl, rfl, rfl, rfl, rfl, rfl, rfl⟩
  · exact ⟨rfl, rfl, rfl, rfl, rfl, rfl, rfl⟩
  · exact ⟨rfl, rfl, rfl, rfl, rfl, rfl, rfl⟩

theorem wsFragment_shell (conf : ServerConfig) (c d : Conn) (h : WsFrameHdr) (payload : Bytes) :
    SameShell c ((wsFragment conf c h payload).conn d) := by
  unfold wsFragment
  split_ifs
  · exact sendCloseAndMark_shell c 1009
  · cases feedFragment c h payload with
    | none => exact sendCloseAndMark_shell c 1007
    | some st =>
      dsimp only
      exact (wsJoined_shell _ d h.fin).after ⟨rfl, rfl, rfl, rfl, rfl, rfl, rfl⟩

theorem wsData_shell (conf : ServerConfig) (c d : Conn) (h : WsFrameHdr) (payload : Bytes) :
    SameShell c ((wsData conf c h payload).conn d) := by
  unfold wsData
  split_ifs
  · exact wsFragment_shell conf c d h payload
  · exact sendCloseAndMark_shell c 1002
  · exact sendCloseAndMark_shell c 1002
  · exact (wsFragment_shell conf _ d h payload).after ⟨rfl, rfl, rfl, rfl, rfl, rfl, rfl⟩

theorem wsFrame_shell (conf : ServerConfig) (c : Conn) : SameShell c ((wsFrame conf c).conn c) := by
  unfold wsFrame
  split
  · exact .refl c
  · exact sendCloseAndMark_shell c 1002
  · dsimp only
    split_ifs
    · exact sendCloseAndMark_shell c 1009
    · exact .refl c
    · exact (wsControl_shell _ c _ _).after ⟨rfl, rfl, rfl, rfl, rfl, rfl, rfl⟩
    · exact (wsData_shell conf _ c _ _).after ⟨rfl, rfl, rfl, rfl, rfl, rfl, rfl⟩
    · exact sendCloseAndMark_shell c 1002

/-! ## One pass of the loop is one move of the rules -/

/-- the rules a source has to follow -/
def workerLimits (conf : ServerConfig) : Rules.Limits := ⟨true, conf.maxFrame, conf.maxMessage⟩

/-- the connection holds the open message of the rules -/
structure Agrees (c : Conn) (asm : Rules.Assembly) : Prop where
  opened : c.closeAfterSend = false
  fragmenting : c.fragmenting = asm.isSome
  joined : ∀ op d, asm = some (op, d) →
    c.msgOpcode = op ∧ bufData c.msg = d ∧ (op = opText → wsUtf8Feed wsUtf8Reset d = some c.msgUtf8)

/-- a pass of the loop from `c` does what a move says: the bytes left, the answers added to tx, the open message -/
inductive Follows (c : Conn) : FrameStep → Rules.Move → Prop where
  | wait : Follows c .wait .more
  | stop {c' : Conn} {s : Rules.Stop} : c'.closeAfterSend = true →
      bufData c'.tx = bufData c.tx ++ frameNew opClose (codeBytes s.code) → Follows c (.stop c') (.stop s)
  | next {c' : Conn} {asm : Rules.Assembly} {events : List Rules.Event} {rest : Bytes} : Agrees c' asm →
      bufData c'.rx = rest → bufData c'.tx = bufData c.tx ++ (Rules.pings events).flatMap (frameNew opPong) →
      Rules.messages events = [] → Follows c (.next c') (.go asm events rest)
  | message {c' : Conn} {op : ℕ} {d : Bytes} {rest : Bytes} : Agrees c' none → bufData c'.rx = rest →
      bufData c'.tx = bufData c.tx → Follows c (.message c' op d) (.go none [.message op d] rest)

theorem wsIsValidCloseCode_iff (code : ℕ) : wsIsValidCloseCode code = true ↔ Rules.AllowedCode code := by
  simp [wsIsValidCloseCode, Rules.AllowedCode]

theorem closeAnswer_eq (payload : Bytes) : closeAnswer payload = Rules.closeCode payload := by
  match payload with
  | [] => rfl
  | [_] => rfl
  | a :: b :: reason =>
    have hcode : beNat ((a :: b :: reason).take 2) = a.toNat * 256 + b.toNat := by
      simp [beNat, shift_or]
    have hlen : ¬ (a :: b :: reason).length = 1 := by simp
    have hlen2 : 2 ≤ (a :: b :: reason).length := by simp
    unfold closeAnswer Rules.closeCode
    rw [if_neg hlen, if_pos hlen2]
    dsimp only
    rw [hcode]
    simp only [← wsIsValidCloseCode_iff]
    have hreason : ((wsUtf8Feed wsUtf8Reset ((a :: b :: reason).drop 2)).all fun st => ¬ wsUtf8Done st) = true ↔
        ¬ Utf8.WellFormed reason := by
      rw [wsUtf8Feed_wellFormed]
      show ((wsUtf8Feed wsUtf8Reset reason).all fun st => ¬ wsUtf8Done st) = true ↔ _
      cases wsUtf8Feed wsUtf8Reset reason <;> simp
    simp only [hreason]

/-- a CLOSE is queued in the state the rules stop in -/
theorem Follows.of_close {c : Conn} (h : c.closeAfterSend = false) {code : ℕ} :
    Follows c (.stop (sendCloseAndMark c code)) (.stop (.violation code)) :=
  .stop (sendCloseAndMark_marked c code) (sendCloseAndMark_tx h code)

/-- only tx of the first connection matters -/
theorem Follows.of_tx {c d : Conn} {fs : FrameStep} {mv : Rules.Move} (h : Follows d fs mv)
    (htx : bufData d.tx = bufData c.tx) : Follows c fs mv := by
  cases h with
  | wait => exact .wait
  | stop h1 h2 => exact .stop h1 (htx ▸ h2)
  | next h1 h2 h3 h4 => exact .next h1 h2 (htx ▸ h3) h4
  | message h1 h2 h3 => exact .message h1 h2 (htx ▸ h3)

variable {conf : ServerConfig} {c : Conn} {asm : Rules.Assembly} {h : WsFrameHdr} {payload : Bytes}

variable (payload) in
theorem wsControl_follows (ha : Agrees c asm) (hop : IsOpcode h.opcode) (hctl : h.opcode &&& 0x8 ≠ 0) (lim : Rules.Limits) :
    Follows c (wsControl c h payload)
      ((Rules.judge lim asm h.fin h.opcode payload).move ((bufData c.rx).drop (h.headerLen + h.payloadLen))) := by
  unfold wsControl Rules.judge
  by_cases hping : h.opcode = opPing
  · rw [if_pos hping, if_pos hping]
    exact .next ⟨ha.opened, ha.fragmenting, ha.joined⟩ (by simp) (by simp [Rules.pings]) rfl
  rw [if_neg hping, if_neg hping]
  by_cases hclose : h.opcode = opClose
  · rw [if_pos hclose, if_neg (by rw [hclose]; decide), if_pos hclose]
    refine .stop (sendCloseAndMark_marked c _) ?_
    show bufData (sendCloseAndMark c _).tx = _
    rw [sendCloseAndMark_tx ha.opened, closeAnswer_eq]
    rfl
  · have hpong : h.opcode = opPong := by
      rcases hop with h' | h' | h' | h' | h' | h'
      · rw [h'] at hctl; exact absurd rfl hctl
      · rw [h'] at hctl; exact absurd rfl hctl
      · rw [h'] at hctl; exact absurd rfl hctl
      · exact absurd h' hclose
      · exact absurd h' hping
      · exact h'
    rw [if_neg hclose, if_pos hpong]
    exact .next ⟨ha.opened, ha.fragmenting, ha.joined⟩ (by simp) (by simp [Rules.pings]) rfl

/-- the state after a fragment stands for the bytes joined so far -/
theorem wsJoined_follows {op : ℕ} {d rest : Bytes} {fin : Bool} (ha : Agrees c (some (op, d)))
    (hrx : bufData c.rx = rest) :
    Follows c (wsJoined c fin)
      ((if ¬ fin then Rules.Judgement.go (some (op, d)) []
        else if op = opText ∧ ¬ Utf8.WellFormed d then .stop (.violation 1007)
        else .go none [.message op d]).move rest) := by
  obtain ⟨hop, hd, hutf⟩ := ha.joined op d rfl
  unfold wsJoined
  cases fin with
  | false => exact .next ha hrx (by simp [Rules.pings]) rfl
  | true =>
    simp only [not_true, if_false]
    have hdone : (c.msgOpcode = opText ∧ ¬ wsUtf8Done c.msgUtf8 = true) ↔ (op = opText ∧ ¬ Utf8.WellFormed d) := by
      rw [hop]
      refine and_congr_right fun ht => not_congr ?_
      rw [wsUtf8Feed_wellFormed, hutf ht]
      simp
    by_cases hbad : op = opText ∧ ¬ Utf8.WellFormed d
    · rw [if_pos hbad, if_pos (hdone.2 hbad)]
      exact .stop (sendCloseAndMark_marked _ _) (sendCloseAndMark_tx (c := { c with fragmenting := false }) ha.opened _)
    · rw [if_neg hbad, if_neg (fun hb => hbad (hdone.1 hb))]
      simp only [hop, hd, Rules.Judgement.move]
      exact .message ⟨ha.opened, rfl, by simp⟩ hrx rfl

theorem feedFragment_eq {op : ℕ} {d : Bytes} (ha : Agrees c (some (op, d))) (hlen : h.payloadLen = payload.length) :
    (op = opText → feedFragment c h payload = wsUtf8Feed wsUtf8Reset (d ++ payload)) ∧
      (op ≠ opText → feedFragment c h payload = some c.msgUtf8) := by
  obtain ⟨hop, -, hutf⟩ := ha.joined op d rfl
  unfold feedFragment
  rw [hop]
  constructor
  · intro ht
    rw [wsUtf8Feed_append, hutf ht]
    by_cases hp : 0 < h.payloadLen
    · rw [if_pos ⟨ht, hp⟩]; rfl
    · have : payload = [] := List.eq_nil_of_length_eq_zero (by omega)
      rw [if_neg (fun hh => hp hh.2), this]; rfl
  · intro ht
    rw [if_neg (fun hh => ht hh.1)]

theorem wsFragment_follows {op : ℕ} {d : Bytes} (ha : Agrees c (some (op, d)))
    (hlen : h.payloadLen = payload.length) :
    Follows c (wsFragment conf c h payload)
      ((Rules.judgeFragment (workerLimits conf) op d h.fin payload).move
        ((bufData c.rx).drop (h.headerLen + h.payloadLen))) := by
  obtain ⟨hop, hd, hutf⟩ := ha.joined op d rfl
  obtain ⟨hfeedT, hfeedB⟩ := feedFragment_eq ha hlen
  have hsize : (conf.maxMessage < bufLen c.msg + h.payloadLen) ↔
      ((workerLimits conf).maxMessage < d.length + payload.length) := by
    rw [← length_bufData, hd, hlen]; rfl
  unfold wsFragment Rules.judgeFragment
  by_cases hbig : (workerLimits conf).maxMessage < d.length + payload.length
  · rw [if_pos hbig, if_pos (hsize.2 hbig)]
    exact .of_close ha.opened
  rw [if_neg hbig, if_neg (fun hb => hbig (hsize.1 hb))]
  cases hf : feedFragment c h payload with
  | none =>
    have ht : op = opText := by
      by_contra ht; rw [hfeedB ht] at hf; cases hf
    have hv : ¬ Utf8.Viable (d ++ payload) := by
      rw [wsUtf8Feed_viable, ← hfeedT ht, hf]; simp
    rw [if_pos ⟨ht, hv⟩]
    exact .of_close ha.opened
  | some st =>
    have hv : op = opText → Utf8.Viable (d ++ payload) := by
      intro ht; rw [wsUtf8Feed_viable, ← hfeedT ht, hf]; rfl
    rw [if_neg (fun hh => hh.2 (hv hh.1))]
    have hj : Agrees { c with
        msgUtf8 := st
        msg := bufAppend true c.msg payload
        rx := bufConsume c.rx (h.headerLen + h.payloadLen) } (some (op, d ++ payload)) := by
      refine ⟨ha.opened, ha.fragmenting, ?_⟩
      rintro op' d' he
      cases he
      exact ⟨hop, by simp [hd], fun ht => by rw [← hfeedT ht, hf]⟩
    exact (wsJoined_follows hj (bufConsume_data _ _)).of_tx rfl

variable (conf) in
theorem wsData_follows (ha : Agrees c asm) (hdata : h.opcode &&& 0x8 = 0)
    (hlen : h.payloadLen = payload.length) :
    Follows c (wsData conf c h payload)
      ((Rules.judge (workerLimits conf) asm h.fin h.opcode payload).move
        ((bufData c.rx).drop (h.headerLen + h.payloadLen))) := by
  have h8 : h.opcode ≠ opPing ∧ h.opcode ≠ opPong ∧ h.opcode ≠ opClose := by
    refine ⟨?_, ?_, ?_⟩ <;> intro he <;> rw [he] at hdata <;> exact absurd hdata (by decide)
  unfold wsData Rules.judge Rules.belongsTo
  rw [if_neg h8.1, if_neg h8.2.1, if_neg h8.2.2]
  by_cases hcont : h.opcode = opCont
  · rw [if_pos hcont, if_pos hcont]
    cases asm with
    | none =>
      rw [if_pos (by rw [ha.fragmenting]; simp)]
      exact .of_close ha.opened
    | some od =>
      rw [if_neg (by rw [ha.fragmenting]; simp)]
      exact wsFragment_follows ha hlen
  · rw [if_neg hcont, if_neg hcont]
    cases asm with
    | some od =>
      rw [if_pos (by rw [ha.fragmenting]; rfl), if_pos (by rfl)]
      exact .of_close ha.opened
    | none =>
      rw [if_neg (by rw [ha.fragmenting]; simp), if_neg (by simp)]
      have hj : Agrees { c with
          msgOpcode := h.opcode
          fragmenting := true
          msg := bufReset c.msg
          msgUtf8 := wsUtf8Reset } (some (h.opcode, [])) := by
        refine ⟨ha.opened, rfl, ?_⟩
        rintro op' d' he
        cases he
        exact ⟨rfl, by simp, fun _ => rfl⟩
      exact (wsFragment_follows hj hlen).of_tx rfl

variable (conf) in
/-- **One pass of the loop is one move of the rules.** -/
theorem wsFrame_follows (ha : Agrees c asm) :
    Follows c (wsFrame conf c) (Rules.move (workerLimits conf) asm (bufData c.rx)) := by
  unfold wsFrame Rules.move Rules.readFrame
  cases hp : wsParseHeader (bufData c.rx) with
  | needMore => exact .wait
  | errProto => exact .of_close ha.opened
  | ok h =>
    dsimp only
    have hg := wsParseHeader_good hp
    cases hmask : h.masked with
    | false =>
      rw [if_pos (show ¬ false = true by simp), if_pos (show false ≠ (workerLimits conf).masked by simp [workerLimits])]
      exact .of_close ha.opened
    | true =>
      rw [if_neg (show ¬ ¬ true = true by simp), if_neg (show ¬ true ≠ (workerLimits conf).masked by simp [workerLimits])]
      by_cases hbig : conf.maxFrame < h.payloadLen
      · rw [if_pos hbig, if_pos (show (workerLimits conf).maxFrame < h.payloadLen from hbig)]
        exact .of_close ha.opened
      rw [if_neg hbig, if_neg (show ¬ (workerLimits conf).maxFrame < h.payloadLen from hbig), length_bufData]
      by_cases hshort : bufLen c.rx < h.headerLen + h.payloadLen
      · rw [if_pos hshort, if_pos hshort]
        exact .wait
      rw [if_neg hshort, if_neg hshort]
      have hpay : Rules.payloadOf h (bufData c.rx) =
          wsUnmask (((bufData c.rx).drop h.headerLen).take h.payloadLen) h.maskKey := by
        rw [Rules.payloadOf, if_pos hmask]
      have hlen : h.payloadLen =
          (wsUnmask (((bufData c.rx).drop h.headerLen).take h.payloadLen) h.maskKey).length := by
        rw [length_wsUnmask, List.length_take, List.length_drop, length_bufData]; omega
      have hdrop := bufUnmask_drop c.rx h.headerLen h.payloadLen h.maskKey (by omega)
      have hu : Agrees { c with rx := bufUnmask c.rx h.headerLen h.payloadLen h.maskKey } asm :=
        ⟨ha.opened, ha.fragmenting, ha.joined⟩
      rw [hpay]
      dsimp only
      by_cases hctl : h.opcode &&& 0x8 = 0
      · rw [if_neg (fun hh => hh hctl)]
        have hf := wsData_follows conf hu hctl hlen
        rw [hdrop] at hf
        exact hf.of_tx rfl
      · rw [if_pos hctl]
        have hf := wsControl_follows (wsUnmask (((bufData c.rx).drop h.headerLen).take h.payloadLen) h.maskKey)
          hu hg.opcode hctl (workerLimits conf)
        rw [hdrop] at hf
        exact hf.of_tx rfl

/-! ## The loop is the pass -/

/-- opcode and payload of the messages -/
def contents (ms : List Msg) : List (ℕ × Bytes) := ms.map fun m => (m.opcode, m.data)

@[simp] theorem contents_append (xs ys : List Msg) : contents (xs ++ ys) = contents xs ++ contents ys :=
  List.map_append

/-- the PONGs a list of events is answered with -/
def pongs (events : List Rules.Event) : Bytes := (Rules.pings events).flatMap (frameNew opPong)

@[simp] theorem pongs_append (xs ys : List Rules.Event) : pongs (xs ++ ys) = pongs xs ++ pongs ys := by
  simp [pongs]

/-- how the loop ends where a pass ends: with the rest of the pass in rx, with a CLOSE queued, or parked after a
message of it -/
inductive Looped (conf : ServerConfig) (c : Conn) (p : Rules.Pass) : LoopEnd × List Msg → Prop where
  | rest {c' : Conn} {pushed : List Msg} : p.stop = none → Agrees c' p.asm → bufData c'.rx = p.rest →
      bufData c'.tx = bufData c.tx ++ pongs p.events → contents pushed = Rules.messages p.events →
      Looped conf c p (.done c', pushed)
  | closed {c' : Conn} {pushed : List Msg} {s : Rules.Stop} : p.stop = some s → c'.closeAfterSend = true →
      bufData c'.tx = bufData c.tx ++ pongs p.events ++ frameNew opClose (codeBytes s.code) →
      contents pushed = Rules.messages p.events → Looped conf c p (.done c', pushed)
  | parked {c' : Conn} {m : Msg} {pushed : List Msg} {events : List Rules.Event} {rest : Bytes} :
      p = (Rules.pass (workerLimits conf) none rest).after events → Agrees c' none → bufData c'.rx = rest →
      bufData c'.tx = bufData c.tx ++ pongs events → contents (pushed ++ [m]) = Rules.messages events →
      Looped conf c p (.park c' m, pushed)

/-- the rest of the loop, seen from before one more move -/
theorem Looped.after {c c' : Conn} {p : Rules.Pass} {r : LoopEnd × List Msg} {events : List Rules.Event}
    {ms : List Msg} (h : Looped conf c' p r) (htx : bufData c'.tx = bufData c.tx ++ pongs events)
    (hms : contents ms = Rules.messages events) : Looped conf c (p.after events) (r.1, ms ++ r.2) := by
  cases h with
  | rest h1 h2 h3 h4 h5 =>
    refine .rest h1 h2 h3 ?_ ?_
    · rw [h4, htx, Rules.Pass.after, pongs_append, List.append_assoc]
    · rw [contents_append, hms, h5, Rules.Pass.after, Rules.messages_append]
  | closed h1 h2 h3 h4 =>
    refine .closed h1 h2 ?_ ?_
    · rw [h3, htx, Rules.Pass.after, pongs_append]; simp only [List.append_assoc]
    · rw [contents_append, hms, h4, Rules.Pass.after, Rules.messages_append]
  | @parked _ _ _ events' rest h1 h2 h3 h4 h5 =>
    refine @Looped.parked _ _ _ _ _ _ (events ++ events') rest ?_ h2 h3 ?_ ?_
    · rw [h1]; simp only [Rules.Pass.after, List.append_assoc]
    · rw [h4, htx, pongs_append, List.append_assoc]
    · rw [List.append_assoc, contents_append, hms, h5, Rules.messages_append]

variable (conf) in
/-- **The loop is the pass** over what is in rx; the fuel never decides. -/
theorem wsLoop_looped (fuel : ℕ) (marks : List (Timespec × ℕ)) (ha : Agrees c asm) (hfuel : bufLen c.rx < fuel) :
    Looped conf c (Rules.pass (workerLimits conf) asm (bufData c.rx)) (wsLoop conf fuel marks c) := by
  induction fuel generalizing marks c asm with
  | zero => omega
  | succ fuel ih =>
    unfold wsLoop
    rw [if_neg (by rw [ha.opened]; simp)]
    have hf := wsFrame_follows conf ha
    cases hm : Rules.move (workerLimits conf) asm (bufData c.rx) with
    | more =>
      rw [hm] at hf
      cases hw : wsFrame conf c with
      | wait =>
        rw [Rules.pass_more hm]
        exact .rest rfl ha rfl (by simp [pongs, Rules.pings]) rfl
      | stop c' => rw [hw] at hf; cases hf
      | next c' => rw [hw] at hf; cases hf
      | message c' op d => rw [hw] at hf; cases hf
    | stop s =>
      rw [hm] at hf
      cases hw : wsFrame conf c with
      | wait => rw [hw] at hf; cases hf
      | stop c' =>
        rw [hw] at hf
        cases hf with
        | stop h1 h2 =>
          rw [Rules.pass_stop hm]
          exact .closed rfl h1 (by simpa [pongs, Rules.pings] using h2) rfl
      | next c' => rw [hw] at hf; cases hf
      | message c' op d => rw [hw] at hf; cases hf
    | go asm' events rest =>
      have hlt := Rules.move_go_length hm
      rw [length_bufData] at hlt
      rw [hm] at hf
      rw [Rules.pass_go hm]
      cases hw : wsFrame conf c with
      | wait => rw [hw] at hf; cases hf
      | stop c' => rw [hw] at hf; cases hf
      | next c' =>
        rw [hw] at hf
        cases hf with
        | next h1 h2 h3 h4 =>
          have hr := ih marks h1 (by rw [← length_bufData, h2]; omega)
          rw [h2] at hr
          simpa using hr.after h3 (show contents ([] : List Msg) = _ from h4.symm)
      | message c' op d =>
        rw [hw] at hf
        cases hf with
        | message h1 h2 h3 =>
          have htx : bufData c'.tx = bufData c.tx ++ pongs [.message op d] := by simp [pongs, Rules.pings, h3]
          dsimp only
          split_ifs with hpark
          · exact .parked rfl h1 h2 htx rfl
          · have hr := ih marks.tail h1 (by rw [← length_bufData, h2]; omega)
            rw [h2] at hr
            exact hr.after htx (show contents [msgNewData c'.id op (marks.headD (⟨0, 0⟩, 0)).1 d] = _ from rfl)

variable (conf) in
/-- with the queue below the high watermark nothing is parked -/
theorem wsLoop_noPark (fuel : ℕ) {marks : List (Timespec × ℕ)} (hm : ∀ mk ∈ marks, mk.2 < conf.highWatermark) (c c' : Conn)
    (m : Msg) : (wsLoop conf fuel marks c).1 ≠ .park c' m := by
  have hpos : 0 < conf.highWatermark := Nat.lt_of_le_of_lt (Nat.zero_le _) conf.low_lt_high
  induction fuel generalizing marks c with
  | zero => simp [wsLoop]
  | succ fuel ih =>
    unfold wsLoop
    split_ifs
    · simp
    · cases wsFrame conf c with
      | wait => simp
      | stop _ => simp
      | next d => exact ih hm d
      | message d op data =>
        have hhead : (marks.headD (⟨0, 0⟩, 0)).2 < conf.highWatermark := by
          cases marks with
          | nil => exact hpos
          | cons mk rest => exact hm mk List.mem_cons_self
        dsimp only
        rw [if_neg (by omega)]
        exact ih (fun mk hmk => hm mk (List.mem_of_mem_tail hmk)) d

/-- the connection a loop ends with -/
def LoopEnd.conn : LoopEnd → Conn
  | .done c => c
  | .park c _ => c

variable (conf) in
/-- the loop leaves the shell of the connection alone -/
theorem wsLoop_shell (fuel : ℕ) (marks : List (Timespec × ℕ)) (c : Conn) :
    SameShell c (wsLoop conf fuel marks c).1.conn := by
  induction fuel generalizing marks c with
  | zero => exact .refl c
  | succ fuel ih =>
    have hs := wsFrame_shell conf c
    unfold wsLoop
    split_ifs
    · exact .refl c
    · cases hw : wsFrame conf c with
      | wait => exact .refl c
      | stop c' => rw [hw] at hs; exact hs
      | next c' => rw [hw] at hs; exact (ih marks c').after hs
      | message c' op d =>
        rw [hw] at hs
        dsimp only
        split_ifs
        · exact hs
        · exact (ih marks.tail c').after hs

/-! ## The flush -/

/-- what a flush leaves: the connection with the rest in tx, and it goes on only if it is not marked -/
theorem flushTx_spec (sends : List SendRes) (c : Conn) :
    (flushTx sends c).2.1 = { c with tx := (bufSend sends c.tx).2.1 } ∧
      (flushTx sends c).2.2 ++ bufData (flushTx sends c).2.1.tx = bufData c.tx ∧
      ((flushTx sends c).1 = .DISP_REARM_IN → c.closeAfterSend = false) := by
  have hdata := bufSend_data sends c.tx
  unfold flushTx
  dsimp only
  split_ifs with h1 h2 h3
  · exact ⟨rfl, hdata, nofun⟩
  · exact ⟨rfl, hdata, nofun⟩
  · exact ⟨rfl, hdata, nofun⟩
  · exact ⟨rfl, hdata, fun _ => Bool.eq_false_iff.2 h3⟩

/-! ## The opening handshake -/

/-- the response to a request -/
def hsResponse (hr : HandshakeResult) : Bytes :=
  match hr.status with
  | .HS_OK => httpBuildUpgradeResponse hr.acceptKey
  | .HS_BAD_VERSION => httpBuildError 426 "Upgrade Required" "Sec-WebSocket-Version: 13\r\n"
  | _ => httpBuildError 400 "Bad Request" ""

/-- the response to a header that is too long -/
def hsTooLarge : Bytes := httpBuildError 431 "Request Header Fields Too Large" ""

/-- where `handleHandshakeRead` goes on when `bufRecv` has returned `r` -/
inductive HsRead.Behind (conf : ServerConfig) (c : Conn) (r : ℤ × Buf × Sock) : HsRead → Prop where
  /-- it has read, and nothing else -/
  | read (disp : Disposition) : disp = .DISP_CLOSE ∨ disp = .DISP_REARM_IN →
      Behind conf c r (.ret disp { c with rx := r.2.1, sock := r.2.2 })
  | tooLarge : Behind conf c r (.send { c with
      rx := r.2.1, sock := r.2.2, tx := bufAppend true c.tx hsTooLarge, closeAfterSend := true, state := .ST_HANDSHAKE_SEND })
  | answered (n : ℕ) (hr : HandshakeResult) (role : Role) (mark : Bool) : hr = httpParseHandshake ((bufData r.2.1).take n) →
      (role = .ROLE_UNDECIDED → mark = true) →
      Behind conf c r (.send { c with
        rx := bufConsume r.2.1 n, sock := r.2.2, tx := bufAppend true c.tx (hsResponse hr), closeAfterSend := mark,
        role := role, state := .ST_HANDSHAKE_SEND })

theorem handleHandshakeRead_behind (conf : ServerConfig) (sizes : List ℕ) (c : Conn) :
    HsRead.Behind conf c (bufRecv sizes c.sock c.rx 4096 conf.handshakeMax) (handleHandshakeRead conf sizes c) := by
  unfold handleHandshakeRead
  generalize bufRecv sizes c.sock c.rx 4096 conf.handshakeMax = r
  dsimp only
  by_cases h1 : r.1 = -1
  · rw [if_pos h1]
    exact .read _ (.inl rfl)
  by_cases h2 : r.1 = -2
  · rw [if_neg h1, if_pos h2]
    exact .tooLarge
  by_cases h3 : r.1 = 0
  · rw [if_neg h1, if_neg h2, if_pos h3]
    exact .read _ (.inr rfl)
  rw [if_neg h1, if_neg h2, if_neg h3]
  cases httpFindHeaderEnd (bufData r.2.1) with
  | none =>
    refine .read _ ?_
    split_ifs
    · exact .inl rfl
    · exact .inr rfl
  | some i =>
    have hans := fun role mark => @HsRead.Behind.answered conf c r (i + 4) _ role mark rfl
    unfold hsResponse at hans
    dsimp only
    cases hst : (httpParseHandshake ((bufData r.2.1).take (i + 4))).status with
    | HS_OK =>
      rw [hst] at hans
      refine hans _ _ fun hrole => ?_
      split_ifs at hrole
    | HS_BAD_VERSION | HS_NOT_UPGRADE | HS_BAD_REQUEST =>
      rw [hst] at hans
      exact hans c.role true fun _ => rfl

/-- where `handleHandshakeSend` goes on when `flushTx` has returned `r` -/
inductive HsSend.Behind (c : Conn) (r : Disposition × Conn × Bytes) : HsSend → Prop where
  | ret : Behind c r (.ret r.1 r.2.1)
  | handoff : c.closeAfterSend = false → c.role = .ROLE_SINK → Behind c r (.handoff r.2.1)
  | wsOpen : c.closeAfterSend = false → c.role ≠ .ROLE_SINK →
      Behind c r (.wsOpen { r.2.1 with state := .ST_WS_OPEN, msgUtf8 := wsUtf8Reset })

theorem handleHandshakeSend_behind (sends : List SendRes) (c : Conn) :
    HsSend.Behind c (flushTx sends c) (handleHandshakeSend sends c) := by
  obtain ⟨hconn, -, hmark⟩ := flushTx_spec sends c
  have hrole : (flushTx sends c).2.1.role = c.role := by rw [hconn]
  unfold handleHandshakeSend
  dsimp only
  split_ifs with h1 h2
  · exact .ret
  · exact .handoff (hmark (not_not.1 h1)) (hrole ▸ h2)
  · exact .wsOpen (hmark (not_not.1 h1)) (hrole ▸ h2)

end WsServer
