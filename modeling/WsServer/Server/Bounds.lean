/-
How much the program holds of a connection of its own listeners.

- `Bounded`: rx stays within the larger one of its two limits, a message within its limit. What is in tx has no limit of
  its own: it grows with the answers to what the peer sends, whether or not the peer reads them. The bytes of a
  connection, those written, those in tx, those in rx and those the kernel holds, never exceed those that arrived by more
  than one response and one CLOSE.
- `Lighter`: one pass of the frame loop. A PONG is shorter than its PING, and the CLOSE was paid for before (`credit`).
- `nodeReach_bounded`: all of it in every run. `source_bounds` says it of a source, `tx_unbounded` that nothing more
  holds of tx.
-/
import Mathlib
import WsServer.Server.Said

namespace WsServer

open Ws Machine

variable {conf : ServerConfig} {u v v' : Conn} {sizes : List ℕ} {W count x : ℕ} {client : ℕ → UpstreamClient} {n : Node}

/-! ## The response -/

theorem acceptKey_length (block : Bytes) : (httpParseHandshake block).acceptKey.length ≤ 28 := by
  unfold httpParseHandshake
  dsimp only
  split_ifs
  · exact Nat.zero_le _
  · exact Nat.zero_le _
  · exact Nat.zero_le _
  · exact Nat.zero_le _
  · cases hkey : (httpFindHeader block (ascii "Sec-WebSocket-Key")).bind wsComputeAccept with
    | none => exact Nat.zero_le _
    | some accept =>
      obtain ⟨key, -, haccept⟩ := Option.bind_eq_some_iff.1 hkey
      exact (length_wsComputeAccept haccept).le
  · exact Nat.zero_le _

/-- the longest response is the one that accepts -/
def maxResponse : ℕ := 129

theorem hsResponse_length (block : Bytes) : (hsResponse (httpParseHandshake block)).length ≤ maxResponse := by
  have hkey := acceptKey_length block
  generalize httpParseHandshake block = hr at hkey
  unfold hsResponse
  cases hr.status with
  | HS_OK =>
    have htext : (ascii "HTTP/1.1 101 Switching Protocols\r\nUpgrade: websocket\r\nConnection: Upgrade\r\nSec-WebSocket-Accept: ").length
        = 97 := by decide
    have hend : (ascii "\r\n\r\n").length = 4 := by decide
    show (httpBuildUpgradeResponse hr.acceptKey).length ≤ 129
    rw [httpBuildUpgradeResponse, List.length_append, List.length_append, htext, hend]
    omega
  | HS_BAD_VERSION => exact show (httpBuildError 426 _ _).length ≤ 129 by decide
  | _ => exact show (httpBuildError 400 _ _).length ≤ 129 by decide

/-- the response goes behind what is in tx -/
theorem hsRead_length (h : handleHandshakeRead conf sizes v = .send v') :
    bufLen v'.tx ≤ bufLen v.tx + maxResponse := by
  have hbuf : ∀ r : Bytes, r.length ≤ maxResponse → bufLen (bufAppend true v.tx r) ≤ bufLen v.tx + maxResponse := by
    intro r hr
    rw [← length_bufData, bufAppend_data, List.length_append, length_bufData]
    omega
  have hbehind := handleHandshakeRead_behind conf sizes v
  rw [h] at hbehind
  cases hbehind with
  | tooLarge => exact hbuf hsTooLarge (by decide)
  | answered n hr role mark hparse =>
    rw [hparse]
    exact hbuf _ (hsResponse_length _)

/-! ## One pass of the frame loop -/

/-- the bytes in tx and rx, and a CLOSE that may still come -/
def Conn.load (v : Conn) : ℕ := bufLen v.tx + bufLen v.rx + if v.closeAfterSend then 0 else 4

/-- the buffers hold no more than before, but for a message within its limit -/
structure Lighter (conf : ServerConfig) (v v' : Conn) : Prop where
  load : v'.load ≤ v.load
  cap : v'.rx.cap = v.rx.cap
  msg : bufLen v.msg ≤ conf.maxMessage → bufLen v'.msg ≤ conf.maxMessage

theorem Lighter.refl (conf : ServerConfig) (v : Conn) : Lighter conf v v := ⟨le_rfl, rfl, id⟩

theorem Lighter.trans (h1 : Lighter conf u v) (h2 : Lighter conf v v') : Lighter conf u v' :=
  ⟨h2.load.trans h1.load, h2.cap.trans h1.cap, fun h => h2.msg (h1.msg h)⟩

theorem sendCloseAndMark_lighter (conf : ServerConfig) (v : Conn) (code : ℕ) : Lighter conf v (sendCloseAndMark v code) := by
  unfold sendCloseAndMark
  split_ifs with hmark
  · exact .refl conf v
  refine ⟨?_, rfl, id⟩
  unfold Conn.load
  rw [if_pos rfl, if_neg hmark, bufAppend_len]
  show bufLen v.tx + 4 + bufLen v.rx + 0 ≤ _
  omega

/-- a PONG has the payload of its PING and a shorter header -/
theorem wsControl_lighter (v d : Conn) {h : WsFrameHdr} {payload : Bytes} (hpay : payload.length ≤ h.payloadLen)
    (hhdr : 2 ≤ h.headerLen) (hctl : h.payloadLen ≤ 125) (hroom : h.headerLen + h.payloadLen ≤ bufLen v.rx) :
    Lighter conf v ((wsControl v h payload).conn d) := by
  unfold wsControl
  split_ifs
  · refine ⟨?_, bufConsume_cap _ _, id⟩
    have hpong : (frameNew opPong payload).length = payload.length + 2 := by
      unfold frameNew wsEncodeHeader
      unfold encodeLen
      rw [if_pos (by omega), List.length_append, List.length_cons, List.length_singleton]
      omega
    unfold Conn.load FrameStep.conn
    dsimp only
    rw [bufAppend_len, bufConsume_len, hpong]
    omega
  · refine (sendCloseAndMark_lighter conf v (closeAnswer payload)).trans ⟨?_, bufConsume_cap _ _, id⟩
    unfold Conn.load
    rw [FrameStep.conn, bufConsume_len]
    dsimp only
    omega
  · refine ⟨?_, bufConsume_cap _ _, id⟩
    unfold Conn.load
    rw [FrameStep.conn, bufConsume_len]
    dsimp only
    omega

theorem wsJoined_lighter (conf : ServerConfig) (v d : Conn) (fin : Bool) : Lighter conf v ((wsJoined v fin).conn d) := by
  unfold wsJoined
  dsimp only
  split_ifs
  · have hclose := sendCloseAndMark_lighter conf { v with fragmenting := false } 1007
    exact ⟨hclose.load, hclose.cap, hclose.msg⟩
  · refine ⟨le_rfl, rfl, fun _ => ?_⟩
    rw [FrameStep.conn, bufReset_len]
    exact Nat.zero_le _
  · exact .refl conf v

theorem wsFragment_lighter (v d : Conn) {h : WsFrameHdr} {payload : Bytes} (hpay : payload.length ≤ h.payloadLen) :
    Lighter conf v ((wsFragment conf v h payload).conn d) := by
  unfold wsFragment
  split_ifs with hbig
  · exact sendCloseAndMark_lighter conf v 1009
  cases feedFragment v h payload with
  | none => exact sendCloseAndMark_lighter conf v 1007
  | some st =>
    refine .trans ⟨?_, bufConsume_cap _ _, fun _ => ?_⟩ (wsJoined_lighter conf _ d h.fin)
    · unfold Conn.load
      dsimp only
      rw [bufConsume_len]
      omega
    · rw [bufAppend_len]
      omega

theorem wsData_lighter (v d : Conn) {h : WsFrameHdr} {payload : Bytes} (hpay : payload.length ≤ h.payloadLen) :
    Lighter conf v ((wsData conf v h payload).conn d) := by
  unfold wsData
  split_ifs
  · exact wsFragment_lighter v d hpay
  · exact sendCloseAndMark_lighter conf v 1002
  · exact sendCloseAndMark_lighter conf v 1002
  · have hopen : Lighter conf v
        { v with msgOpcode := h.opcode, fragmenting := true, msg := bufReset v.msg, msgUtf8 := wsUtf8Reset } := by
      refine ⟨le_rfl, rfl, fun _ => ?_⟩
      rw [bufReset_len]
      exact Nat.zero_le _
    exact hopen.trans (wsFragment_lighter _ d hpay)

/-- **One pass of the loop** makes a connection lighter. -/
theorem wsFrame_lighter (conf : ServerConfig) (v : Conn) : Lighter conf v ((wsFrame conf v).conn v) := by
  unfold wsFrame
  cases hp : wsParseHeader (bufData v.rx) with
  | needMore => exact .refl conf v
  | errProto => exact sendCloseAndMark_lighter conf v 1002
  | ok h =>
    have hgood := wsParseHeader_good hp
    dsimp only
    have hpay : (wsUnmask (((bufData v.rx).drop h.headerLen).take h.payloadLen) h.maskKey).length ≤ h.payloadLen := by
      rw [length_wsUnmask, List.length_take]
      exact min_le_left _ _
    have hunmask : Lighter conf v { v with rx := bufUnmask v.rx h.headerLen h.payloadLen h.maskKey } := by
      refine ⟨?_, rfl, id⟩
      unfold Conn.load
      rw [bufUnmask_len]
    split_ifs with hmask hbig hshort hctl
    · exact sendCloseAndMark_lighter conf v 1009
    · exact .refl conf v
    · obtain ⟨-, hlen⟩ := hgood.control hctl
      refine hunmask.trans (wsControl_lighter _ v hpay hgood.two_le hlen ?_)
      rw [bufUnmask_len]
      exact not_lt.1 hshort
    · exact hunmask.trans (wsData_lighter _ v hpay)
    · exact sendCloseAndMark_lighter conf v 1002

/-! ## The bytes of a connection -/

/-- the bytes held for a connection, and what may still be said without a word of the peer -/
def Conn.weight (v : Conn) : ℕ :=
  bufLen v.tx + bufLen v.rx + v.sock.inq.length +
    if v.state = .ST_HANDSHAKE_READ then maxResponse + 4 else if v.closeAfterSend then 0 else 4

theorem weight_load (h : v.state ≠ .ST_HANDSHAKE_READ) : v.weight = v.load + v.sock.inq.length := by
  unfold Conn.weight Conn.load
  rw [if_neg h]
  omega

/-- the limits of rx -/
def rxLimit (conf : ServerConfig) : ℕ := max conf.handshakeMax (conf.maxMessage + conf.maxFrame)

/-- what a step may do: `k` bytes arrive and `out` is written -/
structure Flow (conf : ServerConfig) (v v' : Conn) (out : Bytes) (k : ℕ) : Prop where
  weight : out.length + v'.weight ≤ v.weight + k
  cap : v'.rx.cap ≤ max v.rx.cap (rxLimit conf)
  msg : bufLen v.msg ≤ conf.maxMessage → bufLen v'.msg ≤ conf.maxMessage

theorem Flow.trans {out out' : Bytes} {k k' : ℕ} (h1 : Flow conf u v out k) (h2 : Flow conf v v' out' k') :
    Flow conf u v' (out ++ out') (k + k') := by
  refine ⟨?_, h2.cap.trans (max_le h1.cap (le_max_right _ _)), fun h => h2.msg (h1.msg h)⟩
  have hfirst := h1.weight
  have hsecond := h2.weight
  rw [List.length_append]
  omega

/-- nothing of it changes -/
theorem SameLine.flow (h : SameLine v v') : Flow conf v v' [] 0 := by
  refine ⟨?_, ?_, ?_⟩
  · unfold Conn.weight
    rw [h.tx, h.rx, h.sock, h.state, h.closeAfterSend, List.length_nil]
    omega
  · rw [h.rx]
    exact le_max_left _ _
  · rw [h.msg]
    exact id

/-- a read moves bytes from the socket to rx -/
theorem recv_flow {hardCap : ℕ} (hpos : hardCap ≠ 0) (hle : hardCap ≤ rxLimit conf) (sizes : List ℕ) (v : Conn) :
    let rc := bufRecv sizes v.sock v.rx 4096 hardCap
    bufLen rc.2.1 + rc.2.2.inq.length = bufLen v.rx + v.sock.inq.length ∧ rc.2.1.cap ≤ max v.rx.cap (rxLimit conf) := by
  dsimp only
  obtain ⟨hdata, -⟩ := bufRecv_spec (show 0 < 4096 by decide) hpos sizes v.sock v.rx
  have hlen := congrArg List.length hdata
  rw [List.length_append, List.length_append, length_bufData, length_bufData] at hlen
  exact ⟨hlen, (bufRecv_cap_le hpos sizes v.sock v.rx).trans (max_le_max le_rfl hle)⟩

/-- a flush moves bytes from tx to the socket -/
theorem flush_flow {v' : Conn} {tx : Buf} {out : Bytes} (hconn : v' = { v with tx := tx }) (hdata : out ++ bufData v'.tx = bufData v.tx) :
    Flow conf v v' out 0 := by
  have hlen := congrArg List.length hdata
  rw [List.length_append, length_bufData, length_bufData] at hlen
  subst hconn
  refine ⟨?_, le_max_left _ _, id⟩
  unfold Conn.weight
  dsimp only at hlen ⊢
  omega

theorem Lighter.flow (h : Lighter conf v v') (hstate : v.state ≠ .ST_HANDSHAKE_READ) (hshell : SameShell v v') :
    Flow conf v v' [] 0 := by
  refine ⟨?_, h.cap.le.trans (le_max_left _ _), h.msg⟩
  have hload := h.load
  rw [weight_load hstate, weight_load (hshell.state.trans_ne hstate), hshell.sock, List.length_nil]
  omega

/-! ## One step -/

variable {c k : ℕ} {p p' : WPc} {d d' : Desk} {out out' : Bytes} {ms ms' : List Msg} {got : ℕ}

theorem handshakeMax_le (conf : ServerConfig) : conf.handshakeMax ≤ rxLimit conf := le_max_left _ _

theorem wsOpenRead_flow (hstate : v.state = .ST_WS_OPEN) (sizes : List ℕ) :
    Flow conf v (wsOpenRead conf sizes v).1 [] 0 := by
  have hle : conf.maxMessage + conf.maxFrame ≤ rxLimit conf := le_max_right _ _
  obtain ⟨hlen, hcap⟩ := recv_flow (limit_pos conf) hle sizes v
  unfold wsOpenRead
  dsimp only at hlen hcap ⊢
  generalize bufRecv sizes v.sock v.rx 4096 (conf.maxMessage + conf.maxFrame) = rc at hlen hcap ⊢
  have hread : Flow conf v { v with rx := rc.2.1, sock := rc.2.2 } [] 0 := by
    refine ⟨?_, hcap, id⟩
    unfold Conn.weight
    dsimp only
    rw [List.length_nil]
    omega
  split_ifs
  · have hclose := (sendCloseAndMark_lighter conf { v with rx := rc.2.1, sock := rc.2.2 } 1009).flow
      (by rw [hstate]; nofun) (sendCloseAndMark_shell _ _)
    exact hread.trans hclose
  · exact hread

/-- the response is sent for the credit of the handshake -/
theorem Responding.flow {r : Bytes} (hread : v.state = .ST_HANDSHAKE_READ)
    (h : Responding v v' r (bufRecv sizes v.sock v.rx 4096 conf.handshakeMax)) (hlen : bufLen v'.tx ≤ bufLen v.tx + maxResponse) :
    Flow conf v v' [] 0 := by
  have hpos : conf.handshakeMax ≠ 0 := Nat.pos_iff_ne_zero.1 conf.handshakeMax_pos
  obtain ⟨hsum, hcap⟩ := recv_flow hpos (handshakeMax_le conf) sizes v
  have hrx := h.rxLen
  refine ⟨?_, h.rxCap.le.trans hcap, ?_⟩
  · unfold Conn.weight
    rw [if_pos hread, h.state, if_neg (by decide), h.sock, List.length_nil]
    split_ifs <;> omega
  · rw [h.msg]
    exact id

variable (conf) in
/-- **Every piece of work** keeps within the bytes of the connection. -/
theorem deal_flow (hline : Line (.work p) v out ms) (hdeal : Deal conf c p v p' v' out' ms') : Flow conf v v' out' 0 := by
  have hsame : Flow conf v v [] 0 := (SameLine.refl v).flow
  have hpass : ∀ {eof : Bool}, p = .loop c eof → (wsFrame conf v).conn v = v' → Flow conf v v' [] 0 := by
    rintro eof rfl rfl
    have hstate : v.state = .ST_WS_OPEN := hline.state _ rfl
    exact (wsFrame_lighter conf v).flow (by rw [hstate]; nofun) (wsFrame_shell conf v)
  cases hdeal with
  | readRet sizes _ hret =>
    have hpos : conf.handshakeMax ≠ 0 := Nat.pos_iff_ne_zero.1 conf.handshakeMax_pos
    obtain ⟨hsum, hcap⟩ := recv_flow hpos (handshakeMax_le conf) sizes v
    obtain rfl := hsRead_ret hret
    refine ⟨?_, hcap, id⟩
    unfold Conn.weight
    dsimp only at hsum ⊢
    rw [List.length_nil]
    omega
  | readSend sizes hread hsend =>
    obtain ⟨r, hr⟩ := hsRead_send hsend
    exact hr.flow hread (hsRead_length hsend)
  | resend | reopen | closing | wait => exact hsame
  | sendRet sends hret =>
    obtain rfl := hsSend_ret hret
    obtain ⟨hconn, hdata, -⟩ := flushTx_spec sends v
    exact flush_flow hconn hdata
  | handoff sends hhand =>
    obtain ⟨rfl, -, -⟩ := hsSend_handoff hhand
    obtain ⟨hconn, hdata, -⟩ := flushTx_spec sends v
    exact flush_flow hconn hdata
  | opens sends hopen =>
    obtain ⟨rfl, -, -⟩ := hsSend_opens hopen
    obtain ⟨hconn, hdata, -⟩ := flushTx_spec sends v
    have hflush : Flow conf v (flushTx sends v).2.1 (flushTx sends v).2.2 0 := flush_flow hconn hdata
    have hstate : (flushTx sends v).2.1.state = .ST_HANDSHAKE_SEND := by
      rw [hconn]
      exact hline.state _ rfl
    refine ⟨?_, hflush.cap, hflush.msg⟩
    have hweight := hflush.weight
    unfold Conn.weight at hweight ⊢
    rw [hstate, if_neg (by decide)] at hweight
    exact hweight
  | recv sizes => exact wsOpenRead_flow (hline.state _ rfl) sizes
  | stop _ hstep => exact hpass rfl (by rw [hstep]; rfl)
  | next _ hstep => exact hpass rfl (by rw [hstep]; rfl)
  | message _ _ hstep => exact hpass rfl (by rw [hstep]; rfl)
  | flush sends =>
    obtain ⟨hconn, hdata, -⟩ := wsOpenFlush_spec sends _ v
    exact flush_flow hconn hdata

/-- a connection that is no sink was none before -/
theorem sourceStep_role (hline : Line d v out ms) (hs : SourceStep conf c d v d' v' out' k ms')
    (hrole : v'.role ≠ .ROLE_SINK) : v.role ≠ .ROLE_SINK := by
  cases hs with
  | arrive => exact hrole
  | pass _ hsame => exact hsame.role ▸ hrole
  | sink _ _ hsink => exact absurd hsink hrole
  | work hdeal =>
    have hpass : (wsFrame conf v).conn v = v' → v.role ≠ .ROLE_SINK := by
      rintro rfl
      exact (wsFrame_shell conf v).role ▸ hrole
    cases hdeal with
    | readRet sizes _ hret =>
      obtain rfl := hsRead_ret hret
      exact hrole
    | readSend sizes hread _ =>
      have hsaid := hline.said
      generalize out ++ bufData v.tx = said at hsaid
      cases hsaid with
      | reading _ _ hundecided => rw [hundecided]; nofun
      | answering _ hsend => exact nomatch hsend.symm.trans hread
      | talking _ _ _ hopen => exact nomatch hopen.symm.trans hread
    | resend | reopen | closing | wait => exact hrole
    | sendRet sends hret =>
      obtain rfl := hsSend_ret hret
      rw [(flushTx_spec sends v).1] at hrole
      exact hrole
    | handoff sends hhand =>
      obtain ⟨rfl, -, hsink⟩ := hsSend_handoff hhand
      rw [(flushTx_spec sends v).1] at hrole
      exact hrole
    | opens sends hopen => exact (hsSend_opens hopen).2.2
    | recv =>
      obtain ⟨-, -, -, hsource, -⟩ := hline.said.talks (hline.state _ rfl)
      rw [hsource]
      nofun
    | stop _ hstep => exact hpass (by rw [hstep]; rfl)
    | next _ hstep => exact hpass (by rw [hstep]; rfl)
    | message _ _ hstep => exact hpass (by rw [hstep]; rfl)
    | flush sends =>
      rw [(wsOpenFlush_spec sends _ v).1] at hrole
      exact hrole

theorem sourceStep_flow (hline : Line d v out ms) (hs : SourceStep conf c d v d' v' out' k ms')
    (hrole : v'.role ≠ .ROLE_SINK) : Flow conf v v' out' k := by
  cases hs with
  | arrive bytes fin =>
    refine ⟨?_, le_max_left _ _, id⟩
    unfold Conn.weight
    dsimp only
    rw [List.length_append, List.length_nil]
    omega
  | pass _ hsame => exact hsame.flow
  | sink _ _ hsink => exact absurd hsink hrole
  | work hdeal => exact deal_flow conf hline hdeal

/-! ## Every run -/

/-- what a connection holds, of which `got` bytes arrived and `out` were written -/
structure Bounded (conf : ServerConfig) (v : Conn) (out : Bytes) (got : ℕ) : Prop where
  cap : v.rx.cap ≤ rxLimit conf
  msg : bufLen v.msg ≤ conf.maxMessage
  weight : out.length + v.weight ≤ got + (maxResponse + 4)

theorem Bounded.flow (h : Bounded conf v out got) (hf : Flow conf v v' out' k) : Bounded conf v' (out ++ out') (got + k) := by
  refine ⟨hf.cap.trans (max_le h.cap le_rfl), hf.msg h.msg, ?_⟩
  have hold := h.weight
  have hnew := hf.weight
  rw [List.length_append]
  omega

/-- every connection that is not the sink's, in every run -/
theorem nodeReach_bounded {ok : Node → NodeAct → Prop} (h : Reach (nodeStep conf W) ok (.start client count) n)
    (hx : x < n.srv.nextId) (hrole : (n.srv.conn x).role ≠ .ROLE_SINK) :
    Bounded conf (n.srv.conn x) (n.sent x) (n.got x) := by
  have hall := nodeReach_source (P := fun d v out got ms => Line d v out ms ∧ (v.role ≠ .ROLE_SINK → Bounded conf v out got))
    ?_ ?_ h hx
  · obtain ⟨d, hat⟩ := n.srv.at_exists x
    exact (hall d hat).2 hrole
  · intro reg live
    refine ⟨⟨nofun, nofun, .reading rfl rfl rfl rfl⟩, fun _ => ⟨Nat.zero_le _, Nat.zero_le _, ?_⟩⟩
    exact (Nat.zero_add _).le
  · rintro d v out got ms d' v' out' k ms' ⟨hline, hb⟩ hs
    refine ⟨sourceStep_line hline hs, fun hrole => ?_⟩
    exact (hb (sourceStep_role hline hs hrole)).flow (sourceStep_flow hline hs hrole)

/-- **What a connection that is not the sink's holds**, for every byte stream and whatever its peer reads. -/
theorem source_bounds (conf : ServerConfig) (W : ℕ) (client : ℕ → UpstreamClient) (count : ℕ) (n : Node)
    (h : Reachable (nodeStep conf W) (.start client count) n) (x : ℕ) (hx : x < n.srv.nextId)
    (hrole : (n.srv.conn x).role ≠ .ROLE_SINK) :
    bufLen (n.srv.conn x).rx ≤ max conf.handshakeMax (conf.maxMessage + conf.maxFrame) ∧
      bufLen (n.srv.conn x).msg ≤ conf.maxMessage ∧
      (n.sent x).length + bufLen (n.srv.conn x).tx ≤ n.got x + 133 := by
  have hb := nodeReach_bounded h hx hrole
  refine ⟨(bufLen_le_cap _).trans hb.cap, hb.msg, ?_⟩
  have hweight := hb.weight
  unfold Conn.weight maxResponse at hweight
  omega

/-- a source has connected and opened -/
def openedActs : List Act :=
  [Act.accept, .deliver 1 (hello "/") .open, .fetch 1, .enqueue 1] ++ List.replicate 7 (Act.worker 0 calmWork)

theorem source_bounds_opened : ∃ n, Reachable (nodeStep smallConf 1) (.start (fun _ => closedClient 9) 1) n ∧
    (n.sent 1).length = 129 ∧ bufLen (n.srv.conn 1).rx ≤ 8192 ∧ bufLen (n.srv.conn 1).msg ≤ 5000 ∧
    (n.sent 1).length + bufLen (n.srv.conn 1).tx ≤ n.got 1 + 133 := by
  obtain ⟨n, hn, hp⟩ := Reachable.of_check (nodeStep smallConf 1) (.start (fun _ => closedClient 9) 1)
    (openedActs.map .srv) (fun n => 1 < n.srv.nextId ∧ (n.srv.conn 1).role = .ROLE_SOURCE ∧ (n.sent 1).length = 129)
    (by decide +kernel)
  rw [decide_eq_true_eq] at hp
  obtain ⟨hknown, hrole, hsent⟩ := hp
  have hsource : (n.srv.conn 1).role ≠ .ROLE_SINK := by
    rw [hrole]
    nofun
  exact ⟨n, hn, hsent, source_bounds smallConf 1 (fun _ => closedClient 9) 1 n hn 1 hknown hsource⟩

/-! ## A source that never reads -/

def pingFrame : Bytes := [0x89, 0x80, 0, 0, 0, 0]

/-- worker 0, the ingest queue, the listener and connection 1 -/
structure View (s : Srv) (p : WPc) (q : Queue ℕ) (f : List ℕ) (v : Conn) : Prop where
  worker : s.workers 0 = p
  queue : s.queue = q
  fetched : s.fetched = f
  conn : s.conn 1 = v

def Leads (s : Srv) (p : WPc) (q : Queue ℕ) (f : List ℕ) (v : Conn) : Prop :=
  ∃ t, Reach (srvStep smallConf) (fun _ b => b.Within 1) s t ∧ View t p q f v

variable {s t : Srv} {q q' : Queue ℕ} {f f' : List ℕ}

theorem Leads.step (h : Leads s p q f v) (b : Act) (hb : b.Within 1)
    (hs : ∀ t, View t p q f v → ∃ t', srvStep smallConf t b = some t' ∧ View t' p' q' f' v') : Leads s p' q' f' v' := by
  obtain ⟨t, hrun, ht⟩ := h
  obtain ⟨t', hstep, ht'⟩ := hs t ht
  exact ⟨t', .step b hrun hb hstep, ht'⟩

/-- the worker goes on -/
theorem View.goes (h : View s p q f v) : View (s.goto 0 p') p' q f v := by
  refine ⟨?_, h.queue, h.fetched, h.conn⟩
  unfold Srv.goto
  exact Function.update_self 0 p' s.workers

/-- and the connection is changed -/
theorem View.sets (h : View s p q f v) : View ((s.setConn 1 v').goto 0 p') p' q f v' := by
  have hset : View (s.setConn 1 v') p q f v' := ⟨h.worker, h.queue, h.fetched, setConn_conn_self _ _ _⟩
  exact hset.goes

/-- the source waits for events, with `k` PONGs it did not read -/
structure Stalled (k : ℕ) (v : Conn) : Prop where
  live : v.live = true
  role : v.role = .ROLE_SOURCE
  state : v.state = .ST_WS_OPEN
  armed : ∃ out, v.reg = .armed out
  sock : v.sock = ⟨[], .open⟩
  rx : bufData v.rx = []
  tx : bufLen v.tx = 2 * k
  agrees : Agrees v none

/-- the loop answers the PING -/
theorem wsFrame_ping (ha : Agrees v none) (hrx : bufData v.rx = pingFrame) :
    ∃ v', wsFrame smallConf v = .next v' ∧ Agrees v' none ∧ bufData v'.rx = [] ∧ bufLen v'.tx = bufLen v.tx + 2 ∧
      SameShell v v' := by
  have hf := wsFrame_follows smallConf ha
  have hshell := wsFrame_shell smallConf v
  have hmove : Rules.move (workerLimits smallConf) none pingFrame = .go none [.ping []] [] := by rfl
  rw [hrx, hmove] at hf
  generalize wsFrame smallConf v = r at hf hshell ⊢
  cases hf with
  | next hagrees hrest htx _ =>
    refine ⟨_, rfl, hagrees, hrest, ?_, hshell⟩
    rw [← length_bufData, htx, List.length_append, length_bufData]
    rfl

/-- and then waits -/
theorem wsFrame_empty (hrx : bufData v.rx = []) : wsFrame conf v = .wait := by
  unfold wsFrame
  rw [hrx]
  rfl

/-- nothing is sent, and the connection waits for room in the socket, too -/
theorem wsOpenFlush_none (htx : bufLen v.tx ≠ 0) : wsOpenFlush [] false v = (.DISP_REARM_INOUT, v, []) := by
  unfold wsOpenFlush flushTx bufSend
  rw [if_neg htx]
  rfl

/-- what the worker reads of the PING -/
theorem wsOpenRead_ping (hrx : bufData v.rx = []) (hsock : v.sock = ⟨pingFrame, .open⟩) :
    (wsOpenRead smallConf [] v).2 = false ∧ (wsOpenRead smallConf [] v).1 = received smallConf ⟨[], [], []⟩ v ∧
      bufData (received smallConf ⟨[], [], []⟩ v).rx = pingFrame ∧
      (received smallConf ⟨[], [], []⟩ v).sock = ⟨[], .open⟩ := by
  have hfits : ¬ Overflows smallConf v := by
    unfold Overflows
    rw [hsock, ← length_bufData, hrx]
    exact not_lt.2 (le_max_of_le_right (by decide))
  obtain ⟨hconn, hdata, hinq⟩ := wsOpenStart_fits (w := ⟨[], [], []⟩) hfits
  obtain ⟨-, hfin, -⟩ := bufRecv_spec (show 0 < 4096 by decide) (limit_pos smallConf) [] v.sock v.rx
  refine ⟨wsOpenRead_eof (by rw [hsock]), hconn, ?_, ?_⟩
  · rw [hdata, hrx, hsock]
    rfl
  · have hopen : (received smallConf ⟨[], [], []⟩ v).sock.fin = .open := hfin.trans (by rw [hsock])
    generalize (received smallConf ⟨[], [], []⟩ v).sock = sock at hinq hopen
    obtain ⟨inq, fin⟩ := sock
    obtain rfl : inq = [] := hinq
    obtain rfl : fin = .open := hopen
    rfl

/-- nobody takes bytes from tx -/
def deafWork : WorkEnv := ⟨[], [], ⟨0, 0⟩⟩

/-- one more PING is answered, and nothing sent -/
theorem Stalled.again {k : ℕ} (hv : Stalled k v) (h : Leads s .idle createQueue [] v) :
    ∃ v', Stalled (k + 1) v' ∧ Leads s .idle createQueue [] v' := by
  have hdeliver : Leads s .idle createQueue [] { v with sock := ⟨pingFrame, .open⟩ } := by
    refine h.step (.deliver 1 pingFrame .open) trivial fun t ht => ⟨_, if_pos ?_, ?_⟩
    · rw [ht.conn]
      exact ⟨hv.live, by rw [hv.sock]⟩
    · refine ⟨ht.worker, ht.queue, ht.fetched, ?_⟩
      rw [setConn_conn_self, ht.conn, hv.sock]
      rfl
  have hfetch : Leads s .idle createQueue [1] { v with sock := ⟨pingFrame, .open⟩, reg := .disabled } := by
    refine hdeliver.step (.fetch 1) trivial fun t ht => ⟨_, if_pos ?_, ?_⟩
    · rw [ht.conn]
      exact ⟨hv.live, hv.armed, .inl nofun⟩
    · refine ⟨ht.worker, ht.queue, ?_, ?_⟩
      · exact congrArg (· ++ [1]) ht.fetched
      · exact (setConn_conn_self _ _ _).trans (by rw [ht.conn])
  have hqueue : Leads s .idle (push createQueue 1) [] { v with sock := ⟨pingFrame, .open⟩, reg := .disabled } := by
    refine hfetch.step (.enqueue 1) trivial fun t ht => ⟨_, if_pos ?_, ?_⟩
    · rw [ht.fetched]
      exact List.mem_singleton_self 1
    · exact ⟨ht.worker, congrArg (push · 1) ht.queue, by rw [ht.fetched]; rfl, ht.conn⟩
  have htake : Leads s (.run 1) createQueue [] { v with sock := ⟨pingFrame, .open⟩, reg := .disabled } := by
    refine hqueue.step (.worker 0 deafWork) (by decide) fun t ht => ⟨{ t with queue := createQueue }.goto 0 (.run 1), ?_, ?_⟩
    · show workerStep smallConf t 0 deafWork = _
      unfold workerStep
      rw [ht.worker]
      dsimp only
      rw [ht.queue]
      rfl
    · have hpopped : View { t with queue := createQueue } .idle createQueue [] _ := ⟨ht.worker, rfl, ht.fetched, ht.conn⟩
      exact hpopped.goes
  have hopen : Leads s (.recv 1) createQueue [] { v with sock := ⟨pingFrame, .open⟩, reg := .disabled } := by
    refine htake.step (.worker 0 deafWork) (by decide) fun t ht => ⟨t.goto 0 (.recv 1), ?_, ht.goes⟩
    show workerStep smallConf t 0 deafWork = _
    unfold workerStep
    rw [ht.worker]
    dsimp only
    rw [ht.conn]
    dsimp only
    rw [hv.state]
  obtain ⟨heof, hread, hrx, hsock⟩ := wsOpenRead_ping (v := { v with sock := ⟨pingFrame, .open⟩, reg := .disabled }) hv.rx rfl
  have hrecv : Leads s (.loop 1 false) createQueue []
      (received smallConf ⟨[], [], []⟩ { v with sock := ⟨pingFrame, .open⟩, reg := .disabled }) := by
    refine hopen.step (.worker 0 deafWork) (by decide) fun t ht => ⟨_, ?_, ht.sets⟩
    show workerStep smallConf t 0 deafWork = _
    unfold workerStep
    rw [ht.worker]
    dsimp only
    rw [ht.conn, ← hread, ← heof]
    rfl
  have hagrees : Agrees (received smallConf ⟨[], [], []⟩ { v with sock := ⟨pingFrame, .open⟩, reg := .disabled }) none :=
    ⟨hv.agrees.opened, hv.agrees.fragmenting, nofun⟩
  obtain ⟨v2, hframe, hagrees2, hrx2, htx2, hshell⟩ := wsFrame_ping hagrees hrx
  have hnext : Leads s (.loop 1 false) createQueue [] v2 := by
    refine hrecv.step (.worker 0 deafWork) (by decide) fun t ht => ⟨_, ?_, ht.sets⟩
    show workerStep smallConf t 0 deafWork = _
    unfold workerStep
    rw [ht.worker]
    dsimp only
    rw [ht.conn, if_neg (by rw [hagrees.opened]; nofun), hframe]
  have hwait : Leads s (.flush 1 false) createQueue [] v2 := by
    refine hnext.step (.worker 0 deafWork) (by decide) fun t ht => ⟨_, ?_, ht.goes⟩
    show workerStep smallConf t 0 deafWork = _
    unfold workerStep
    rw [ht.worker]
    dsimp only
    rw [ht.conn, if_neg (by rw [hagrees2.opened]; nofun), wsFrame_empty hrx2]
  have hflush : Leads s (.apply 1 .DISP_REARM_INOUT) createQueue [] v2 := by
    refine hwait.step (.worker 0 deafWork) (by decide) fun t ht => ⟨_, ?_, ht.sets⟩
    show workerStep smallConf t 0 deafWork = _
    unfold workerStep
    rw [ht.worker]
    dsimp only
    rw [ht.conn, show deafWork.sends = [] from rfl, wsOpenFlush_none (by omega)]
  have hreg : v2.reg ≠ .absent := by
    rw [hshell.reg]
    nofun
  have happly : Leads s .idle createQueue [] { v2 with reg := .armed true } := by
    refine hflush.step (.worker 0 deafWork) (by decide) fun t ht => ⟨_, ?_, ht.sets⟩
    show workerStep smallConf t 0 deafWork = _
    unfold workerStep
    rw [ht.worker]
    dsimp only
    rw [ht.conn]
    show some ((t.setConn 1 (rearmEpoll v2 true)).goto 0 .idle) = _
    rw [rearmEpoll, if_neg hreg]
  refine ⟨{ v2 with reg := .armed true }, ⟨hshell.live.trans hv.live, hshell.role.trans hv.role, hshell.state.trans hv.state, ⟨true, rfl⟩,
    hshell.sock.trans hsock, hrx2, ?_, ⟨hagrees2.opened, hagrees2.fragmenting, nofun⟩⟩, happly⟩
  have htx : bufLen v.tx = 2 * k := hv.tx
  show bufLen v2.tx = 2 * (k + 1)
  rw [htx2]
  show bufLen v.tx + 2 = _
  omega

/-- connection 1 waits for events, and so do the worker and the listener -/
def Srv.atRest (s : Srv) : Bool :=
  (s.conn 1).live ∧ (s.conn 1).role = .ROLE_SOURCE ∧ (s.conn 1).state = .ST_WS_OPEN ∧ (s.conn 1).reg = .armed false ∧
    (s.conn 1).sock = ⟨[], .open⟩ ∧ bufData (s.conn 1).rx = [] ∧ bufLen (s.conn 1).tx = 0 ∧
    (s.conn 1).closeAfterSend = false ∧ (s.conn 1).fragmenting = false ∧ s.workers 0 = .idle ∧ s.queue = createQueue ∧
    s.fetched = []

theorem opened_stalled : ∃ v, Stalled 0 v ∧ Leads Srv.start .idle createQueue [] v := by
  have hrun : (exec (guarded (srvStep smallConf) fun _ b => b.Within 1) Srv.start openedActs).map Srv.atRest =
      some true := by decide +kernel
  rw [Option.map_eq_some_iff] at hrun
  obtain ⟨s, hs, hrest⟩ := hrun
  obtain ⟨hlive, hrole, hstate, hreg, hsock, hrx, htx, hopen, hfrag, hworker, hqueue, hfetched⟩ := of_decide_eq_true hrest
  exact ⟨s.conn 1, ⟨hlive, hrole, hstate, ⟨false, hreg⟩, hsock, hrx, htx, hopen, hfrag, nofun⟩, s, .of_guarded .start hs,
    hworker, hqueue, hfetched, rfl⟩

/-- what the server does the program does -/
theorem node_of_srv {n : Node} (h : Reach (srvStep conf) (fun _ b => b.Within W) n.srv t) :
    ∃ m, Reachable (nodeStep conf W) n m ∧ m.srv = t := by
  induction h with
  | start => exact ⟨n, .start, rfl⟩
  | step b _ hb hstep ih =>
    obtain ⟨m, hm, rfl⟩ := ih
    refine ⟨_, .step (.srv b) hm trivial ((if_pos hb).trans (congrArg (Option.map _) hstep)), rfl⟩

theorem stalled_runs (k : ℕ) : ∃ v, Stalled k v ∧ Leads Srv.start .idle createQueue [] v := by
  induction k with
  | zero => exact opened_stalled
  | succ k ih =>
    obtain ⟨v, hv, hrun⟩ := ih
    exact hv.again hrun

/-- **tx has no bound**: a source that sends PINGs and reads nothing is answered, however much waits for it already. -/
theorem tx_unbounded : ¬ ∃ bound, ∀ n, Reachable (nodeStep smallConf 1) (.start (fun _ => closedClient 9) 1) n →
    (n.srv.conn 1).role = .ROLE_SOURCE → bufLen (n.srv.conn 1).tx ≤ bound := by
  rintro ⟨bound, hall⟩
  obtain ⟨v, hv, t, hrun, ht⟩ := stalled_runs (bound + 1)
  obtain ⟨n, hn, rfl⟩ := node_of_srv (n := .start (fun _ => closedClient 9) 1) hrun
  have hle := hall n hn (by rw [ht.conn]; exact hv.role)
  rw [ht.conn, hv.tx] at hle
  omega

end WsServer
