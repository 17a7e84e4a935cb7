/-
`src/worker.c`: what a worker does with a connection it took from the ingest queue.

The functions are the source's, cut where a worker touches something another thread can see: `wsFrame` is one pass of
the loop body of `handleWsOpen` (everything in it is private to the worker), and what happens to a completed message is
left to the caller. `handleWsOpen` puts the passes back together for one call; `Server/Server.lean` takes them as
steps of their own.

What the environment decides about one call is a `Wake`: the byte counts of the `recv` calls, for each completed
message the clock and the queue size the worker reads, and the results of the `send` calls.

- `wsFrame_consumes`: a pass that goes on has taken at least a header from rx.
- `wsLoop_spec`: the loop ends with nothing left to process, with a CLOSE queued, or parked; the fuel never decides.
-/
import Mathlib
import WsServer.Conn.Conn
import WsServer.Proto.Http

namespace WsServer

open Ws

inductive Disposition where
  | DISP_REARM_IN | DISP_REARM_OUT | DISP_REARM_INOUT | DISP_CLOSE | DISP_PARKED | DISP_HANDOFF
deriving DecidableEq, Repr

/-- `EPOLL_CTL_MOD`: it fails on a descriptor that is not registered -/
def rearmEpoll (c : Conn) (out : Bool) : Conn := if c.reg = .absent then c else { c with reg := .armed out }

def applyDisposition (c : Conn) (disp : Disposition) : Conn :=
  match disp with
  | .DISP_REARM_IN => rearmEpoll c false
  | .DISP_REARM_OUT => rearmEpoll c true
  | .DISP_REARM_INOUT => rearmEpoll c true
  | .DISP_CLOSE => connClose c
  | .DISP_PARKED => c
  | .DISP_HANDOFF => c

def sendCloseAndMark (c : Conn) (code : ℕ) : Conn :=
  if c.closeAfterSend then c
  else { c with tx := bufAppend true c.tx (frameNew opClose (codeBytes code)), closeAfterSend := true }

/-- `flushTx`: disposition, connection, bytes written to the socket -/
def flushTx (sends : List SendRes) (c : Conn) : Disposition × Conn × Bytes :=
  let r := bufSend sends c.tx
  let c := { c with tx := r.2.1 }
  if r.1 = -1 then (.DISP_CLOSE, c, r.2.2)
  else if r.1 = 0 then (.DISP_REARM_INOUT, c, r.2.2)
  else if c.closeAfterSend then (.DISP_CLOSE, c, r.2.2)
  else (.DISP_REARM_IN, c, r.2.2)

/-! ## The opening handshake -/

/-- where `handleHandshakeRead` goes on: it returns, or calls `handleHandshakeSend` -/
inductive HsRead where
  | ret (disp : Disposition) (c : Conn)
  | send (c : Conn)

def handleHandshakeRead (conf : ServerConfig) (sizes : List ℕ) (c : Conn) : HsRead :=
  let r := bufRecv sizes c.sock c.rx 4096 conf.handshakeMax
  let c := { c with rx := r.2.1, sock := r.2.2 }
  if r.1 = -1 then .ret .DISP_CLOSE c
  else if r.1 = -2 then
    .send { c with
      tx := bufAppend true c.tx (httpBuildError 431 "Request Header Fields Too Large" "")
      closeAfterSend := true
      state := .ST_HANDSHAKE_SEND }
  else if r.1 = 0 then .ret .DISP_REARM_IN c
  else
    let eof : Bool := r.1 = 2
    match httpFindHeaderEnd (bufData c.rx) with
    | none => .ret (if eof then .DISP_CLOSE else .DISP_REARM_IN) c
    | some i =>
      let hr := httpParseHandshake ((bufData c.rx).take (i + 4))
      let c := { c with rx := bufConsume c.rx (i + 4), state := .ST_HANDSHAKE_SEND }
      match hr.status with
      | .HS_OK =>
        .send { c with
          tx := bufAppend true c.tx (httpBuildUpgradeResponse hr.acceptKey)
          role := if cstr hr.path = conf.sinkPath then .ROLE_SINK else .ROLE_SOURCE
          closeAfterSend := eof }
      | .HS_BAD_VERSION =>
        .send { c with
          tx := bufAppend true c.tx (httpBuildError 426 "Upgrade Required" "Sec-WebSocket-Version: 13\r\n")
          closeAfterSend := true }
      | _ =>
        .send { c with
          tx := bufAppend true c.tx (httpBuildError 400 "Bad Request" "")
          closeAfterSend := true }

/-- where `handleHandshakeSend` goes on: it returns, hands the sink over, or calls `handleWsOpen` -/
inductive HsSend where
  | ret (disp : Disposition) (c : Conn)
  | handoff (c : Conn)
  | wsOpen (c : Conn)

def handleHandshakeSend (sends : List SendRes) (c : Conn) : HsSend :=
  let r := flushTx sends c
  if r.1 ≠ .DISP_REARM_IN then .ret r.1 r.2.1
  else if r.2.1.role = .ROLE_SINK then .handoff r.2.1
  else .wsOpen { r.2.1 with state := .ST_WS_OPEN, msgUtf8 := wsUtf8Reset }

/-! ## The frame loop -/

/-- how one pass of the loop ends: `break` with nothing touched, `break`, `continue`, or a completed message -/
inductive FrameStep where
  | wait
  | stop (c : Conn)
  | next (c : Conn)
  | message (c : Conn) (opcode : ℕ) (data : Bytes)

/-- the code a CLOSE is answered with -/
def closeAnswer (payload : Bytes) : ℕ :=
  if payload.length = 1 then 1002
  else if 2 ≤ payload.length then
    let code := beNat (payload.take 2)
    if ¬ wsIsValidCloseCode code then 1002
    else if (wsUtf8Feed wsUtf8Reset (payload.drop 2)).all (fun st => ¬ wsUtf8Done st) then 1007
    else code
  else 1000

/-- the control frames; the payload is unmasked already -/
def wsControl (c : Conn) (h : WsFrameHdr) (payload : Bytes) : FrameStep :=
  if h.opcode = opPing then
    .next { c with
      tx := bufAppend true c.tx (frameNew opPong payload)
      rx := bufConsume c.rx (h.headerLen + h.payloadLen) }
  else if h.opcode = opClose then
    let c := sendCloseAndMark c (closeAnswer payload)
    .stop { c with rx := bufConsume c.rx (h.headerLen + h.payloadLen) }
  else .next { c with rx := bufConsume c.rx (h.headerLen + h.payloadLen) }

/-- the validator on one fragment; only TEXT is checked -/
def feedFragment (c : Conn) (h : WsFrameHdr) (payload : Bytes) : Option Utf8St :=
  if c.msgOpcode = opText ∧ 0 < h.payloadLen then wsUtf8Feed c.msgUtf8 payload else some c.msgUtf8

/-- after the fragment was joined: wait for the next one, or complete the message -/
def wsJoined (c : Conn) (fin : Bool) : FrameStep :=
  if ¬ fin then .next c
  else
    let c := { c with fragmenting := false }
    if c.msgOpcode = opText ∧ ¬ wsUtf8Done c.msgUtf8 then .stop (sendCloseAndMark c 1007)
    else .message { c with msg := bufReset c.msg } c.msgOpcode (bufData c.msg)

/-- the data frames, once the fragment is known to belong to an open message -/
def wsFragment (conf : ServerConfig) (c : Conn) (h : WsFrameHdr) (payload : Bytes) : FrameStep :=
  if conf.maxMessage < bufLen c.msg + h.payloadLen then .stop (sendCloseAndMark c 1009)
  else
    match feedFragment c h payload with
    | none => .stop (sendCloseAndMark c 1007)
    | some st =>
      wsJoined { c with
        msgUtf8 := st
        msg := bufAppend true c.msg payload
        rx := bufConsume c.rx (h.headerLen + h.payloadLen) } h.fin

/-- the data frames: a continuation needs an open message, any other opcode needs none -/
def wsData (conf : ServerConfig) (c : Conn) (h : WsFrameHdr) (payload : Bytes) : FrameStep :=
  if h.opcode = opCont then
    if ¬ c.fragmenting then .stop (sendCloseAndMark c 1002) else wsFragment conf c h payload
  else if c.fragmenting then .stop (sendCloseAndMark c 1002)
  else
    wsFragment conf
      { c with msgOpcode := h.opcode, fragmenting := true, msg := bufReset c.msg, msgUtf8 := wsUtf8Reset } h payload

/-- one pass of the loop of `handleWsOpen` -/
def wsFrame (conf : ServerConfig) (c : Conn) : FrameStep :=
  match wsParseHeader (bufData c.rx) with
  | .needMore => .wait
  | .errProto => .stop (sendCloseAndMark c 1002)
  | .ok h =>
    if ¬ h.masked then .stop (sendCloseAndMark c 1002)
    else if conf.maxFrame < h.payloadLen then .stop (sendCloseAndMark c 1009)
    else if bufLen c.rx < h.headerLen + h.payloadLen then .wait
    else
      let payload := wsUnmask (((bufData c.rx).drop h.headerLen).take h.payloadLen) h.maskKey
      let c := { c with rx := bufUnmask c.rx h.headerLen h.payloadLen h.maskKey }
      if h.opcode &&& 0x8 ≠ 0 then wsControl c h payload else wsData conf c h payload

/-- how the loop ends -/
inductive LoopEnd where
  | done (c : Conn)
  | park (c : Conn) (m : Msg)

/-- the loop; `marks` are the clock and the queue size read for each completed message in turn -/
def wsLoop (conf : ServerConfig) : ℕ → List (Timespec × ℕ) → Conn → LoopEnd × List Msg
  | 0, _, c => (.done c, [])
  | fuel + 1, marks, c =>
    if c.closeAfterSend then (.done c, [])
    else
      match wsFrame conf c with
      | .wait => (.done c, [])
      | .stop c => (.done c, [])
      | .next c => wsLoop conf fuel marks c
      | .message c opcode data =>
        let mark := marks.headD (⟨0, 0⟩, 0)
        let m := msgNewData c.id opcode mark.1 data
        if conf.highWatermark ≤ mark.2 then (.park c m, [])
        else
          let r := wsLoop conf fuel marks.tail c
          (r.1, m :: r.2)

/-- what the environment decides about one call of `handleWsOpen` -/
structure Wake where
  sizes : List ℕ
  marks : List (Timespec × ℕ)
  sends : List SendRes

/-- what one call of `handleWsOpen` does -/
structure WsOpenRun where
  disp : Disposition
  conn : Conn
  pushed : List Msg
  sent : Bytes

/-- the read of `handleWsOpen`; the flag is `eof` -/
def wsOpenRead (conf : ServerConfig) (sizes : List ℕ) (c : Conn) : Conn × Bool :=
  let r := bufRecv sizes c.sock c.rx 4096 (conf.maxMessage + conf.maxFrame)
  let c := { c with rx := r.2.1, sock := r.2.2 }
  (if r.1 = -2 then sendCloseAndMark c 1009 else c, r.1 = -1 ∨ r.1 = 2)

/-- the end of `handleWsOpen`: what is in tx goes out, and a connection at its end is closed -/
def wsOpenFlush (sends : List SendRes) (eof : Bool) (c : Conn) : Disposition × Conn × Bytes :=
  let r := flushTx sends c
  if eof ∧ r.1 ≠ .DISP_CLOSE then (.DISP_CLOSE, r.2.1, r.2.2) else r

def handleWsOpen (conf : ServerConfig) (w : Wake) (c : Conn) : WsOpenRun :=
  let r := wsOpenRead conf w.sizes c
  match wsLoop conf (bufLen r.1.rx + 1) w.marks r.1 with
  | (.park c m, pushed) => ⟨.DISP_PARKED, { c with pendingMsg := some m }, pushed, []⟩
  | (.done c, pushed) =>
    let f := wsOpenFlush w.sends r.2 c
    ⟨f.1, f.2.1, pushed, f.2.2⟩

end WsServer
