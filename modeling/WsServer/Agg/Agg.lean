/-
`src/agg.c`: the aggregator thread.

`AggSys` is what the thread works on: the part it shares with the other threads (connections, the two message queues,
the park list), its own `Agg`, and where it stands in `aggregatorThread` (`AggPc`). `aggStep` is one step of the thread.
A step ends where another thread could see a difference, so the parts of `resumeParked` (pop, push, clear, `epoll_ctl`)
are steps of their own.

What the environment decides about a step is an `AggEnv`: the results of its `send` and `recv` calls, and what
`epoll_wait` returns. Memory is available.

The fields below the line are a record of what happened and never read: every frame made (under its index), what each
sink was sent byte by byte, the messages taken from dataQueue, the frame of each, and what became of the frame
(`Packets.Fate`).
-/
import Mathlib
import WsServer.Core.Sender
import WsServer.Conn.Conn
import WsServer.Proto.Http

namespace WsServer

open Ws Packets

/-- a frame and the name it has in the record -/
abbrev Frame := Packet UInt8

structure AggSrc where
  id : ℕ
  alive : Bool
  msgCount : ℕ
  byteCount : ℕ
  lastTs : Timespec
deriving DecidableEq, Repr

def AGG_MAX_SOURCES : ℕ := 256

def DEFAULT_MAX_FRAME : ℕ := 64 * 1024

/-! ## Encoding a message -/

/-- index of the entry of a source, and the table with an entry for it; no index when the table is full -/
def findOrCreateSrc (src : List AggSrc) (id : ℕ) : Option ℕ × List AggSrc :=
  match src.findIdx? (·.id = id) with
  | some i => (some i, src)
  | none =>
    if AGG_MAX_SOURCES ≤ src.length then (none, src)
    else (some src.length, src ++ [⟨id, true, 0, 0, ⟨0, 0⟩⟩])

def aggSrcDown (src : List AggSrc) (srcId : ℕ) : List AggSrc :=
  match src.findIdx? (·.id = srcId) with
  | some i => src.modify i fun s => { s with alive := false }
  | none => src

/-- two hexadecimal digits of `%04x` for a byte below 0x20 -/
def hexDigit (n : ℕ) : UInt8 := if n < 10 then UInt8.ofNat (0x30 + n) else UInt8.ofNat (0x61 + (n - 10))

/-- the escape of one byte; a single byte stands for itself -/
def escapeByte (c : UInt8) : Bytes :=
  if c = 0x22 then ascii "\\\""
  else if c = 0x5C then ascii "\\\\"
  else if c = 0x0A then ascii "\\n"
  else if c = 0x0D then ascii "\\r"
  else if c = 0x09 then ascii "\\t"
  else if c < 0x20 then ascii "\\u00" ++ [hexDigit (c.toNat / 16), hexDigit (c.toNat % 16)]
  else [c]

/-- `jsonEscapeInto`: it stops at the first byte whose escape does not fit into `cap` -/
def jsonEscapeInto (cap : ℕ) : Bytes → Bytes
  | [] => []
  | c :: r =>
    if cap < (escapeByte c).length then []
    else escapeByte c ++ jsonEscapeInto (cap - (escapeByte c).length) r

/-- `%06ld` -/
def decimal6 (n : ℕ) : Bytes := List.replicate (6 - (decimal n).length) 0x30 ++ decimal n

/-- the text in front of the data: source, sequence number, time -/
def envelopeHead (srcId seq : ℕ) (ts : Timespec) : Bytes :=
  ascii "\x7b\"src\":" ++ decimal srcId ++ ascii ",\"seq\":" ++ decimal seq ++ ascii ",\"t\":" ++ decimal ts.sec ++
    ascii "." ++ decimal6 (ts.nsec / 1000) ++ ascii ",\"data\":\""

/-- opcode and payload of the frame of a message; `seq` is the count of the source -/
def encodeMsg (seq : ℕ) (m : Msg) : ℕ × Bytes :=
  if m.opcode = opBin then (opBin, m.data)
  else
    let head := envelopeHead m.srcId seq m.ts
    let cap := m.data.length * 6 + 128
    (opText, head ++ jsonEscapeInto (cap - head.length - 3) m.data ++ ascii "\"\x7d")

theorem encodeMsg_opcode (seq : ℕ) (m : Msg) : (encodeMsg seq m).1 = opBin ∨ (encodeMsg seq m).1 = opText := by
  unfold encodeMsg
  split_ifs
  · exact .inl rfl
  · exact .inr rfl

/-! ## State -/

structure Agg where
  src : List AggSrc
  sink : Option ℕ
  pending : Option Frame
  pendingOff : ℕ
  pendingCtrl : Option Frame
  pendingCtrlOff : ℕ
  statMsgsIn : ℕ
  statBytesIn : ℕ
  statMsgsOut : ℕ

/-- `aggInit` -/
def aggInit : Agg := ⟨[], none, none, 0, none, 0, 0, 0, 0⟩

inductive AggEvent where
  | wake
  | timer
  | conn (c : ℕ) (hup inn : Bool)
deriving DecidableEq, Repr

inductive WaitRc where
  | events (evs : List AggEvent)
  | interrupted
  | failed
deriving DecidableEq, Repr

structure AggEnv where
  sends : List SendRes
  sizes : List ℕ
  wait : WaitRc

/-- where the thread stands -/
inductive AggPc where
  /-- the `trypop` of ctrlQueue at the top of the loop -/
  | ctrl
  /-- `aggPump`: the sink is tested and flushed -/
  | pump
  /-- `queueSize(dataQueue) <= lowWatermark` -/
  | mark
  | unpark
  | rpush (c : ℕ)
  | rclear (c : ℕ)
  | radd (c : ℕ)
  /-- the `trypop` of dataQueue -/
  | take
  | exitData
  | exitCtrl (dataDone : Bool)
  | exitDrain
  | wait
  | events (evs : List AggEvent)
  /-- the two loops of `aggDrainForShutdown` -/
  | drainCtrl
  | drainData
  /-- behind the loop -/
  | final
  | done
deriving DecidableEq, Repr

structure AggSys where
  conn : ℕ → Conn
  dataQueue : Queue Msg
  ctrlQueue : Queue Msg
  park : List ℕ
  agg : Agg
  pc : AggPc
  -- the record
  made : List Frame
  wire : Log UInt8
  past : List (Log UInt8)
  cut : Bool
  popped : List Msg
  encoded : List (Msg × Frame)
  fates : List Fate
  discarded : List Msg

/-- the thread at its start; the shared part may hold anything -/
def AggSys.start (conn : ℕ → Conn) (dataQueue ctrlQueue : Queue Msg) (park : List ℕ) : AggSys :=
  ⟨conn, dataQueue, ctrlQueue, park, aggInit, .ctrl, [], [], [], false, [], [], [], []⟩

/-- the logs of all sinks so far, the present one last -/
def AggSys.logs (s : AggSys) : List (Log UInt8) := s.past ++ [s.wire]

/-- the next frame `frameNew` makes -/
def AggSys.newFrame (s : AggSys) (op : ℕ) (payload : Bytes) : Frame := ⟨s.made.length, frameNew op payload⟩

/-! ## Writing to the sink -/

/-- the loop of `send` calls on bytes `off..len`: code, offset reached, results not used; when the results are used up
the call would block -/
def sendFrom : List SendRes → ℕ → ℕ → ℤ × ℕ × List SendRes
  | [], len, off => if len ≤ off then (1, off, []) else (0, off, [])
  | r :: rs, len, off =>
    if len ≤ off then (1, off, r :: rs)
    else
      match r with
      | .again => (0, off, rs)
      | .err => (-1, off, rs)
      | .sent n => sendFrom rs len (off + min (max 1 n) (len - off))

/-- bytes `a..b` of a frame reach the sink -/
def AggSys.write (s : AggSys) (f : Frame) (a b : ℕ) : AggSys :=
  { s with wire := s.wire ++ (f.mark.drop a).take (b - a) }

/-- `sendCloseBestEffort` to the sink -/
def sendCloseBestEffort (s : AggSys) (sends : List SendRes) (code : ℕ) : AggSys :=
  let f := s.newFrame opClose (codeBytes code)
  { s with made := s.made ++ [f] }.write f 0 (sendFrom sends f.body.length 0).2.1

/-- `sinkFlushOne` on the control slot -/
def sinkFlushCtrl (s : AggSys) (sends : List SendRes) : ℤ × AggSys × List SendRes :=
  match s.agg.pendingCtrl with
  | none => (1, s, sends)
  | some f =>
    let r := sendFrom sends f.body.length s.agg.pendingCtrlOff
    let s' := s.write f s.agg.pendingCtrlOff r.2.1
    if r.1 = 1 then (1, { s' with agg := { s.agg with pendingCtrl := none, pendingCtrlOff := 0 } }, r.2.2)
    else (r.1, { s' with agg := { s.agg with pendingCtrlOff := r.2.1 } }, r.2.2)

/-- `sinkFlushOne` on the data slot -/
def sinkFlushData (s : AggSys) (sends : List SendRes) : ℤ × AggSys :=
  match s.agg.pending with
  | none => (1, s)
  | some f =>
    let r := sendFrom sends f.body.length s.agg.pendingOff
    let s' := s.write f s.agg.pendingOff r.2.1
    if r.1 = 1 then
      (1, { s' with
        agg := { s.agg with pending := none, pendingOff := 0 }
        fates := s.fates ++ [⟨s.past.length, true⟩] })
    else (r.1, { s' with agg := { s.agg with pendingOff := r.2.1 } })

/-- `sinkFlush`: the control slot goes first -/
def sinkFlush (s : AggSys) (sends : List SendRes) : ℤ × AggSys :=
  let r := sinkFlushCtrl s sends
  if r.1 ≤ 0 then (r.1, r.2.1) else sinkFlushData r.2.1 r.2.2

def closeSink (s : AggSys) : AggSys :=
  match s.agg.sink with
  | none => s
  | some k =>
    { s with
      conn := Function.update s.conn k (connClose (s.conn k))
      agg := { s.agg with sink := none, pending := none, pendingOff := 0, pendingCtrl := none, pendingCtrlOff := 0 }
      wire := []
      past := s.past ++ [s.wire]
      cut := false
      fates := if s.agg.pending.isSome then s.fates ++ [⟨s.past.length, false⟩] else s.fates }

def adoptSink (s : AggSys) (sends : List SendRes) (newSink : ℕ) : AggSys :=
  let s := if s.agg.sink.isSome then closeSink (sendCloseBestEffort s sends 1001) else s
  { s with
    conn := Function.update s.conn newSink { s.conn newSink with role := .ROLE_SINK }
    agg := { s.agg with sink := some newSink } }

/-- a control message, as both loops over ctrlQueue handle it -/
def handleCtrl (s : AggSys) (sends : List SendRes) (m : Msg) : AggSys :=
  match m.kind, m.conn with
  | .MSG_SINK_ADD, some c => adoptSink s sends c
  | .MSG_SRC_DOWN, _ => { s with agg := { s.agg with src := aggSrcDown s.agg.src m.srcId } }
  | _, _ => s

/-! ## Messages -/

/-- `aggOnMessage`: the frame, and the state with the source's entry and the counters moved on -/
def aggOnMessage (s : AggSys) (m : Msg) : Frame × AggSys :=
  let r := findOrCreateSrc s.agg.src m.srcId
  let src := match r.1 with
    | some i => r.2.modify i fun a =>
      { a with msgCount := a.msgCount + 1, byteCount := a.byteCount + m.data.length, lastTs := m.ts, alive := true }
    | none => r.2
  let seq := (r.1.bind fun i => src[i]?).elim 0 AggSrc.msgCount
  let e := encodeMsg seq m
  let f := s.newFrame e.1 e.2
  (f, { s with
    agg := { s.agg with
      src := src
      statMsgsIn := s.agg.statMsgsIn + 1
      statBytesIn := s.agg.statBytesIn + m.data.length
      statMsgsOut := s.agg.statMsgsOut + 1 }
    made := s.made ++ [f]
    encoded := s.encoded ++ [(m, f)] })

/-- a message of dataQueue in `aggPump`: its frame goes to the data slot -/
def takeMessage (s : AggSys) (m : Msg) : AggSys :=
  let r := aggOnMessage { s with popped := s.popped ++ [m] } m
  { r.2 with agg := { r.2.agg with pending := some r.1, pendingOff := 0 }, pc := .pump }

/-- `epoll_ctl(ADD)` of `resumeParked`: it fails while the descriptor is still registered -/
def epollAdd (c : Conn) : Conn :=
  if c.reg = .absent then { c with reg := .armed (0 < bufLen c.tx) } else c

/-! ## What the sink sends -/

/-- what the frame loop of `sinkReadAndHandle` leaves: rx, the payload of the PING it answers, the code it closes with -/
structure SinkScan where
  rx : Buf
  pong : Option Bytes
  verdict : Option ℕ

/-- the frame loop of `sinkReadAndHandle`; a PING is answered only while the control slot is free -/
def sinkFrames : ℕ → Option Bytes → Bool → Buf → SinkScan
  | 0, pong, _, rx => ⟨rx, pong, none⟩
  | fuel + 1, pong, free, rx =>
    match wsParseHeader (bufData rx) with
    | .needMore => ⟨rx, pong, none⟩
    | .errProto => ⟨rx, pong, some 1002⟩
    | .ok h =>
      if bufLen rx < h.headerLen + h.payloadLen then ⟨rx, pong, none⟩
      else
        let raw := ((bufData rx).drop h.headerLen).take h.payloadLen
        let payload := if h.masked then wsUnmask raw h.maskKey else raw
        let rest := bufConsume rx (h.headerLen + h.payloadLen)
        if h.opcode = opPing then
          if free then sinkFrames fuel (some payload) false rest else sinkFrames fuel pong free rest
        else if h.opcode = opClose then ⟨rest, pong, some 1000⟩
        else sinkFrames fuel pong free rest

/-- the reading half of `sinkReadAndHandle`: `recv` until the socket is empty or the limit is hit; the flag is `eof` -/
def sinkRecv (sizes : List ℕ) (c : Conn) : Conn × Bool :=
  let r := bufRecv sizes c.sock c.rx 4096 (DEFAULT_MAX_FRAME + 64)
  ({ c with rx := r.2.1, sock := r.2.2 }, r.1 = -2 ∨ r.1 = 2 ∨ r.1 = -1)

/-- what the sink's bytes ask for, once they are read -/
def sinkScan (s : AggSys) (sizes : List ℕ) (k : ℕ) : SinkScan :=
  let c := (sinkRecv sizes (s.conn k)).1
  sinkFrames (bufLen c.rx + 1) none s.agg.pendingCtrl.isNone c.rx

/-- a frame for the control slot -/
def AggSys.queuePong (s : AggSys) (payload : Bytes) : AggSys :=
  let f := s.newFrame opPong payload
  { s with made := s.made ++ [f], agg := { s.agg with pendingCtrl := some f, pendingCtrlOff := 0 } }

/-- `sinkReadAndHandle`; the flag is false when the sink is to be closed -/
def sinkReadAndHandle (s : AggSys) (e : AggEnv) (k : ℕ) : Bool × AggSys :=
  let r := sinkRecv e.sizes (s.conn k)
  let scan := sinkScan s e.sizes k
  let s := { s with conn := Function.update s.conn k { r.1 with rx := scan.rx } }
  let s := match scan.pong with
    | some payload => s.queuePong payload
    | none => s
  match scan.verdict with
  | some code => (false, sendCloseBestEffort s e.sends code)
  | none => (¬ r.2, s)

def handleEvent (s : AggSys) (e : AggEnv) : AggEvent → AggSys
  | .wake => s
  | .timer => s
  | .conn c hup inn =>
    if s.agg.sink ≠ some c then s
    else if hup then closeSink s
    else if inn then
      let r := sinkReadAndHandle s e c
      if r.1 then r.2 else closeSink r.2
    else s

/-! ## The thread -/

/-- a message of dataQueue in `aggDrainForShutdown`: one attempt to write it -/
def drainMessage (s : AggSys) (sends : List SendRes) (m : Msg) : AggSys :=
  if m.kind = .MSG_DATA ∧ s.agg.sink.isSome then
    let r := aggOnMessage s m
    let w := sendFrom sends r.1.body.length 0
    let s := r.2.write r.1 0 w.2.1
    { s with
      fates := s.fates ++ [⟨s.past.length, w.1 = 1⟩]
      cut := s.cut || (0 < w.2.1 && w.1 ≠ 1) }
  else { s with discarded := s.discarded ++ [m] }

/-- `aggFreeState`: what the parked connections hold is freed -/
def aggFreeState (s : AggSys) : AggSys :=
  { s with
    conn := fun c => if c ∈ s.park then { s.conn c with pendingMsg := none } else s.conn c
    park := [] }

/-- one step of `aggregatorThread` -/
def aggStep (conf : ServerConfig) (s : AggSys) (e : AggEnv) : Option AggSys :=
  match s.pc with
  | .ctrl =>
    match trypop s.ctrlQueue with
    | none => some { s with pc := .pump }
    | some (m, q) => some (handleCtrl { s with ctrlQueue := q } e.sends m)
  | .pump =>
    if s.agg.sink = none then some { s with pc := .exitData }
    else
      let r := sinkFlush s e.sends
      if r.1 < 0 then some { closeSink r.2 with pc := .exitData }
      else if r.1 = 0 then some { r.2 with pc := .exitData }
      else some { r.2 with pc := .mark }
  | .mark => some { s with pc := if queueSize s.dataQueue ≤ conf.lowWatermark then .unpark else .take }
  | .unpark =>
    match s.park with
    | [] => some { s with pc := .take }
    | c :: park => some { s with park := park, pc := .rpush c }
  | .rpush c =>
    -- a parked connection always holds a message; without one the C code would push NULL
    (s.conn c).pendingMsg.map fun m => { s with dataQueue := push s.dataQueue m, pc := .rclear c }
  | .rclear c =>
    some { s with conn := Function.update s.conn c { s.conn c with pendingMsg := none }, pc := .radd c }
  | .radd c => some { s with conn := Function.update s.conn c (epollAdd (s.conn c)), pc := .take }
  | .take =>
    match trypop s.dataQueue with
    | none => some { s with pc := .exitData }
    | some (m, q) => some (takeMessage { s with dataQueue := q } m)
  | .exitData => some { s with pc := .exitCtrl (queueIsShutdown s.dataQueue ∧ queueSize s.dataQueue = 0) }
  | .exitCtrl dataDone =>
    if dataDone ∧ queueIsShutdown s.ctrlQueue ∧ queueSize s.ctrlQueue = 0 then some { s with pc := .final }
    else some { s with pc := .exitDrain }
  | .exitDrain =>
    if queueIsShutdown s.dataQueue ∧ s.agg.sink = none then some { s with pc := .drainCtrl }
    else some { s with pc := .wait }
  | .wait =>
    match e.wait with
    | .interrupted => some { s with pc := .ctrl }
    | .failed => some { s with pc := .final }
    | .events evs => some { s with pc := .events evs }
  | .events [] => some { s with pc := .ctrl }
  | .events (ev :: evs) => some { handleEvent s e ev with pc := .events evs }
  | .drainCtrl =>
    match trypop s.ctrlQueue with
    | none => some { s with pc := .drainData }
    | some (m, q) => some (handleCtrl { s with ctrlQueue := q } e.sends m)
  | .drainData =>
    match trypop s.dataQueue with
    | none => some { s with pc := .final }
    | some (m, q) => some (drainMessage { s with dataQueue := q, popped := s.popped ++ [m] } e.sends m)
  | .final =>
    let s := if s.agg.sink.isSome then closeSink (sendCloseBestEffort s e.sends 1001) else s
    some { aggFreeState s with pc := .done }
  | .done => none

end WsServer
