/-
`inc/conn.h`, `inc/agg.h` and `inc/server.h`: configuration, messages and connections.

`Conn` is `Conn_t` together with the kernel's side of its descriptor: the socket and the registration in the ingest
epoll. A connection is named by its `id`, which `connNew` never gives twice; where the C code holds a `Conn_t*`, the
model holds the id. A freed connection stays in the table with `live = false`.

`ServerConfig` carries what `parseArgs` checks before it returns 0, so every value of the type is a configuration the
program can run with.
-/
import Mathlib
import WsServer.Conn.Buf
import WsServer.Conn.Queue
import WsServer.Proto.Base64

namespace WsServer

open Ws

structure ServerConfig where
  sinkPath : Bytes
  handshakeMax : ℕ
  maxFrame : ℕ
  maxMessage : ℕ
  highWatermark : ℕ
  lowWatermark : ℕ
  handshakeMax_pos : 0 < handshakeMax
  maxFrame_pos : 0 < maxFrame
  maxFrame_lt : maxFrame < 2 ^ 63
  maxMessage_pos : 0 < maxMessage
  maxMessage_lt : maxMessage < 2 ^ 63
  low_lt_high : lowWatermark < highWatermark
  low_pos : 0 < lowWatermark

structure Timespec where
  sec : ℕ
  nsec : ℕ
deriving DecidableEq, Repr

/-! ## Messages -/

inductive MsgKind where
  | MSG_DATA | MSG_SRC_DOWN | MSG_SINK_ADD
deriving DecidableEq, Repr

structure Msg where
  kind : MsgKind
  srcId : ℕ
  opcode : ℕ
  ts : Timespec
  conn : Option ℕ
  data : Bytes
deriving DecidableEq, Repr

def msgNewData (srcId opcode : ℕ) (ts : Timespec) (payload : Bytes) : Msg :=
  ⟨.MSG_DATA, srcId, opcode, ts, none, payload⟩

def msgNewSrcDown (srcId : ℕ) : Msg := ⟨.MSG_SRC_DOWN, srcId, 0, ⟨0, 0⟩, none, []⟩

def msgNewSinkAdd (c : ℕ) : Msg := ⟨.MSG_SINK_ADD, 0, 0, ⟨0, 0⟩, some c, []⟩

/-! ## Connections -/

inductive Role where
  | ROLE_UNDECIDED | ROLE_SOURCE | ROLE_SINK
deriving DecidableEq, Repr

inductive ConnState where
  | ST_HANDSHAKE_READ | ST_HANDSHAKE_SEND | ST_WS_OPEN
deriving DecidableEq, Repr

/-- the descriptor in its ingest epoll: absent, registered with its one shot spent, or armed (`out`: for writing too) -/
inductive Reg where
  | absent
  | disabled
  | armed (out : Bool)
deriving DecidableEq, Repr

structure Conn where
  id : ℕ
  role : Role
  state : ConnState
  closeAfterSend : Bool
  rx : Buf
  tx : Buf
  msg : Buf
  msgOpcode : ℕ
  fragmenting : Bool
  msgUtf8 : Utf8St
  pendingMsg : Option Msg
  sock : Sock
  reg : Reg
  live : Bool

/-- `connNew`, registered in the listener's epoll as `connectionHandle` does it next -/
def connNew (id : ℕ) : Conn where
  id := id
  role := .ROLE_UNDECIDED
  state := .ST_HANDSHAKE_READ
  closeAfterSend := false
  rx := Buf.empty
  tx := Buf.empty
  msg := Buf.empty
  msgOpcode := 0
  fragmenting := false
  msgUtf8 := ⟨0, .U8_NONE⟩
  pendingMsg := none
  sock := ⟨[], .open⟩
  reg := .armed false
  live := true

/-- `connClose`: out of its epoll, descriptor closed, memory freed -/
def connClose (c : Conn) : Conn := { c with reg := .absent, live := false, pendingMsg := none }

/-- a level the kernel reports: bytes to read, the end of the stream, or room to write where it was asked for -/
def Conn.ready (c : Conn) : Prop := c.sock.inq ≠ [] ∨ c.sock.fin ≠ .open ∨ c.reg = .armed true

instance (c : Conn) : Decidable c.ready := by unfold Conn.ready; infer_instance

/-! ## Values for concrete runs -/

/-- limits as an operator may set them: `--max-frame 16 --max-message 5000` -/
def smallConf : ServerConfig where
  sinkPath := ascii "/feed"
  handshakeMax := 8192
  maxFrame := 16
  maxMessage := 5000
  highWatermark := 256
  lowWatermark := 128
  handshakeMax_pos := by decide
  maxFrame_pos := by decide
  maxFrame_lt := by decide
  maxMessage_pos := by decide
  maxMessage_lt := by decide
  low_lt_high := by decide
  low_pos := by decide

/-- an open source whose buffers were not used yet -/
def freshConn (id : ℕ) : Conn :=
  { connNew id with role := .ROLE_SOURCE, state := .ST_WS_OPEN, msgUtf8 := wsUtf8Reset }

end WsServer
