/-
The server as a system: listeners, any number of workers, the aggregator, and the network between them.

The state is what the threads share (`AggSys` without the aggregator's own part, the ingest queue), what each thread has
in its hands, and a record of the messages completed in `handleWsOpen`. A label is one step of one thread or of the
network; a step ends where another thread could see a difference, so the park step of `handleWsOpen` is three
steps (`parkStore`, `parkPush`, `parkDel`), and `resumeParked` four (`unpark`, `rpush`, `rclear`, `radd`).

- `Act.fetch`: `epoll_wait` of a listener returns a connection that is armed and ready, and takes its one shot.
- `workerStep`: one step of a worker; `WPc` is where it stands and what it holds.
- `srvStep`: one step of the system.

Nothing is shut down here; accepted connections get fresh ids, as `connNew` gives them.
-/
import Mathlib
import WsServer.Agg.Agg
import WsServer.Worker.Worker

namespace WsServer

open Ws

/-- where a worker stands -/
inductive WPc where
  /-- the `pop` of the ingest queue -/
  | idle
  /-- the switch over `c->state` -/
  | run (c : ℕ)
  | hsSend (c : ℕ)
  /-- the sink goes to the aggregator: `epoll_ctl(DEL)`, then `push(ctrlQueue)` -/
  | handoffDel (c : ℕ)
  | handoffPush (c : ℕ)
  /-- `handleWsOpen`: the read, the head of the loop, the test of the watermark, the push -/
  | recv (c : ℕ)
  | loop (c : ℕ) (eof : Bool)
  | check (c : ℕ) (eof : Bool) (m : Msg)
  | push (c : ℕ) (eof : Bool) (m : Msg)
  /-- the park step: store, `parkListPush`, `epoll_ctl(DEL)` -/
  | parkStore (c : ℕ) (m : Msg)
  | parkPush (c : ℕ)
  | parkDel (c : ℕ)
  | flush (c : ℕ) (eof : Bool)
  | apply (c : ℕ) (disp : Disposition)
deriving DecidableEq, Repr

structure Srv where
  sys : AggSys
  queue : Queue ℕ
  fetched : List ℕ
  workers : ℕ → WPc
  nextId : ℕ
  /-- the record: the messages each source completed in `handleWsOpen` -/
  completed : ℕ → List Msg

/-- what the environment decides about one step of a worker -/
structure WorkEnv where
  sizes : List ℕ
  sends : List SendRes
  ts : Timespec

inductive Act where
  | accept
  /-- bytes and the end of the stream reach a socket -/
  | deliver (c : ℕ) (bytes : Bytes) (fin : SockEnd)
  | fetch (c : ℕ)
  /-- the listener pushes what it fetched -/
  | enqueue (c : ℕ)
  | worker (w : ℕ) (e : WorkEnv)
  | agg (e : AggEnv)

def Srv.conn (s : Srv) (c : ℕ) : Conn := s.sys.conn c

def Srv.setConn (s : Srv) (c : ℕ) (v : Conn) : Srv :=
  { s with sys := { s.sys with conn := Function.update s.sys.conn c v } }

def Srv.goto (s : Srv) (w : ℕ) (pc : WPc) : Srv := { s with workers := Function.update s.workers w pc }

/-- nothing is accepted yet -/
def Srv.start : Srv where
  sys := .start (fun id => { connNew id with reg := .absent, live := false }) createQueue createQueue []
  queue := createQueue
  fetched := []
  workers := fun _ => .idle
  nextId := 1
  completed := fun _ => []

def workerStep (conf : ServerConfig) (s : Srv) (w : ℕ) (e : WorkEnv) : Option Srv :=
  match s.workers w with
  | .idle =>
    match pop s.queue with
    | .item c q => some ({ s with queue := q }.goto w (.run c))
    | _ => none
  | .run c =>
    match (s.conn c).state with
    | .ST_HANDSHAKE_READ =>
      match handleHandshakeRead conf e.sizes (s.conn c) with
      | .ret disp v => some ((s.setConn c v).goto w (.apply c disp))
      | .send v => some ((s.setConn c v).goto w (.hsSend c))
    | .ST_HANDSHAKE_SEND => some (s.goto w (.hsSend c))
    | .ST_WS_OPEN => some (s.goto w (.recv c))
  | .hsSend c =>
    match handleHandshakeSend e.sends (s.conn c) with
    | .ret disp v => some ((s.setConn c v).goto w (.apply c disp))
    | .handoff v => some ((s.setConn c v).goto w (.handoffDel c))
    | .wsOpen v => some ((s.setConn c v).goto w (.recv c))
  | .handoffDel c => some ((s.setConn c { s.conn c with reg := .absent }).goto w (.handoffPush c))
  | .handoffPush c =>
    some ({ s with sys := { s.sys with ctrlQueue := push s.sys.ctrlQueue (msgNewSinkAdd c) } }.goto w .idle)
  | .recv c =>
    let r := wsOpenRead conf e.sizes (s.conn c)
    some ((s.setConn c r.1).goto w (.loop c r.2))
  | .loop c eof =>
    if (s.conn c).closeAfterSend then some (s.goto w (.flush c eof))
    else
      match wsFrame conf (s.conn c) with
      | .wait => some (s.goto w (.flush c eof))
      | .stop v => some ((s.setConn c v).goto w (.flush c eof))
      | .next v => some ((s.setConn c v).goto w (.loop c eof))
      | .message v opcode data =>
        let m := msgNewData v.id opcode e.ts data
        some ({ s.setConn c v with completed := Function.update s.completed c (s.completed c ++ [m]) }.goto w
          (.check c eof m))
  | .check c eof m =>
    some (s.goto w (if conf.highWatermark ≤ queueSize s.sys.dataQueue then .parkStore c m else .push c eof m))
  | .push c eof m => some ({ s with sys := { s.sys with dataQueue := push s.sys.dataQueue m } }.goto w (.loop c eof))
  | .parkStore c m => some ((s.setConn c { s.conn c with pendingMsg := some m }).goto w (.parkPush c))
  | .parkPush c => some ({ s with sys := { s.sys with park := s.sys.park ++ [c] } }.goto w (.parkDel c))
  | .parkDel c => some ((s.setConn c { s.conn c with reg := .absent }).goto w .idle)
  | .flush c eof =>
    let r := wsOpenFlush e.sends eof (s.conn c)
    some ((s.setConn c r.2.1).goto w (.apply c r.1))
  | .apply c disp => some ((s.setConn c (applyDisposition (s.conn c) disp)).goto w .idle)

def srvStep (conf : ServerConfig) (s : Srv) : Act → Option Srv
  | .accept => some { s.setConn s.nextId (connNew s.nextId) with nextId := s.nextId + 1 }
  | .deliver c bytes fin =>
    if (s.conn c).live ∧ (s.conn c).sock.fin = .open then
      some (s.setConn c { s.conn c with sock := ⟨(s.conn c).sock.inq ++ bytes, fin⟩ })
    else none
  | .fetch c =>
    if (s.conn c).live ∧ (∃ out, (s.conn c).reg = .armed out) ∧ (s.conn c).ready then
      some { s.setConn c { s.conn c with reg := .disabled } with fetched := s.fetched ++ [c] }
    else none
  | .enqueue c => if c ∈ s.fetched then some { s with fetched := s.fetched.erase c, queue := push s.queue c } else none
  | .worker w e => workerStep conf s w e
  | .agg e => (aggStep conf s.sys e).map fun t => { s with sys := t }

/-! ## Values for concrete runs -/

/-- the marks are small, so that two messages are enough for a park -/
def tinyConf : ServerConfig :=
  { smallConf with highWatermark := 2, lowWatermark := 1, low_lt_high := by decide, low_pos := by decide }

/-- an opening handshake -/
def hello (path : String) : Bytes :=
  ascii "GET " ++ ascii path ++ ascii " HTTP/1.1\r\nUpgrade: websocket\r\nConnection: Upgrade\r\n" ++
    ascii "Sec-WebSocket-Key: dGhlIHNhbXBsZSBub25jZQ==\r\nSec-WebSocket-Version: 13\r\n\r\n"

/-- a masked BIN message of one byte -/
def binFrame (b : UInt8) : Bytes := [0x82, 0x81, 0, 0, 0, 0, b]

/-- every send takes all it is given -/
def calmWork : WorkEnv := ⟨[], [.sent 1000], ⟨0, 0⟩⟩

def calmAgg : AggEnv := ⟨[.sent 1000], [], .events []⟩

/-- a sink, and a source with three messages and more behind them; the third is stored and the source in the park list -/
def parkRun (more : Bytes) : List Act :=
  [Act.accept, .deliver 1 (hello "/feed") .open, .fetch 1, .enqueue 1] ++ List.replicate 5 (Act.worker 0 calmWork) ++
    List.replicate 2 (Act.agg calmAgg) ++
    [Act.accept, .deliver 2 (hello "/" ++ binFrame 1 ++ binFrame 2 ++ binFrame 3 ++ more) .open, .fetch 2, .enqueue 2] ++
    List.replicate 14 (Act.worker 0 calmWork)

end WsServer
