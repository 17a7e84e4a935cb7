/-
`src/ws_client.c`: what the upstream reactor does with one client.

The functions are the source's. A function that may fail returns `false` (or a negative number) next to the client it
leaves; what a caller does with a failure is the caller's. `upstreamFrame` is one pass of the loop body of
`processBufferedFrames`; a completed message is left to the caller, since the queue it goes to is shared.

What the environment decides is an `UpEnv`: the results of the system calls, the clock, the random bytes. A step of
the reactor makes each call at most once, so one record serves one step. Memory is available.

`ses` is a record of the present TCP session and never read: the accept value asked for, the bytes received and sent,
the frames queued, the messages that went to dataQueue; `past` are the records of the sessions before.
-/
import Mathlib
import WsServer.Proto.Rules
import WsServer.Conn.Conn
import WsServer.Proto.Http

namespace WsServer

open Ws

/-! ## The client -/

inductive UpstreamState where
  | UPSTREAM_DISCONNECTED | UPSTREAM_CONNECTING | UPSTREAM_HANDSHAKE | UPSTREAM_OPEN | UPSTREAM_CLOSING
deriving DecidableEq, Repr

/-- a registration in the reactor's epoll; EPOLLRDHUP is always part of it -/
structure Interest where
  inn : Bool
  out : Bool
deriving DecidableEq, Repr

structure UpSession where
  accept : Bytes
  request : Bytes
  got : Bytes
  out : Bytes
  frames : List Rules.ClientFrame
  published : List Msg
deriving DecidableEq

def UpSession.none : UpSession := ⟨[], [], [], [], [], []⟩

structure UpstreamClient where
  id : ℕ
  /-- no number is -1 -/
  fd : Option ℕ
  host : Bytes
  port : ℕ
  path : Bytes
  state : UpstreamState
  rx : Buf
  tx : Buf
  msg : Buf
  msgOpcode : ℕ
  fragmenting : Bool
  msgUtf8 : Utf8St
  expectedAccept : Bytes
  reconnectAtMs : ℕ
  reconnectAttempt : ℕ
  pendingMsg : Option Msg
  readPaused : Bool
  /-- the kernel's side: how the descriptor is registered -/
  interest : Option Interest
  ses : UpSession
  past : List UpSession

/-- the client `upstreamAdd` makes: host and path as they fit into their arrays -/
def upstreamAdd (id : ℕ) (host : Bytes) (port : ℕ) (path : Bytes) : Option UpstreamClient :=
  if port = 0 ∨ 65535 < port then none
  else
    some {
      id := id
      fd := none
      host := (cstr host).take 255
      port := port
      path := (cstr path).take 255
      state := .UPSTREAM_DISCONNECTED
      rx := Buf.empty
      tx := Buf.empty
      msg := Buf.empty
      msgOpcode := 0
      fragmenting := false
      msgUtf8 := wsUtf8Reset
      expectedAccept := []
      reconnectAtMs := 0
      reconnectAttempt := 0
      pendingMsg := none
      readPaused := false
      interest := none
      ses := .none
      past := [] }

/-! ## The environment -/

/-- what `randomBytes` delivers -/
abbrev Random (n : ℕ) := { b : Bytes // b.length = n }

/-- the result of one `recv` of `readUpstreamFrames` -/
inductive RecvRes where
  | got (bs : Bytes)
  | again
  | eof
  | err
deriving DecidableEq, Repr

/-- the flags of one event -/
structure EpollFlags where
  inn : Bool
  out : Bool
  rdhup : Bool
  hup : Bool
  err : Bool
deriving DecidableEq, Repr

inductive UpWait where
  | events (evs : List (ℕ × EpollFlags))
  | interrupted
  | failed
deriving DecidableEq, Repr

structure UpEnv where
  /-- the flag `shutdown` of the configuration, as it is read -/
  shutdown : Bool
  /-- `nowMs` -/
  now : ℕ
  /-- the clock `msgNewData` reads -/
  ts : Timespec
  /-- `getaddrinfo`, `socket` and `connect` together: the descriptor, if one was had -/
  fd : Option ℕ
  /-- `epoll_ctl` returns 0 -/
  ctl : Bool
  /-- SO_ERROR is clear -/
  connected : Bool
  nonce : Option (Random 16)
  mask : Option (Random 4)
  sends : List SendRes
  /-- the reads of `readHandshake`, and how the last of them ends -/
  reads : List Bytes × SockEnd
  recv : RecvRes
  wait : UpWait

/-! ## Connecting -/

/-- the loop of `reconnectDelayMs`: `attempt` doublings, while below the limit -/
def doubleDelay : ℕ → ℕ → ℕ
  | 0, delay => delay
  | attempt + 1, delay => if delay < 30000 then doubleDelay attempt (delay * 2) else delay

def reconnectDelayMs (attempt : ℕ) : ℕ := min (doubleDelay attempt 1000) 30000

/-- the next try, counted from `now` -/
def UpstreamClient.backoff (c : UpstreamClient) (now : ℕ) : UpstreamClient :=
  { c with
    reconnectAttempt := if c.reconnectAttempt < 10 then c.reconnectAttempt + 1 else c.reconnectAttempt
    reconnectAtMs := now + reconnectDelayMs c.reconnectAttempt }

def upstreamDisconnect (e : UpEnv) (c : UpstreamClient) : UpstreamClient :=
  UpstreamClient.backoff
    { c with
      fd := none
      interest := none
      rx := bufReset c.rx
      tx := bufReset c.tx
      msg := bufReset c.msg
      fragmenting := false
      readPaused := false
      pendingMsg := none
      state := .UPSTREAM_DISCONNECTED
      ses := .none
      past := c.past ++ [c.ses] } e.now

def upstreamConnect (e : UpEnv) (c : UpstreamClient) : Bool × UpstreamClient :=
  match e.fd with
  | none => (false, c)
  | some fd =>
    let c := { c with fd := some fd, state := .UPSTREAM_CONNECTING, ses := .none }
    if e.ctl then (true, { c with interest := some ⟨false, true⟩ })
    -- only the descriptor is taken back, the state stays CONNECTING
    else (false, { c with fd := none })

/-- the body of the loop of `reconnectClients` -/
def reconnectClient (e : UpEnv) (now : ℕ) (c : UpstreamClient) : UpstreamClient :=
  if c.state ≠ .UPSTREAM_DISCONNECTED then c
  else if now < c.reconnectAtMs then c
  else
    let r := upstreamConnect e c
    if r.1 then r.2 else r.2.backoff now

/-- the events `updateEvents` asks for -/
def UpstreamClient.wanted (c : UpstreamClient) : Interest where
  inn := ¬ c.readPaused ∧ (c.state = .UPSTREAM_HANDSHAKE ∨ c.state = .UPSTREAM_OPEN)
  out := c.state = .UPSTREAM_CONNECTING ∨ 0 < bufLen c.tx

def updateEvents (e : UpEnv) (c : UpstreamClient) : Bool × UpstreamClient :=
  if c.fd = none then (false, c)
  else if e.ctl then (true, { c with interest := some c.wanted })
  else (false, c)

theorem updateEvents_ok {e : UpEnv} {c : UpstreamClient} (hfd : c.fd ≠ none) (hctl : e.ctl = true) :
    updateEvents e c = (true, { c with interest := some c.wanted }) := by
  unfold updateEvents
  rw [if_neg hfd, if_pos hctl]

/-- the registration follows the client, or the call failed and nothing changed -/
theorem updateEvents_cases (e : UpEnv) (c : UpstreamClient) :
    updateEvents e c = (true, { c with interest := some c.wanted }) ∨ updateEvents e c = (false, c) := by
  unfold updateEvents
  split_ifs
  · exact Or.inr rfl
  · exact Or.inl rfl
  · exact Or.inr rfl

/-! ## The opening handshake -/

/-- the text `queueHandshake` formats -/
def handshakeRequest (host : Bytes) (port : ℕ) (path key : Bytes) : Bytes :=
  ascii "GET " ++ path ++ ascii " HTTP/1.1\r\nHost: " ++ host ++ ascii ":" ++ decimal port ++
    ascii "\r\nUpgrade: websocket\r\nConnection: Upgrade\r\nSec-WebSocket-Key: " ++ key ++
    ascii "\r\nSec-WebSocket-Version: 13\r\n\r\n"

def queueHandshake (e : UpEnv) (c : UpstreamClient) : Bool × UpstreamClient :=
  match e.nonce with
  | none => (false, c)
  | some nonce =>
    let key := base64Encode nonce.1
    match wsComputeAccept key with
    | none => (false, c)
    | some accept =>
      let c := { c with expectedAccept := accept }
      let request := handshakeRequest c.host c.port c.path key
      if 1024 ≤ request.length then (false, c)
      else
        updateEvents e { c with
          tx := bufAppend true (bufReset c.tx) request
          state := .UPSTREAM_HANDSHAKE
          ses := { c.ses with accept := accept, request := request } }

/-- the checks of `processHandshakeResponse` on a whole header block -/
def responseOk (accept block : Bytes) : Bool :=
  ¬ (block.length < 12 ∨ block.take 12 ≠ ascii "HTTP/1.1 101") ∧
    (httpFindHeader block (ascii "Upgrade")).any (httpHeaderHasToken · (ascii "websocket")) ∧
    (httpFindHeader block (ascii "Connection")).any (httpHeaderHasToken · (ascii "Upgrade")) ∧
    (httpFindHeader block (ascii "Sec-WebSocket-Accept")).any fun v => v.length = 28 ∧ v = accept.take 28

def processHandshakeResponse (conf : ServerConfig) (e : UpEnv) (c : UpstreamClient) : Bool × UpstreamClient :=
  match httpFindHeaderEnd (bufData c.rx) with
  | none => (¬ conf.handshakeMax < bufLen c.rx, c)
  | some i =>
    if responseOk c.expectedAccept ((bufData c.rx).take (i + 4)) then
      updateEvents e { c with
        rx := bufConsume c.rx (i + 4)
        state := .UPSTREAM_OPEN
        reconnectAttempt := 0 }
    else (false, c)

/-- received bytes go to rx -/
def UpstreamClient.receive (c : UpstreamClient) (bs : Bytes) : UpstreamClient :=
  { c with rx := bufAppend true c.rx bs, ses := { c.ses with got := c.ses.got ++ bs } }

def readHandshake (conf : ServerConfig) (e : UpEnv) (c : UpstreamClient) : Bool × UpstreamClient :=
  let c := e.reads.1.foldl UpstreamClient.receive c
  if e.reads.2 = .open then processHandshakeResponse conf e c else (false, c)

/-- the client whose request waits in tx -/
def UpstreamClient.withRequest (c : UpstreamClient) (accept key : Bytes) : UpstreamClient :=
  { c with
    expectedAccept := accept
    tx := bufAppend true (bufReset c.tx) (handshakeRequest c.host c.port c.path key)
    state := .UPSTREAM_HANDSHAKE
    ses := { c.ses with accept := accept, request := handshakeRequest c.host c.port c.path key } }

theorem queueHandshake_cases (e : UpEnv) (c : UpstreamClient) :
    (∃ accept, queueHandshake e c = (false, { c with expectedAccept := accept })) ∨
      ∃ accept key, queueHandshake e c = updateEvents e (c.withRequest accept key) := by
  unfold queueHandshake
  cases e.nonce with
  | none => exact .inl ⟨c.expectedAccept, rfl⟩
  | some nonce =>
    dsimp only
    cases wsComputeAccept (base64Encode nonce.1) with
    | none => exact .inl ⟨c.expectedAccept, rfl⟩
    | some accept =>
      dsimp only
      split_ifs
      · exact .inl ⟨accept, rfl⟩
      · exact .inr ⟨accept, _, rfl⟩

/-- reading changes nothing but rx and the record of the session -/
theorem receive_foldl (bss : List Bytes) (c : UpstreamClient) :
    bss.foldl UpstreamClient.receive c =
      { c with
        rx := (bss.foldl UpstreamClient.receive c).rx
        ses := { c.ses with got := (bss.foldl UpstreamClient.receive c).ses.got } } := by
  induction bss generalizing c with
  | nil => rfl
  | cons bs bss ih =>
    rw [List.foldl_cons, ih]
    rfl

/-- the client that has read, and waits for more or is given up, or has an open stream -/
theorem readHandshake_cases (conf : ServerConfig) (e : UpEnv) (c : UpstreamClient) :
    ∃ rx got, (∃ ok, readHandshake conf e c = (ok, { c with rx := rx, ses := { c.ses with got := got } })) ∨
      readHandshake conf e c = updateEvents e { c with
        rx := rx, ses := { c.ses with got := got }, state := .UPSTREAM_OPEN, reconnectAttempt := 0 } := by
  unfold readHandshake
  dsimp only
  rw [receive_foldl]
  split_ifs
  · unfold processHandshakeResponse
    split
    · exact ⟨_, _, .inl ⟨_, rfl⟩⟩
    · split_ifs
      · exact ⟨_, _, .inr rfl⟩
      · exact ⟨_, _, .inl ⟨_, rfl⟩⟩
  · exact ⟨_, _, .inl ⟨_, rfl⟩⟩

/-! ## Sending -/

/-- header and masked payload go to tx -/
def UpstreamClient.addFrame (c : UpstreamClient) (opcode : ℕ) (payload : Bytes) (mask : Random 4) : UpstreamClient :=
  let header := UInt8.ofNat (0x80 ||| (opcode &&& 0x0F)) :: encodeLen 0x80 payload.length ++ mask.1
  { c with
    tx := bufAppend true (bufAppend true c.tx header) (wsUnmask payload mask.1)
    ses := { c.ses with frames := c.ses.frames ++ [⟨true, opcode, payload, mask.1⟩] } }

def queueMaskedFrame (e : UpEnv) (c : UpstreamClient) (opcode : ℕ) (payload : Bytes) : Bool × UpstreamClient :=
  match e.mask with
  | none => (false, c)
  | some mask => updateEvents e (c.addFrame opcode payload mask)

def beginClose (e : UpEnv) (c : UpstreamClient) (code : ℕ) : Bool × UpstreamClient :=
  queueMaskedFrame e { c with state := .UPSTREAM_CLOSING } opClose (codeBytes code)

/-- the loop of `send` calls is that of `bufSend` -/
def flushUpstreamTx (e : UpEnv) (c : UpstreamClient) : Bool × UpstreamClient :=
  let r := bufSend e.sends c.tx
  let c := { c with tx := r.2.1, ses := { c.ses with out := c.ses.out ++ r.2.2 } }
  if r.1 = -1 then (false, c) else updateEvents e c

/-- the client that has sent -/
def UpstreamClient.afterSend (c : UpstreamClient) (e : UpEnv) : UpstreamClient :=
  { c with tx := (bufSend e.sends c.tx).2.1, ses := { c.ses with out := c.ses.out ++ (bufSend e.sends c.tx).2.2 } }

theorem flushUpstreamTx_cases (e : UpEnv) (c : UpstreamClient) :
    flushUpstreamTx e c = (false, c.afterSend e) ∨ flushUpstreamTx e c = updateEvents e (c.afterSend e) := by
  unfold flushUpstreamTx
  dsimp only
  split_ifs
  · exact .inl rfl
  · exact .inr rfl

/-! ## The frame loop -/

def SIZE_MAX : ℕ := 2 ^ 64 - 1

/-- how one pass of the loop ends: `return` (0 if the flag is set, else -1), `continue`, or a completed message -/
inductive UpStep where
  | ret (ok : Bool) (c : UpstreamClient)
  | next (c : UpstreamClient)
  | message (c : UpstreamClient) (opcode : ℕ) (data : Bytes)

/-- `if (beginClose(r, c, code) != 0) return -1; return 0` -/
def closeAndReturn (e : UpEnv) (c : UpstreamClient) (code : ℕ) : UpStep :=
  .ret (beginClose e c code).1 (beginClose e c code).2

/-- the control frames -/
def upstreamControl (e : UpEnv) (c : UpstreamClient) (h : WsFrameHdr) (payload : Bytes) : UpStep :=
  if h.fin = false ∨ 125 < h.payloadLen then closeAndReturn e c 1002
  else if h.opcode = opPing then
    let r := queueMaskedFrame e c opPong payload
    if r.1 then .next { r.2 with rx := bufConsume r.2.rx (h.headerLen + h.payloadLen) } else .ret false r.2
  else if h.opcode = opClose then
    if h.payloadLen = 1 then closeAndReturn e c 1002
    else
      let r := queueMaskedFrame e
        { c with rx := bufConsume c.rx (h.headerLen + h.payloadLen), state := .UPSTREAM_CLOSING } opClose payload
      .ret r.1 r.2
  else .next { c with rx := bufConsume c.rx (h.headerLen + h.payloadLen) }

/-- after the fragment was joined: wait for the next one, or complete the message -/
def upstreamJoined (e : UpEnv) (c : UpstreamClient) (fin : Bool) : UpStep :=
  if ¬ fin then .next c
  else
    let c := { c with fragmenting := false }
    if c.msgOpcode = opText ∧ ¬ wsUtf8Done c.msgUtf8 then closeAndReturn e c 1007
    else .message { c with msg := bufReset c.msg } c.msgOpcode (bufData c.msg)

/-- the validator on one fragment; only TEXT is checked -/
def feedPayload (c : UpstreamClient) (h : WsFrameHdr) (payload : Bytes) : Option Utf8St :=
  if c.msgOpcode = opText ∧ 0 < h.payloadLen then wsUtf8Feed c.msgUtf8 payload else some c.msgUtf8

/-- the data frames, once the fragment is known to belong to an open message -/
def upstreamFragment (conf : ServerConfig) (e : UpEnv) (c : UpstreamClient) (h : WsFrameHdr) (payload : Bytes) :
    UpStep :=
  let current := bufLen c.msg
  if conf.maxMessage < current ∨ conf.maxMessage - current < h.payloadLen then closeAndReturn e c 1009
  else
    match feedPayload c h payload with
    | none => closeAndReturn e c 1007
    | some st =>
      upstreamJoined e { c with
        msgUtf8 := st
        msg := bufAppend true c.msg payload
        rx := bufConsume c.rx (h.headerLen + h.payloadLen) } h.fin

def upstreamData (conf : ServerConfig) (e : UpEnv) (c : UpstreamClient) (h : WsFrameHdr) (payload : Bytes) : UpStep :=
  if h.opcode = opCont then
    if ¬ c.fragmenting then closeAndReturn e c 1002 else upstreamFragment conf e c h payload
  else if h.opcode = opText ∨ h.opcode = opBin then
    if c.fragmenting then closeAndReturn e c 1002
    else
      upstreamFragment conf e
        { c with msgOpcode := h.opcode, fragmenting := true, msg := bufReset c.msg, msgUtf8 := wsUtf8Reset } h payload
  else closeAndReturn e c 1002

/-- one pass of the loop of `processBufferedFrames` -/
def upstreamFrame (conf : ServerConfig) (e : UpEnv) (c : UpstreamClient) : UpStep :=
  if bufLen c.rx = 0 then .ret true c
  else
    match wsParseHeader (bufData c.rx) with
    | .needMore => .ret true c
    | .errProto => closeAndReturn e c 1002
    | .ok h =>
      -- a server must not mask its frames
      if h.masked then closeAndReturn e c 1002
      else if conf.maxFrame < h.payloadLen then closeAndReturn e c 1009
      else if SIZE_MAX - h.headerLen < h.payloadLen then .ret false c
      else if bufLen c.rx < h.headerLen + h.payloadLen then .ret true c
      else
        let payload := ((bufData c.rx).drop h.headerLen).take h.payloadLen
        if h.opcode &&& 0x8 ≠ 0 then upstreamControl e c h payload else upstreamData conf e c h payload

/-- `publishReactorMessage` once `msgNewData` made `m` and dataQueue was found to hold `size` messages: 1 if the client
was paused with it, -1 if that failed, 0 if `m` is to be pushed -/
def publishReactorMessage (conf : ServerConfig) (e : UpEnv) (size : ℕ) (c : UpstreamClient) (m : Msg) :
    ℤ × UpstreamClient :=
  if conf.highWatermark ≤ size then
    let r := updateEvents e { c with pendingMsg := some m, readPaused := true }
    if r.1 then (1, r.2) else (-1, { r.2 with pendingMsg := none, readPaused := false })
  else (0, c)

/-- a message went to dataQueue -/
def UpstreamClient.record (c : UpstreamClient) (m : Msg) : UpstreamClient :=
  { c with ses := { c.ses with published := c.ses.published ++ [m] } }

/-- the loop of `processBufferedFrames`; `env` is what the environment decides about pass after pass, with the queue
size read for a completed message -/
def framesLoop (conf : ServerConfig) : ℕ → (ℕ → UpEnv × ℕ) → UpstreamClient → ℤ × UpstreamClient
  | 0, _, c => (0, c)
  | fuel + 1, env, c =>
    match upstreamFrame conf (env 0).1 c with
    | .ret ok c => (if ok then 0 else -1, c)
    | .next c => framesLoop conf fuel (fun n => env (n + 1)) c
    | .message c opcode data =>
      let m := msgNewData c.id opcode (env 0).1.ts data
      let r := publishReactorMessage conf (env 0).1 (env 0).2 c m
      if r.1 = 0 then framesLoop conf fuel (fun n => env (n + 1)) (r.2.record m) else r

/-- `processBufferedFrames`: return code and client; every pass that goes on takes bytes from rx -/
def processBufferedFrames (conf : ServerConfig) (env : ℕ → UpEnv × ℕ) (c : UpstreamClient) : ℤ × UpstreamClient :=
  framesLoop conf (bufLen c.rx + 1) env c

/-! ## Values for concrete runs -/

/-- every call succeeds at once, nothing is read -/
def calmUp : UpEnv where
  shutdown := false
  now := 0
  ts := ⟨0, 0⟩
  fd := some 5
  ctl := true
  connected := true
  nonce := some ⟨List.replicate 16 7, rfl⟩
  mask := some ⟨[1, 2, 3, 4], rfl⟩
  sends := []
  reads := ([], .open)
  recv := .again
  wait := .interrupted

/-- an open client whose buffers were not used yet -/
def openClient (id : ℕ) : UpstreamClient where
  id := id
  fd := some 5
  host := ascii "feed"
  port := 80
  path := ascii "/"
  state := .UPSTREAM_OPEN
  rx := Buf.empty
  tx := Buf.empty
  msg := Buf.empty
  msgOpcode := 0
  fragmenting := false
  msgUtf8 := wsUtf8Reset
  expectedAccept := []
  reconnectAtMs := 0
  reconnectAttempt := 0
  pendingMsg := none
  readPaused := false
  interest := some ⟨true, false⟩
  ses := .none
  past := []

end WsServer
