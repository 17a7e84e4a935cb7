/-
The blocking client of `src/ws_client.c` (`wsClientThread`) beside the upstream reactor.

`processFrames` is an older copy of the frame loop of `processBufferedFrames`: one connection and one thread, answers
sent at once, and a wait in `publishUpstreamMessage` while dataQueue is full. `Twin` relates the two states field by
field; a pass of one loop is a pass of the other (`processFrame_paired`), but for the messages: `processFrames` calls
`publishUpstreamMessage` in front of `logMessage` and once more behind it, so each message is pushed twice.

- `processReads_looped`: the blocking loop answers what the documented rules say, and pushes every message twice.
- `same_messages_iff`: the two loops push the same messages, each once, if and only if the stream completes none.
- `message_pushed_twice`: one TEXT message, pushed twice.
-/
import Mathlib
import WsServer.Upstream.Agree

namespace WsServer

open Ws

/-! ## The client -/

/-- what a thread keeps for its connection; `frames` and `pushed` record what it sent and pushed, and are never read -/
structure WsClientRx where
  rx : Buf
  msg : Buf
  msgOpcode : ℕ
  fragmenting : Bool
  msgUtf8 : Utf8St
  frames : List Rules.ClientFrame
  pushed : List Msg

/-- what one pass of the loop finds: the random bytes, the result of `sendAll`, the clock at either `msgNewData`, and
what either wait reads, pass by pass, until it ends: the size of dataQueue and the flag `shutdown` -/
structure BlkEnv where
  mask : Option (Random 4)
  sent : Bool
  ts : Timespec × Timespec
  waits : List (ℕ × Bool) × List (ℕ × Bool)

def sendMaskedFrame (e : BlkEnv) (st : WsClientRx) (opcode : ℕ) (payload : Bytes) : Bool × WsClientRx :=
  match e.mask with
  | none => (false, st)
  | some mask =>
    if e.sent then (true, { st with frames := st.frames ++ [⟨true, opcode, payload, mask.1⟩] }) else (false, st)

/-- the wait of `publishUpstreamMessage`: true when there is room, false at a shutdown -/
def waitForRoom (high : ℕ) : List (ℕ × Bool) → Bool
  | [] => true
  | (size, shutdown) :: reads => if size < high then true else if shutdown then false else waitForRoom high reads

def publishUpstreamMessage (conf : ServerConfig) (ts : Timespec) (reads : List (ℕ × Bool)) (st : WsClientRx) :
    Bool × WsClientRx :=
  let m := msgNewData 0 st.msgOpcode ts (bufData st.msg)
  if waitForRoom conf.highWatermark reads then (true, { st with pushed := st.pushed ++ [m] }) else (false, st)

/-! ## The frame loop -/

/-- how one pass ends: `return`, or on to the next one -/
inductive BlkStep where
  | ret (rc : ℤ) (st : WsClientRx)
  | next (st : WsClientRx)

def protocolError (e : BlkEnv) (st : WsClientRx) (code : ℕ) : BlkStep :=
  .ret (-1) (sendMaskedFrame e st opClose (codeBytes code)).2

/-- the control frames -/
def blockingControl (e : BlkEnv) (st : WsClientRx) (h : WsFrameHdr) (payload : Bytes) : BlkStep :=
  if h.opcode = opPing then
    let r := sendMaskedFrame e st opPong payload
    if r.1 then .next { r.2 with rx := bufConsume r.2.rx (h.headerLen + h.payloadLen) } else .ret (-1) r.2
  else if h.opcode = opClose then
    if h.payloadLen = 1 then protocolError e st 1002
    else
      let st := (sendMaskedFrame e st opClose payload).2
      .ret 1 { st with rx := bufConsume st.rx (h.headerLen + h.payloadLen) }
  else .next { st with rx := bufConsume st.rx (h.headerLen + h.payloadLen) }

/-- after the fragment was joined -/
def blockingJoined (conf : ServerConfig) (e : BlkEnv) (st : WsClientRx) (fin : Bool) : BlkStep :=
  if ¬ fin then .next st
  else
    let st := { st with fragmenting := false }
    if st.msgOpcode = opText ∧ ¬ wsUtf8Done st.msgUtf8 then protocolError e st 1007
    else
      let r := publishUpstreamMessage conf e.ts.1 e.waits.1 st
      if ¬ r.1 then .ret (-1) r.2
      else
        -- msg is reset only behind the second call
        let r := publishUpstreamMessage conf e.ts.2 e.waits.2 r.2
        if ¬ r.1 then .ret (-1) r.2 else .next { r.2 with msg := bufReset r.2.msg }

/-- the data frames, once the fragment is known to belong to an open message -/
def blockingFragment (conf : ServerConfig) (e : BlkEnv) (st : WsClientRx) (h : WsFrameHdr) (payload : Bytes) : BlkStep :=
  let current := bufLen st.msg
  if conf.maxMessage < current ∨ conf.maxMessage - current < h.payloadLen then protocolError e st 1009
  else
    match if st.msgOpcode = opText ∧ 0 < h.payloadLen then wsUtf8Feed st.msgUtf8 payload else some st.msgUtf8 with
    | none => protocolError e st 1007
    | some utf8 =>
      blockingJoined conf e { st with
        msgUtf8 := utf8
        msg := bufAppend true st.msg payload
        rx := bufConsume st.rx (h.headerLen + h.payloadLen) } h.fin

def blockingData (conf : ServerConfig) (e : BlkEnv) (st : WsClientRx) (h : WsFrameHdr) (payload : Bytes) : BlkStep :=
  if h.opcode = opCont then
    if ¬ st.fragmenting then protocolError e st 1002 else blockingFragment conf e st h payload
  else if st.fragmenting then protocolError e st 1002
  else
    blockingFragment conf e
      { st with msgOpcode := h.opcode, fragmenting := true, msg := bufReset st.msg, msgUtf8 := wsUtf8Reset } h payload

/-- one pass of the loop of `processFrames` -/
def processFrame (conf : ServerConfig) (e : BlkEnv) (st : WsClientRx) : BlkStep :=
  if bufLen st.rx = 0 then .ret 0 st
  else
    match wsParseHeader (bufData st.rx) with
    | .needMore => .ret 0 st
    | .errProto => protocolError e st 1002
    | .ok h =>
      if h.masked then protocolError e st 1002
      else if conf.maxFrame < h.payloadLen then protocolError e st 1009
      else if SIZE_MAX - h.headerLen < h.payloadLen then protocolError e st 1009
      else if bufLen st.rx < h.headerLen + h.payloadLen then .ret 0 st
      else
        let payload := ((bufData st.rx).drop h.headerLen).take h.payloadLen
        if h.opcode &&& 0x8 ≠ 0 then blockingControl e st h payload else blockingData conf e st h payload

def processLoop (conf : ServerConfig) : ℕ → (ℕ → BlkEnv) → WsClientRx → ℤ × WsClientRx
  | 0, _, st => (0, st)
  | fuel + 1, env, st =>
    match processFrame conf (env 0) st with
    | .ret rc st => (rc, st)
    | .next st => processLoop conf fuel (fun n => env (n + 1)) st

/-- return code and connection; every pass that goes on takes bytes from rx -/
def processFrames (conf : ServerConfig) (env : ℕ → BlkEnv) (st : WsClientRx) : ℤ × WsClientRx :=
  processLoop conf (bufLen st.rx + 1) env st

/-- bytes go to rx, and `receiveLoop` calls `processFrames` again, until it returns something else than 0 -/
def processMore (conf : ServerConfig) (r : ℤ × WsClientRx) (x : Bytes × (ℕ → BlkEnv)) : ℤ × WsClientRx :=
  if r.1 = 0 then processFrames conf x.2 { r.2 with rx := bufAppend true r.2.rx x.1 } else r

/-! ## Pass by pass -/

/-- the frames sent so far, opcode and payload -/
def WsClientRx.answers (st : WsClientRx) : List (ℕ × Bytes) := st.frames.map fun f => (f.op, f.payload)

/-- everything in a list once more, in place -/
def doubled {α : Type} (l : List α) : List α := l.flatMap fun x => [x, x]

@[simp] theorem doubled_append {α : Type} (l l' : List α) : doubled (l ++ l') = doubled l ++ doubled l' :=
  List.flatMap_append

theorem length_doubled {α : Type} (l : List α) : (doubled l).length = 2 * l.length := by
  induction l with
  | nil => rfl
  | cons x l ih =>
    have hcons : doubled (x :: l) = x :: x :: doubled l := rfl
    rw [hcons, List.length_cons, List.length_cons, List.length_cons, ih]
    omega

/-- what both clients report to the outside: the same answers, the messages of one twice those of the other -/
structure SameOut (st : WsClientRx) (c : UpstreamClient) : Prop where
  answers : st.answers = c.answers
  pushed : contents st.pushed = doubled (contents c.ses.published)

/-- the reactor's client is open and reads, and the fields of the two loops are equal -/
structure Twin (st : WsClientRx) (c : UpstreamClient) : Prop extends SameOut st c where
  state : c.state = .UPSTREAM_OPEN
  fd : c.fd ≠ none
  paused : c.readPaused = false
  rx : st.rx = c.rx
  msg : st.msg = c.msg
  opcode : st.msgOpcode = c.msgOpcode
  fragmenting : st.fragmenting = c.fragmenting
  utf8 : st.msgUtf8 = c.msgUtf8

/-- the random bytes are there, the frame is sent, and dataQueue is below the high watermark at every look -/
structure BlkSmooth (conf : ServerConfig) (e : BlkEnv) : Prop where
  mask : e.mask.isSome = true
  sent : e.sent = true
  room : ∀ r, r ∈ e.waits.1 ∨ r ∈ e.waits.2 → r.1 < conf.highWatermark

/-- two passes that do the same -/
inductive Paired : BlkStep → UpStep → Prop where
  | rest {st : WsClientRx} {c : UpstreamClient} : Twin st c → Paired (.ret 0 st) (.ret true c)
  | stop {rc : ℤ} {st : WsClientRx} {c : UpstreamClient} : rc ≠ 0 → SameOut st c → c.state = .UPSTREAM_CLOSING →
      Paired (.ret rc st) (.ret true c)
  | next {st : WsClientRx} {c : UpstreamClient} : Twin st c → Paired (.next st) (.next c)
  /-- the message went to dataQueue twice, and has still to be pushed once -/
  | message {st : WsClientRx} {c : UpstreamClient} {op : ℕ} {data : Bytes} :
      (∀ ts, Twin st (c.record (msgNewData c.id op ts data))) → Paired (.next st) (.message c op data)

variable {conf : ServerConfig} {e : BlkEnv} {up : UpEnv} {st : WsClientRx} {c : UpstreamClient} {h : WsFrameHdr}
  {payload : Bytes}

theorem sendMaskedFrame_ok (hs : BlkSmooth conf e) (opcode : ℕ) :
    ∃ fs, sendMaskedFrame e st opcode payload = (true, { st with frames := fs }) ∧
      fs.map (fun f => (f.op, f.payload)) = st.answers ++ [(opcode, payload)] := by
  obtain ⟨mask, hmask⟩ := Option.isSome_iff_exists.1 hs.mask
  unfold sendMaskedFrame
  rw [hmask]
  dsimp only
  rw [if_pos hs.sent]
  exact ⟨_, rfl, by rw [List.map_append]; rfl⟩

theorem waitForRoom_ok {high : ℕ} {reads : List (ℕ × Bool)} (h : ∀ r ∈ reads, r.1 < high) :
    waitForRoom high reads = true := by
  cases reads with
  | nil => rfl
  | cons r reads =>
    unfold waitForRoom
    rw [if_pos (h r List.mem_cons_self)]

theorem publishUpstreamMessage_ok {reads : List (ℕ × Bool)} (hroom : ∀ r ∈ reads, r.1 < conf.highWatermark) (ts : Timespec) :
    publishUpstreamMessage conf ts reads st =
      (true, { st with pushed := st.pushed ++ [msgNewData 0 st.msgOpcode ts (bufData st.msg)] }) := by
  unfold publishUpstreamMessage
  dsimp only
  rw [if_pos (waitForRoom_ok hroom)]

/-- both send one more frame -/
theorem SameOut.sent {d : UpstreamClient} (ha : SameOut st c) (hs : BlkSmooth conf e) (hm : up.mask.isSome = true)
    (hctl : up.ctl = true) (hd : d.fd ≠ none) (hses : d.ses = c.ses) (opcode : ℕ) (payload : Bytes) :
    SameOut (sendMaskedFrame e st opcode payload).2 (queueMaskedFrame up d opcode payload).2 := by
  obtain ⟨fs, hsend, hfs⟩ := @sendMaskedFrame_ok conf e st payload hs opcode
  obtain ⟨-, hup⟩ := queueMaskedFrame_ok opcode payload hm hctl hd
  have hans : d.answers = c.answers := by unfold UpstreamClient.answers; rw [hses]
  rw [hsend]
  refine ⟨?_, ?_⟩
  · rw [hup, hans, ← ha.answers]
    exact hfs
  · rw [(queueMaskedFrame_queued up d opcode payload).ses]
    show contents st.pushed = doubled (contents d.ses.published)
    rw [hses]
    exact ha.pushed

/-- the environments of a pass let everything through -/
structure Lets (conf : ServerConfig) (e : BlkEnv) (up : UpEnv) : Prop where
  blocking : BlkSmooth conf e
  mask : up.mask.isSome = true
  ctl : up.ctl = true

/-- a violation ends both loops, with the same code -/
theorem protocolError_paired {d : UpstreamClient} (ha : SameOut st c) (hs : Lets conf e up) (hd : d.fd ≠ none)
    (hses : d.ses = c.ses) (code : ℕ) : Paired (protocolError e st code) (closeAndReturn up d code) := by
  have hd' : { d with state := UpstreamState.UPSTREAM_CLOSING }.fd ≠ none := hd
  have hok := (queueMaskedFrame_ok opClose (codeBytes code) hs.mask hs.ctl hd').1
  have hq := queueMaskedFrame_queued up { d with state := .UPSTREAM_CLOSING } opClose (codeBytes code)
  unfold protocolError closeAndReturn beginClose
  rw [hok]
  refine .stop (by decide) (ha.sent hs.blocking hs.mask hs.ctl hd' hses opClose _) ?_
  rw [hq.rest]

theorem control_paired (ht : Twin st c) (hs : Lets conf e up) (hok : h.fin = true ∧ h.payloadLen ≤ 125) :
    Paired (blockingControl e st h payload) (upstreamControl up c h payload) := by
  have hnot : ¬ (h.fin = false ∨ 125 < h.payloadLen) := by
    rintro (hf | hl)
    · rw [hok.1] at hf; cases hf
    · omega
  unfold blockingControl upstreamControl
  rw [if_neg hnot]
  by_cases hping : h.opcode = opPing
  · obtain ⟨hq, -⟩ := queueMaskedFrame_ok opPong payload hs.mask hs.ctl ht.fd
    have hrest := (queueMaskedFrame_queued up c opPong payload).rest
    obtain ⟨fs, hsend, -⟩ := @sendMaskedFrame_ok conf e st payload hs.blocking opPong
    have hsame := ht.toSameOut.sent hs.blocking hs.mask hs.ctl ht.fd rfl opPong payload
    rw [if_pos hping, if_pos hping]
    dsimp only
    rw [hq, if_pos rfl]
    rw [hsend] at hsame ⊢
    rw [if_pos rfl]
    refine .next ⟨⟨hsame.answers, hsame.pushed⟩, ?_, ?_, ?_, ?_, ?_, ?_, ?_, ?_⟩ <;> rw [hrest]
    · exact ht.state
    · exact ht.fd
    · exact ht.paused
    · exact congrArg (bufConsume · _) ht.rx
    · exact ht.msg
    · exact ht.opcode
    · exact ht.fragmenting
    · exact ht.utf8
  rw [if_neg hping, if_neg hping]
  by_cases hclose : h.opcode = opClose
  · rw [if_pos hclose, if_pos hclose]
    by_cases hone : h.payloadLen = 1
    · rw [if_pos hone, if_pos hone]
      exact protocolError_paired ht.toSameOut hs ht.fd rfl 1002
    · have hd : { c with
          rx := bufConsume c.rx (h.headerLen + h.payloadLen), state := UpstreamState.UPSTREAM_CLOSING }.fd ≠ none := ht.fd
      obtain ⟨hq, -⟩ := queueMaskedFrame_ok opClose payload hs.mask hs.ctl hd
      have hsame := ht.toSameOut.sent hs.blocking hs.mask hs.ctl hd rfl opClose payload
      rw [if_neg hone, if_neg hone]
      dsimp only
      rw [hq]
      refine .stop (by decide) ⟨hsame.answers, hsame.pushed⟩ ?_
      rw [(queueMaskedFrame_queued up _ opClose payload).rest]
  · rw [if_neg hclose, if_neg hclose]
    exact .next ⟨⟨ht.answers, ht.pushed⟩, ht.state, ht.fd, ht.paused, congrArg (bufConsume · _) ht.rx, ht.msg,
      ht.opcode, ht.fragmenting, ht.utf8⟩

/-- the complete message is pushed twice where the reactor has it to push once -/
theorem joined_paired (ht : Twin st c) (hs : Lets conf e up) (fin : Bool) :
    Paired (blockingJoined conf e st fin) (upstreamJoined up c fin) := by
  unfold blockingJoined upstreamJoined
  cases fin with
  | false => exact .next ht
  | true =>
    have hcond : (st.msgOpcode = opText ∧ ¬ wsUtf8Done st.msgUtf8 = true) ↔
        (c.msgOpcode = opText ∧ ¬ wsUtf8Done c.msgUtf8 = true) := by rw [ht.opcode, ht.utf8]
    simp only [not_true, if_false]
    by_cases hbad : c.msgOpcode = opText ∧ ¬ wsUtf8Done c.msgUtf8 = true
    · rw [if_pos hbad, if_pos (hcond.2 hbad)]
      have ht' : Twin { st with fragmenting := false } { c with fragmenting := false } :=
        ⟨⟨ht.answers, ht.pushed⟩, ht.state, ht.fd, ht.paused, ht.rx, ht.msg, ht.opcode, rfl, ht.utf8⟩
      exact protocolError_paired ht'.toSameOut hs ht'.fd rfl 1007
    · have hroom := hs.blocking.room
      rw [if_neg hbad, if_neg fun hb => hbad (hcond.1 hb), publishUpstreamMessage_ok fun r hr => hroom r (.inl hr),
        if_neg (by simp), publishUpstreamMessage_ok fun r hr => hroom r (.inr hr), if_neg (by simp)]
      refine .message fun ts => ⟨⟨ht.answers, ?_⟩, ht.state, ht.fd, ht.paused, ht.rx, ?_, ht.opcode, rfl, ht.utf8⟩
      · show contents (st.pushed ++ [_] ++ [_]) = doubled (contents (c.ses.published ++ [_]))
        rw [contents_append, contents_append, contents_append, doubled_append, ht.pushed, List.append_assoc, ← ht.msg,
          ← ht.opcode]
        rfl
      · exact congrArg bufReset ht.msg

theorem fragment_paired (ht : Twin st c) (hs : Lets conf e up) :
    Paired (blockingFragment conf e st h payload) (upstreamFragment conf up c h payload) := by
  unfold blockingFragment upstreamFragment feedPayload
  dsimp only
  rw [ht.msg, ht.opcode, ht.utf8]
  by_cases hbig : conf.maxMessage < bufLen c.msg ∨ conf.maxMessage - bufLen c.msg < h.payloadLen
  · rw [if_pos hbig, if_pos hbig]
    exact protocolError_paired ht.toSameOut hs ht.fd rfl 1009
  rw [if_neg hbig, if_neg hbig]
  generalize (if c.msgOpcode = opText ∧ 0 < h.payloadLen then wsUtf8Feed c.msgUtf8 payload else some c.msgUtf8) = fed
  cases fed with
  | none => exact protocolError_paired ht.toSameOut hs ht.fd rfl 1007
  | some utf8 =>
    have ht' : Twin
        { st with
          msgUtf8 := utf8, msg := bufAppend true st.msg payload, rx := bufConsume st.rx (h.headerLen + h.payloadLen) }
        { c with
          msgUtf8 := utf8, msg := bufAppend true c.msg payload, rx := bufConsume c.rx (h.headerLen + h.payloadLen) } :=
      ⟨⟨ht.answers, ht.pushed⟩, ht.state, ht.fd, ht.paused, congrArg (bufConsume · _) ht.rx,
        congrArg (bufAppend true · payload) ht.msg, ht.opcode, ht.fragmenting, rfl⟩
    rw [ht.msg, ht.opcode] at ht'
    exact joined_paired ht' hs h.fin

theorem data_paired (ht : Twin st c) (hs : Lets conf e up) (hop : IsOpcode h.opcode) (hdata : h.opcode &&& 0x8 = 0) :
    Paired (blockingData conf e st h payload) (upstreamData conf up c h payload) := by
  unfold blockingData upstreamData
  rw [ht.fragmenting]
  by_cases hcont : h.opcode = opCont
  · rw [if_pos hcont, if_pos hcont]
    split_ifs with hfrag
    · exact fragment_paired ht hs
    · exact protocolError_paired ht.toSameOut hs ht.fd rfl 1002
  -- the reactor tests for TEXT and BIN, which the parser leaves as the only other data frames
  have htb : h.opcode = opText ∨ h.opcode = opBin := by
    rcases hop with h' | h' | h' | h' | h' | h'
    · exact absurd h' hcont
    · exact .inl h'
    · exact .inr h'
    all_goals rw [h'] at hdata; exact absurd hdata (by decide)
  rw [if_neg hcont, if_neg hcont, if_pos htb]
  split_ifs with hfrag
  · exact protocolError_paired ht.toSameOut hs ht.fd rfl 1002
  · exact fragment_paired
      ⟨⟨ht.answers, ht.pushed⟩, ht.state, ht.fd, ht.paused, ht.rx, congrArg bufReset ht.msg, rfl, rfl, rfl⟩ hs

/-- **A pass of one loop is a pass of the other.** -/
theorem processFrame_paired (ht : Twin st c) (hs : Lets conf e up) :
    Paired (processFrame conf e st) (upstreamFrame conf up c) := by
  unfold processFrame upstreamFrame
  rw [ht.rx]
  by_cases hnil : bufLen c.rx = 0
  · rw [if_pos hnil, if_pos hnil]
    exact .rest ht
  rw [if_neg hnil, if_neg hnil]
  cases hp : wsParseHeader (bufData c.rx) with
  | needMore => exact .rest ht
  | errProto => exact protocolError_paired ht.toSameOut hs ht.fd rfl 1002
  | ok h =>
    have hg := wsParseHeader_good hp
    have hsz : ¬ SIZE_MAX - h.headerLen < h.payloadLen := by
      have h1 := hg.len_lt
      have h2 := hg.le_14
      unfold SIZE_MAX
      omega
    dsimp only
    rw [if_neg hsz, if_neg hsz]
    split_ifs with hmask hbig hshort hctl
    · exact protocolError_paired ht.toSameOut hs ht.fd rfl 1002
    · exact protocolError_paired ht.toSameOut hs ht.fd rfl 1009
    · exact .rest ht
    · exact control_paired ht hs (hg.control hctl)
    · exact data_paired ht hs hg.opcode (not_not.1 hctl)

/-! ## Read by read -/

/-- where both loops are after the same reads: both go on, or both have closed -/
inductive Together : ℤ × WsClientRx → ℤ × UpstreamClient → Prop where
  | going {st : WsClientRx} {c : UpstreamClient} : Twin st c → Together (0, st) (0, c)
  | closed {rc : ℤ} {st : WsClientRx} {c : UpstreamClient} : rc ≠ 0 → SameOut st c → c.state = .UPSTREAM_CLOSING →
      Together (rc, st) (0, c)

theorem Together.sameOut {r : ℤ × WsClientRx} {u : ℤ × UpstreamClient} (h : Together r u) : SameOut r.2 u.2 := by
  cases h with
  | going ht => exact ht.toSameOut
  | closed _ ha _ => exact ha

/-- the reactor's environment in which every call succeeds at once -/
abbrev calmEnv : ℕ → UpEnv × ℕ := fun _ => (calmUp, 0)

theorem processLoop_together (fuel : ℕ) {env : ℕ → BlkEnv} (hs : ∀ n, BlkSmooth conf (env n)) (ht : Twin st c) :
    Together (processLoop conf fuel env st) (framesLoop conf fuel calmEnv c) := by
  induction fuel generalizing env st c with
  | zero => exact .going ht
  | succ fuel ih =>
    have hp := @processFrame_paired conf (env 0) calmUp st c ht ⟨hs 0, rfl, rfl⟩
    unfold processLoop framesLoop
    dsimp only
    generalize processFrame conf (env 0) st = a at hp
    generalize upstreamFrame conf calmUp c = b at hp
    cases hp with
    | rest ht' => exact .going ht'
    | stop hrc ha hst => exact .closed hrc ha hst
    | next ht' => exact ih (fun n => hs (n + 1)) ht'
    | message hm =>
      have hlow : ¬ conf.highWatermark ≤ 0 := not_le.2 (Nat.lt_of_le_of_lt (Nat.zero_le _) conf.low_lt_high)
      dsimp only
      unfold publishReactorMessage
      rw [if_neg hlow]
      exact ih (fun n => hs (n + 1)) (hm calmUp.ts)

theorem processMore_together {r : ℤ × WsClientRx} {u : ℤ × UpstreamClient} {x : Bytes × (ℕ → BlkEnv)}
    (hs : ∀ n, BlkSmooth conf (x.2 n)) (h : Together r u) :
    Together (processMore conf r x) (readMore conf u (x.1, calmEnv)) := by
  unfold processMore readMore
  cases h with
  | closed hrc ha hst =>
    rw [if_neg hrc, if_neg fun hh => by rw [hst] at hh; exact absurd hh.2.2 nofun]
    exact .closed hrc ha hst
  | @going st c ht =>
    have ht' : Twin { st with rx := bufAppend true st.rx x.1 } (c.receive x.1) :=
      ⟨⟨ht.answers, ht.pushed⟩, ht.state, ht.fd, ht.paused, congrArg (bufAppend true · x.1) ht.rx, ht.msg, ht.opcode,
        ht.fragmenting, ht.utf8⟩
    rw [if_pos rfl, if_pos ⟨rfl, ht.paused, ht.state⟩]
    unfold processFrames processBufferedFrames
    rw [ht'.rx]
    exact processLoop_together _ hs ht'

/-- a connection of a thread that has read nothing yet -/
structure FreshBlocking (st : WsClientRx) : Prop where
  rx : st.rx = Buf.empty
  msg : st.msg = Buf.empty
  opcode : st.msgOpcode = 0
  fragmenting : st.fragmenting = false
  utf8 : st.msgUtf8 = wsUtf8Reset
  frames : st.frames = []
  pushed : st.pushed = []

theorem processReads_together {xs : List (Bytes × (ℕ → BlkEnv))} (hst : FreshBlocking st)
    (hs : ∀ x ∈ xs, ∀ n, BlkSmooth conf (x.2 n)) :
    Together (xs.foldl (processMore conf) (0, st))
      ((xs.map fun x => (x.1, calmEnv)).foldl (readMore conf) (0, openClient 0)) := by
  induction xs using List.reverseRecOn with
  | nil =>
    refine .going ⟨⟨?_, ?_⟩, rfl, by decide, rfl, hst.rx, hst.msg, hst.opcode, hst.fragmenting, hst.utf8⟩
    · unfold WsClientRx.answers
      rw [hst.frames]
      rfl
    · rw [hst.pushed]
      rfl
  | append_singleton xs x ih =>
    have h := ih fun y hy => hs y (List.mem_append_left _ hy)
    rw [List.map_append, List.foldl_append, List.foldl_append]
    exact processMore_together (hs x (List.mem_append_right _ (List.mem_singleton_self x))) h

/-- **The blocking loop follows the rules**, however the stream is cut, but pushes every message twice. -/
theorem processReads_looped {xs : List (Bytes × (ℕ → BlkEnv))} (hst : FreshBlocking st)
    (hs : ∀ x ∈ xs, ∀ n, BlkSmooth conf (x.2 n)) :
    let p := Rules.pass (upstreamLimits conf) none (xs.flatMap Prod.fst)
    (xs.foldl (processMore conf) (0, st)).2.answers = echoesOf p ∧
      contents (xs.foldl (processMore conf) (0, st)).2.pushed = doubled (Rules.messages p.events) := by
  have ha := (processReads_together hst hs).sameOut
  have hl := @readMore_looped conf (openClient 0) (xs.map fun x => (x.1, calmEnv))
    ⟨rfl, by decide, rfl, rfl, rfl, rfl, rfl⟩ (by
      intro y hy
      obtain ⟨x, -, rfl⟩ := List.mem_map.1 hy
      exact smooth_calmUp conf)
  have hflat : (xs.map fun x => (x.1, calmEnv)).flatMap Prod.fst = xs.flatMap Prod.fst := by
    rw [List.flatMap_map]
  rw [hflat] at hl
  refine ⟨?_, ?_⟩
  · rw [ha.answers, hl.answers]
    rfl
  · rw [ha.pushed, hl.published]
    rfl

/-! ## The comparison -/

/-- both push the messages the stream completes, in order and each once -/
def SameMessages (conf : ServerConfig) (bs : Bytes) (st : WsClientRx) (c : UpstreamClient) : Prop :=
  contents st.pushed = contents c.ses.published ∧
    contents st.pushed = Rules.messages (Rules.pass (upstreamLimits conf) none bs).events ∧
    contents c.ses.published = Rules.messages (Rules.pass (upstreamLimits conf) none bs).events

theorem doubled_eq_self {α : Type} {l : List α} (h : doubled l = l) : l = [] := by
  have hlen := congrArg List.length h
  rw [length_doubled] at hlen
  exact List.eq_nil_of_length_eq_zero (by omega)

/-- **The messages of the two loops.** A stream of bytes reaches the blocking client in some reads and the reactor in
others, with dataQueue below the high watermark. Both push its messages, each once, if and only if it completes none. -/
theorem same_messages_iff (conf : ServerConfig) (bs : Bytes) (st : WsClientRx) (hst : FreshBlocking st)
    (xs : List (Bytes × (ℕ → BlkEnv))) (hxs : xs.flatMap Prod.fst = bs) (hs : ∀ x ∈ xs, ∀ n, BlkSmooth conf (x.2 n))
    (c : UpstreamClient) (hc : FreshUpstream c) (ys : List (Bytes × (ℕ → UpEnv × ℕ))) (hys : ys.flatMap Prod.fst = bs)
    (hup : ∀ y ∈ ys, Smooth conf y.2) :
    SameMessages conf bs (xs.foldl (processMore conf) (0, st)).2 (ys.foldl (readMore conf) (0, c)).2 ↔
      Rules.messages (Rules.pass (upstreamLimits conf) none bs).events = [] := by
  obtain ⟨-, hblk⟩ := processReads_looped hst hs
  have hre := (readMore_looped hc hup).published
  rw [hxs] at hblk
  rw [hys, hc.published] at hre
  unfold SameMessages
  rw [hblk, hre]
  constructor
  · rintro ⟨-, h, -⟩
    exact doubled_eq_self h
  · intro h
    rw [h]
    exact ⟨rfl, rfl, rfl⟩

/-- a connection of a thread at its start -/
def freshBlocking : WsClientRx := ⟨Buf.empty, Buf.empty, 0, false, wsUtf8Reset, [], []⟩

/-- the environment in which every call succeeds, and no wait is needed -/
def calmBlk : BlkEnv := ⟨some (Rules.maskKey 1 2 3 4), true, (⟨0, 0⟩, ⟨0, 0⟩), ([], [])⟩

theorem blkSmooth_calm (conf : ServerConfig) : BlkSmooth conf calmBlk :=
  ⟨rfl, rfl, by rintro r (h | h) <;> cases h⟩

/-- a PING, read in two pieces on one side and at once on the other -/
theorem same_messages_iff_ping :
    SameMessages smallConf [0x89, 0x01, 0x21]
        ([([0x89], fun _ => calmBlk), ([0x01, 0x21], fun _ => calmBlk)].foldl (processMore smallConf) (0, freshBlocking)).2
        ([([0x89, 0x01, 0x21], calmEnv)].foldl (readMore smallConf) (0, openClient 9)).2 ↔
      Rules.messages (Rules.pass (upstreamLimits smallConf) none [0x89, 0x01, 0x21]).events = [] := by
  refine same_messages_iff smallConf _ freshBlocking ⟨rfl, rfl, rfl, rfl, rfl, rfl, rfl⟩ _ rfl ?_ (openClient 9)
    ⟨rfl, by decide, rfl, rfl, rfl, rfl, rfl⟩ _ rfl ?_
  · intro x hx n
    rcases List.mem_cons.1 hx with rfl | hx
    · exact blkSmooth_calm _
    · rw [List.mem_singleton.1 hx]
      exact blkSmooth_calm _
  · intro y hy
    rw [List.mem_singleton.1 hy]
    exact smooth_calmUp _

/-- **One TEXT message, pushed twice** by the blocking loop and once by the reactor. -/
theorem message_pushed_twice : ∃ (bs : Bytes) (st : WsClientRx) (c : UpstreamClient),
    st = ([(bs, fun _ => calmBlk)].foldl (processMore smallConf) (0, freshBlocking)).2 ∧
    c = ([(bs, calmEnv)].foldl (readMore smallConf) (0, openClient 9)).2 ∧
    bs = plainFrame true opText [0x68, 0x69] ∧ contents st.pushed = [(opText, [0x68, 0x69]), (opText, [0x68, 0x69])] ∧
    contents c.ses.published = [(opText, [0x68, 0x69])] ∧ ¬ SameMessages smallConf bs st c := by
  have hblk : contents ([(plainFrame true opText [0x68, 0x69], fun _ => calmBlk)].foldl
      (processMore smallConf) (0, freshBlocking)).2.pushed = [(opText, [0x68, 0x69]), (opText, [0x68, 0x69])] := by
    decide +kernel
  have hre : contents ([(plainFrame true opText [0x68, 0x69], calmEnv)].foldl
      (readMore smallConf) (0, openClient 9)).2.ses.published = [(opText, [0x68, 0x69])] := by decide +kernel
  refine ⟨_, _, _, rfl, rfl, rfl, hblk, hre, ?_⟩
  rintro ⟨hsame, -⟩
  rw [hblk, hre] at hsame
  cases hsame

end WsServer
