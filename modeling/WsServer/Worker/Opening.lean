/-
The opening handshake over read events: `handleHandshakeRead` once for each, until the end of the header is found.

- `hsRead_more`, `hsRead_done`, `hsRead_over`: one call, as long as the header is incomplete, when its end has arrived,
  and when one more chunk does not fit the limit. The last depends on all bytes in rx, pipelined frames included.
- `request_read_iff`: however the bytes are cut, a request is answered as `httpParseHandshake` judges its block exactly
  when the bytes that arrived with its end leave room for a whole chunk below `handshakeMax`.
- `long_request_refused`: a request within `handshakeMax` that is answered 431.
- `messages_published_iff`: a source that sends its request, complete messages and an EOF gets all of them published
  exactly when the read that completes the header does not see the EOF, or there are no messages.
- `eof_discards_messages`: request, message and EOF in one read; the message is lost.
-/
import Mathlib
import WsServer.Proto.Block
import WsServer.Worker.Runs

namespace WsServer

open Ws

/-! ## Read events -/

/-- what arrives before a call of `handleHandshakeRead`, and what its `recv` calls return at most -/
structure HsEvent where
  bytes : Bytes
  fin : SockEnd
  sizes : List ℕ

def hsArrive (c : Conn) (e : HsEvent) : Conn := { c with sock := ⟨c.sock.inq ++ e.bytes, e.fin⟩ }

/-- one call for each event, as long as the connection is rearmed for reading -/
def hsReads (conf : ServerConfig) : Conn → List HsEvent → HsRead
  | c, [] => .ret .DISP_REARM_IN c
  | c, e :: es =>
    match handleHandshakeRead conf e.sizes (hsArrive c e) with
    | .ret .DISP_REARM_IN c => hsReads conf c es
    | r => r

/-- the connection answers what its block asks for: response, role, and whether it stays open; `rest` is left in rx -/
structure Answered (conf : ServerConfig) (block rest : Bytes) (eof : Bool) (c : Conn) : Prop where
  tx : bufData c.tx = hsResponse (httpParseHandshake block)
  close : c.closeAfterSend = (decide ((httpParseHandshake block).status ≠ .HS_OK) || eof)
  role : (httpParseHandshake block).status = .HS_OK →
    c.role = if cstr (httpParseHandshake block).path = conf.sinkPath then .ROLE_SINK else .ROLE_SOURCE
  state : c.state = .ST_HANDSHAKE_SEND
  rx : bufData c.rx = rest
  inq : c.sock.inq = []
  fragmenting : c.fragmenting = false

/-- the connection has read `bs`, which is no whole header yet -/
structure HsReading (conf : ServerConfig) (c : Conn) (bs : Bytes) : Prop where
  rx : bufData c.rx = bs
  unended : httpFindHeaderEnd bs = none
  cap : c.rx.cap ≤ conf.handshakeMax
  inq : c.sock.inq = []
  tx : bufData c.tx = []
  opened : c.closeAfterSend = false
  state : c.state = .ST_HANDSHAKE_READ
  fragmenting : c.fragmenting = false

variable {conf : ServerConfig} {c : Conn} {bs : Bytes} {e : HsEvent}

theorem HsReading.start (conf : ServerConfig) (id : ℕ) : HsReading conf (connNew id) [] :=
  ⟨rfl, rfl, Nat.zero_le _, rfl, rfl, rfl, rfl, rfl⟩

/-! ## One call -/

/-- what the read of the call leaves: -2 exactly when the bytes and one more chunk exceed the limit -/
theorem HsReading.recv (h : HsReading conf c bs) (e : HsEvent) :
    let r := bufRecv e.sizes (hsArrive c e).sock (hsArrive c e).rx 4096 conf.handshakeMax
    (r.1 = -2 ↔ conf.handshakeMax < (bs ++ e.bytes).length + 4096) ∧ r.2.1.cap ≤ conf.handshakeMax ∧
      (r.1 ≠ -2 → bufData r.2.1 = bs ++ e.bytes ∧ r.2.2.inq = [] ∧
        r.1 = if e.fin = .open then (if e.bytes ≠ [] then 1 else 0) else (if e.bytes ≠ [] then 2 else -1)) := by
  have hpos : conf.handshakeMax ≠ 0 := Nat.pos_iff_ne_zero.1 conf.handshakeMax_pos
  have harrive : hsArrive c e = { c with sock := ⟨e.bytes, e.fin⟩ } := by
    unfold hsArrive
    rw [h.inq, List.nil_append]
  rw [harrive]
  dsimp only
  obtain ⟨hdata, -, hlim, hall⟩ := bufRecv_spec (show 0 < 4096 by norm_num) hpos e.sizes ⟨e.bytes, e.fin⟩ c.rx
  have hgrow := @bufRecv_cap_le 4096 conf.handshakeMax hpos e.sizes ⟨e.bytes, e.fin⟩ c.rx
  have hlen : bufLen c.rx = bs.length := by rw [← length_bufData, h.rx]
  rw [max_eq_right h.cap] at hlim hgrow
  refine ⟨?_, hgrow, fun hne => ?_⟩
  · rw [hlim, hlen, List.length_append]
  · obtain ⟨hnil, hrc⟩ := hall hne
    rw [hnil, List.append_nil, h.rx] at hdata
    exact ⟨hdata, hnil, hrc⟩

/-- the bytes and one more chunk exceed the limit: 431 -/
theorem hsRead_over (h : HsReading conf c bs) (hover : conf.handshakeMax < (bs ++ e.bytes).length + 4096) :
    ∃ v, handleHandshakeRead conf e.sizes (hsArrive c e) = .send v ∧ bufData v.tx = hsTooLarge := by
  obtain ⟨hlim, -, -⟩ := h.recv e
  unfold handleHandshakeRead
  dsimp only
  rw [hlim.2 hover, if_neg (by decide), if_pos rfl]
  refine ⟨_, rfl, ?_⟩
  rw [bufAppend_data]
  show bufData c.tx ++ _ = _
  rw [h.tx]
  rfl

/-- the header is still incomplete -/
theorem hsRead_more (h : HsReading conf c bs) (hfit : (bs ++ e.bytes).length + 4096 ≤ conf.handshakeMax)
    (hend : httpFindHeaderEnd (bs ++ e.bytes) = none) (hopen : e.fin = .open) :
    ∃ v, handleHandshakeRead conf e.sizes (hsArrive c e) = .ret .DISP_REARM_IN v ∧ HsReading conf v (bs ++ e.bytes) := by
  obtain ⟨hlim, hcap, hall⟩ := h.recv e
  have hne : ¬ _ = (-2 : ℤ) := fun he => absurd (hlim.1 he) (not_lt.2 hfit)
  obtain ⟨hdata, hinq, hrc⟩ := hall hne
  rw [if_pos hopen] at hrc
  unfold handleHandshakeRead
  dsimp only
  refine ⟨{ hsArrive c e with
      rx := (bufRecv e.sizes (hsArrive c e).sock (hsArrive c e).rx 4096 conf.handshakeMax).2.1
      sock := (bufRecv e.sizes (hsArrive c e).sock (hsArrive c e).rx 4096 conf.handshakeMax).2.2 },
    ?_, hdata, hend, hcap, hinq, h.tx, h.opened, h.state, h.fragmenting⟩
  rw [if_neg (by rw [hrc]; split_ifs <;> decide), if_neg hne, hdata, hend]
  by_cases he : e.bytes = []
  · rw [if_pos (by rw [hrc, if_neg (not_not.2 he)])]
  · rw [if_neg (by rw [hrc, if_pos he]; decide)]
    dsimp only
    rw [hrc, if_pos he]
    rfl

/-- the end of the header is there -/
theorem hsRead_done {i : ℕ} (h : HsReading conf c bs) (hfit : (bs ++ e.bytes).length + 4096 ≤ conf.handshakeMax)
    (hend : httpFindHeaderEnd (bs ++ e.bytes) = some i) :
    ∃ v, handleHandshakeRead conf e.sizes (hsArrive c e) = .send v ∧
      Answered conf ((bs ++ e.bytes).take (i + 4)) ((bs ++ e.bytes).drop (i + 4)) (decide (e.fin ≠ .open)) v := by
  obtain ⟨hlim, hcap, hall⟩ := h.recv e
  have hne : ¬ _ = (-2 : ℤ) := fun he => absurd (hlim.1 he) (not_lt.2 hfit)
  obtain ⟨hdata, hinq, hrc⟩ := hall hne
  -- without new bytes the header would have been complete before
  have hnew : e.bytes ≠ [] := by
    rintro he
    rw [he, List.append_nil, h.unended] at hend
    cases hend
  rw [if_pos hnew, if_pos hnew] at hrc
  unfold handleHandshakeRead
  dsimp only
  rw [if_neg (by rw [hrc]; split_ifs <;> decide), if_neg hne, if_neg (by rw [hrc]; split_ifs <;> decide), hdata, hend]
  dsimp only
  have heof : decide ((bufRecv e.sizes (hsArrive c e).sock (hsArrive c e).rx 4096 conf.handshakeMax).1 = 2) =
      decide (e.fin ≠ .open) := by
    rw [hrc]
    split_ifs with hfin <;> simp [hfin]
  cases hst : (httpParseHandshake ((bs ++ e.bytes).take (i + 4))).status with
  | HS_OK =>
    refine ⟨_, rfl, ?_, ?_, fun _ => rfl, rfl, ?_, hinq, h.fragmenting⟩
    · rw [bufAppend_data, hsResponse, hst]
      show bufData c.tx ++ _ = _
      rw [h.tx]
      rfl
    · rw [hst]
      simpa using heof
    · rw [bufConsume_data, hdata]
  | HS_NOT_UPGRADE | HS_BAD_VERSION | HS_BAD_REQUEST =>
    refine ⟨_, rfl, ?_, ?_, fun hok => ?_, rfl, ?_, hinq, h.fragmenting⟩
    · rw [bufAppend_data, hsResponse, hst]
      show bufData c.tx ++ _ = _
      rw [h.tx]
      rfl
    · rw [hst]
      rfl
    · rw [hst] at hok
      cases hok
    · rw [bufConsume_data, hdata]

/-! ## A request in pieces -/

/-- `block` is a header block: its end is the first one in it -/
def IsHeader (block : Bytes) : Prop := 4 ≤ block.length ∧ httpFindHeaderEnd block = some (block.length - 4)

/-- how many bytes have arrived when byte `n` has -/
def arrivedWith (n : ℕ) : ℕ → List HsEvent → ℕ
  | sofar, [] => sofar
  | sofar, e :: es =>
    if n ≤ sofar + e.bytes.length then sofar + e.bytes.length else arrivedWith n (sofar + e.bytes.length) es

theorem le_arrivedWith (n sofar : ℕ) (es : List HsEvent) : sofar ≤ arrivedWith n sofar es := by
  induction es generalizing sofar with
  | nil => exact le_refl _
  | cons e es ih =>
    unfold arrivedWith
    split_ifs
    · omega
    · exact le_trans (by omega) (ih _)

theorem hsReads_send {v : Conn} {es : List HsEvent} (h : handleHandshakeRead conf e.sizes (hsArrive c e) = .send v) :
    hsReads conf c (e :: es) = .send v := by
  unfold hsReads
  rw [h]

theorem hsReads_rearm {v : Conn} {es : List HsEvent}
    (h : handleHandshakeRead conf e.sizes (hsArrive c e) = .ret .DISP_REARM_IN v) :
    hsReads conf c (e :: es) = hsReads conf v es := by
  rw [hsReads, h]

/-- the calls behind a prefix that is no whole header: with room for a chunk the block is answered, without it 431 -/
theorem hsReads_spec {block frames : Bytes} (hblock : IsHeader block) {es : List HsEvent} (h : HsReading conf c bs)
    (hes : bs ++ es.flatMap HsEvent.bytes = block ++ frames) (hopen : ∀ e ∈ es, e.fin = .open) :
    (arrivedWith block.length bs.length es + 4096 ≤ conf.handshakeMax →
      ∃ v, hsReads conf c es = .send v ∧
        Answered conf block (frames.take (arrivedWith block.length bs.length es - block.length)) false v) ∧
    (conf.handshakeMax < arrivedWith block.length bs.length es + 4096 →
      ∃ v, hsReads conf c es = .send v ∧ bufData v.tx = hsTooLarge) := by
  have hwhole : httpFindHeaderEnd (block ++ frames) = some (block.length - 4) := httpFindHeaderEnd_append hblock.2 frames
  have hfour := hblock.1
  induction es generalizing c bs with
  | nil =>
    rw [List.flatMap_nil, List.append_nil] at hes
    have hno := h.unended
    rw [hes, hwhole] at hno
    cases hno
  | cons e es ih =>
    rw [List.flatMap_cons, ← List.append_assoc] at hes
    have hpre : bs ++ e.bytes = (block ++ frames).take (bs ++ e.bytes).length := by
      rw [← hes, List.take_left]
    unfold arrivedWith
    rw [← List.length_append]
    by_cases hall : block.length ≤ (bs ++ e.bytes).length
    · rw [if_pos hall]
      constructor
      · intro hfit
        have hend : httpFindHeaderEnd (bs ++ e.bytes) = some (block.length - 4) := by
          rw [hpre]
          exact httpFindHeaderEnd_take hwhole (by omega)
        obtain ⟨v, hv, hans⟩ := hsRead_done h hfit hend
        have hcut : (bs ++ e.bytes).take (block.length - 4 + 4) = block := by
          rw [Nat.sub_add_cancel hfour, hpre, List.take_take, min_eq_left hall, List.take_left]
        have hrest : (bs ++ e.bytes).drop (block.length - 4 + 4) =
            frames.take ((bs ++ e.bytes).length - block.length) := by
          rw [Nat.sub_add_cancel hfour]
          conv_lhs => rw [hpre]
          rw [List.drop_take, List.drop_left]
        rw [hcut, hrest, hopen e List.mem_cons_self] at hans
        exact ⟨v, hsReads_send hv, hans⟩
      · intro hover
        obtain ⟨v, hv, htx⟩ := hsRead_over h hover
        exact ⟨v, hsReads_send hv, htx⟩
    · rw [if_neg hall]
      have hle := le_arrivedWith block.length (bs ++ e.bytes).length es
      have hend : httpFindHeaderEnd (bs ++ e.bytes) = none := by
        rw [hpre]
        exact httpFindHeaderEnd_short hwhole (by omega)
      by_cases hfit : (bs ++ e.bytes).length + 4096 ≤ conf.handshakeMax
      · obtain ⟨v, hv, hread⟩ := hsRead_more h hfit hend (hopen e List.mem_cons_self)
        rw [hsReads_rearm hv]
        exact ih hread hes fun x hx => hopen x (List.mem_cons_of_mem _ hx)
      · refine ⟨fun hf => absurd hf (by omega), fun _ => ?_⟩
        obtain ⟨v, hv, htx⟩ := hsRead_over h (not_le.1 hfit)
        exact ⟨v, hsReads_send hv, htx⟩

/-- 431 is no response to a block -/
theorem hsTooLarge_ne (hr : HandshakeResult) : hsTooLarge ≠ hsResponse hr := by
  have h101 : ∀ accept, hsTooLarge ≠ httpBuildUpgradeResponse accept := by
    intro accept h
    have := congrArg (List.take 10) h
    rw [httpBuildUpgradeResponse, List.append_assoc, List.take_append_of_le_length (by decide)] at this
    revert this
    decide
  have h400 : hsTooLarge ≠ httpBuildError 400 "Bad Request" "" := by decide
  have h426 : hsTooLarge ≠ httpBuildError 426 "Upgrade Required" "Sec-WebSocket-Version: 13\r\n" := by decide
  unfold hsResponse
  cases hr.status with
  | HS_OK => exact h101 _
  | HS_BAD_VERSION => exact h426
  | HS_NOT_UPGRADE | HS_BAD_REQUEST => exact h400

/-- **A request in pieces.** However a request and what follows it are cut into read events without an EOF, it is
answered as `httpParseHandshake` judges its block if and only if the bytes that have arrived with the end of the block
leave room for a chunk of 4096 below `handshakeMax`. -/
theorem request_read_iff (conf : ServerConfig) (id : ℕ) (block frames : Bytes) (hblock : IsHeader block)
    (es : List HsEvent) (hes : es.flatMap HsEvent.bytes = block ++ frames) (hopen : ∀ e ∈ es, e.fin = .open) :
    (∃ v rest, hsReads conf (connNew id) es = .send v ∧ bufData v.tx ≠ hsTooLarge ∧ Answered conf block rest false v) ↔
      arrivedWith block.length 0 es + 4096 ≤ conf.handshakeMax := by
  obtain ⟨hgood, hbad⟩ := hsReads_spec hblock (.start conf id) hes hopen
  constructor
  · rintro ⟨v, rest, hv, hne, -⟩
    by_contra hover
    obtain ⟨v', hv', htx⟩ := hbad (not_le.1 hover)
    rw [hv] at hv'
    obtain rfl := HsRead.send.inj hv'
    exact hne htx
  · intro hfit
    obtain ⟨v, hv, hans⟩ := hgood hfit
    exact ⟨v, _, hv, hans.tx ▸ (hsTooLarge_ne _).symm, hans⟩

/-- the lines of a correct request, a cookie of `n` bytes the last of them -/
def cookieLines (n : ℕ) : List HeaderLine :=
  [⟨ascii "Upgrade", ascii "websocket"⟩, ⟨ascii "Connection", ascii "Upgrade"⟩,
    ⟨ascii "Sec-WebSocket-Key", ascii "dGhlIHNhbXBsZSBub25jZQ=="⟩, ⟨ascii "Sec-WebSocket-Version", ascii "13"⟩,
    ⟨ascii "Cookie", List.replicate n 0x61⟩]

def cookieRequest (n : ℕ) : Bytes := headerBlock (ascii "GET / HTTP/1.1") (cookieLines n)

theorem cookieLines_valid (n : ℕ) : ∀ h ∈ cookieLines n, h.Valid := by
  have hname : 0x3A ∉ ascii "Cookie" ∧ 0x0D ∉ ascii "Cookie" := by decide
  have hvalue : 0x0D ∉ List.replicate n (0x61 : UInt8) := fun hmem =>
    absurd (List.eq_of_mem_replicate hmem) (by decide)
  unfold cookieLines
  simp only [List.forall_mem_cons, List.not_mem_nil, false_imp_iff, implies_true, and_true]
  exact ⟨⟨by decide, by decide, by decide⟩, ⟨by decide, by decide, by decide⟩, ⟨by decide, by decide, by decide⟩,
    ⟨by decide, by decide, by decide⟩, hname.1, hname.2, hvalue⟩

theorem cookieRequest_header (n : ℕ) : IsHeader (cookieRequest n) := by
  have hend := @httpFindHeaderEnd_block (ascii "GET / HTTP/1.1") (by decide) (cookieLines n) (cookieLines_valid n) []
  rw [List.append_nil] at hend
  refine ⟨?_, hend⟩
  have hfirst : (ascii "GET / HTTP/1.1").length = 14 := by decide
  unfold cookieRequest headerBlock
  simp only [List.length_append]
  omega

theorem request_read_iff_short : ∃ v rest, hsReads smallConf (connNew 1)
      [⟨(cookieRequest 3).take 40, .open, []⟩, ⟨(cookieRequest 3).drop 40, .open, []⟩] = .send v ∧
    bufData v.tx ≠ hsTooLarge ∧ Answered smallConf (cookieRequest 3) rest false v :=
  (request_read_iff smallConf 1 (cookieRequest 3) [] (cookieRequest_header 3) _ (by simp) (by simp)).2 (by decide +kernel)

/-- **A long request is refused**: it is within `handshakeMax`, it asks for an upgrade correctly, and it is answered 431. -/
theorem long_request_refused : ∃ block : Bytes, IsHeader block ∧ block.length ≤ smallConf.handshakeMax ∧
    (httpParseHandshake block).status = .HS_OK ∧
    ∃ v, hsReads smallConf (connNew 1) [⟨block, .open, []⟩] = .send v ∧ bufData v.tx = hsTooLarge := by
  refine ⟨cookieRequest 4000, cookieRequest_header 4000, by decide +kernel, by decide +kernel, ?_⟩
  obtain ⟨v, hv, htx⟩ := @hsRead_over smallConf (connNew 1) [] ⟨cookieRequest 4000, .open, []⟩ (.start smallConf 1)
    (by decide +kernel)
  exact ⟨v, hsReads_send hv, htx⟩

/-! ## A source that closes behind its last message -/

/-- what a connection publishes: handshake calls, the send of the response, and read events of `handleWsOpen`, the first
of them in the call that sent the response -/
def publishedBy (conf : ServerConfig) (id : ℕ) (hs : List HsEvent) (sends : List SendRes) (es : List ReadEvent) : List Msg :=
  match hsReads conf (connNew id) hs with
  | .ret _ _ => []
  | .send c =>
    match handleHandshakeSend sends c with
    | .wsOpen c => (wsOpenRuns conf (Session.start c) es).published
    | _ => []

/-- calls that find no end of the header lead to a connection that has read their bytes -/
theorem hsReads_before {es : List HsEvent} (h : HsReading conf c bs)
    (hend : httpFindHeaderEnd (bs ++ es.flatMap HsEvent.bytes) = none)
    (hfit : (bs ++ es.flatMap HsEvent.bytes).length + 4096 ≤ conf.handshakeMax) (hopen : ∀ e ∈ es, e.fin = .open) :
    ∃ v, HsReading conf v (bs ++ es.flatMap HsEvent.bytes) ∧ ∀ tail, hsReads conf c (es ++ tail) = hsReads conf v tail := by
  induction es generalizing c bs with
  | nil =>
    rw [List.flatMap_nil, List.append_nil]
    exact ⟨c, h, fun tail => rfl⟩
  | cons e es ih =>
    rw [List.flatMap_cons, ← List.append_assoc] at hend hfit ⊢
    have hno : httpFindHeaderEnd (bs ++ e.bytes) = none := by
      by_contra hne
      obtain ⟨i, hi⟩ := Option.ne_none_iff_exists'.1 hne
      rw [httpFindHeaderEnd_append hi] at hend
      cases hend
    obtain ⟨v, hv, hread⟩ := hsRead_more h (by rw [List.length_append] at hfit; omega) hno (hopen e List.mem_cons_self)
    obtain ⟨u, hu, htail⟩ := ih hread hend hfit fun x hx => hopen x (List.mem_cons_of_mem _ hx)
    exact ⟨u, hu, fun tail => by rw [List.cons_append, hsReads_rearm hv, htail]⟩

/-- a response sent in full leaves an open source to `handleWsOpen` -/
theorem Answered.opens {block rest : Bytes} (h : Answered conf block rest false c)
    (hok : (httpParseHandshake block).status = .HS_OK)
    (hpath : cstr (httpParseHandshake block).path ≠ conf.sinkPath) {sends : List SendRes}
    (hsend : (bufSend sends c.tx).1 = 1) :
    ∃ v, handleHandshakeSend sends c = .wsOpen v ∧ FreshOpen v ∧ bufData v.rx = rest := by
  have hempty := (bufSend_rc sends c.tx).1 hsend
  have hclose : c.closeAfterSend = false := by
    rw [h.close, hok]
    rfl
  have hrole : c.role ≠ .ROLE_SINK := by
    rw [h.role hok, if_neg hpath]
    nofun
  have hflush : flushTx sends c = (.DISP_REARM_IN, { c with tx := (bufSend sends c.tx).2.1 }, (bufSend sends c.tx).2.2) := by
    unfold flushTx
    dsimp only
    rw [hsend, if_neg (by decide), if_neg (by decide), if_neg (by rw [hclose]; nofun)]
  unfold handleHandshakeSend
  dsimp only
  rw [hflush]
  dsimp only
  rw [if_neg (not_not.2 rfl), if_neg hrole]
  exact ⟨_, rfl, ⟨hclose, h.fragmenting, hempty, h.inq⟩, h.rx⟩

/-- with an EOF behind the header the connection ends with the response -/
theorem Answered.ends {block rest : Bytes} (h : Answered conf block rest true c) (sends : List SendRes) :
    ∃ disp v, handleHandshakeSend sends c = .ret disp v := by
  have hclose : c.closeAfterSend = true := by
    rw [h.close, Bool.or_true]
  have hflush : (flushTx sends c).1 ≠ .DISP_REARM_IN := by
    intro hrearm
    rw [(flushTx_spec sends c).2.2 hrearm] at hclose
    cases hclose
  unfold handleHandshakeSend
  dsimp only
  rw [if_pos hflush]
  exact ⟨_, _, rfl⟩

/-- **A short-lived source.** Its request is correct, its messages are complete, all its bytes and the EOF are cut into
read events in any way, dataQueue stays below the high watermark, the response is sent and the read limits are not hit.
Then every message is published if and only if the read that completes the header does not see the EOF, or there is no
message. -/
theorem messages_published_iff (conf : ServerConfig) (id : ℕ) (block frames : Bytes) (hblock : IsHeader block)
    (hok : (httpParseHandshake block).status = .HS_OK) (hpath : cstr (httpParseHandshake block).path ≠ conf.sinkPath)
    (events : List Rules.Event) (hframes : Rules.pass (workerLimits conf) none frames = ⟨events, none, none, []⟩)
    (before : List HsEvent) (last : HsEvent) (x : ReadEvent) (xs : List ReadEvent)
    (hbytes : (before ++ [last]).flatMap HsEvent.bytes ++ (x :: xs).flatMap ReadEvent.bytes = block ++ frames)
    (hbefore : (before.flatMap HsEvent.bytes).length < block.length)
    (hlast : block.length ≤ ((before ++ [last]).flatMap HsEvent.bytes).length)
    (hopen : ∀ e ∈ before, e.fin = .open) (hd : Delivers (x :: xs)) (sends : List SendRes)
    (hsend : ∀ c, hsReads conf (connNew id) (before ++ [last]) = .send c → (bufSend sends c.tx).1 = 1)
    (hroom : ((before ++ [last]).flatMap HsEvent.bytes).length + 4096 ≤ conf.handshakeMax)
    (hfit : ∀ c v, hsReads conf (connNew id) (before ++ [last]) = .send c → handleHandshakeSend sends c = .wsOpen v →
      ReadsFit conf (Session.start v) (x :: xs))
    (hq : ∀ e ∈ x :: xs, ∀ mk ∈ e.wake.marks, mk.2 < conf.highWatermark) :
    contents (publishedBy conf id (before ++ [last]) sends (x :: xs)) = Rules.messages events ↔
      last.fin = .open ∨ Rules.messages events = [] := by
  have hwhole : httpFindHeaderEnd (block ++ frames) = some (block.length - 4) := httpFindHeaderEnd_append hblock.2 frames
  have hfour := hblock.1
  have hall : (before ++ [last]).flatMap HsEvent.bytes = before.flatMap HsEvent.bytes ++ last.bytes := by simp
  rw [hall] at hbytes hlast hroom
  -- the header ends in the last of the events, and not before
  have hpre : before.flatMap HsEvent.bytes ++ last.bytes =
      (block ++ frames).take (before.flatMap HsEvent.bytes ++ last.bytes).length := by
    rw [← hbytes, List.take_left]
  have hpre' : before.flatMap HsEvent.bytes = (block ++ frames).take (before.flatMap HsEvent.bytes).length := by
    rw [← hbytes, List.append_assoc, List.take_left]
  have hno : httpFindHeaderEnd (before.flatMap HsEvent.bytes) = none := by
    rw [hpre']
    exact httpFindHeaderEnd_short hwhole (by omega)
  have hend : httpFindHeaderEnd (before.flatMap HsEvent.bytes ++ last.bytes) = some (block.length - 4) := by
    rw [hpre]
    exact httpFindHeaderEnd_take hwhole (by omega)
  obtain ⟨u, hu, htail⟩ := hsReads_before (.start conf id) hno
    (by rw [List.nil_append]; rw [List.length_append] at hroom; omega) hopen
  rw [List.nil_append] at hu
  obtain ⟨c, hc, hans⟩ := hsRead_done hu hroom hend
  have hreads : hsReads conf (connNew id) (before ++ [last]) = .send c := by
    rw [htail]
    exact hsReads_send hc
  rw [Nat.sub_add_cancel hfour] at hans
  have hcut : (before.flatMap HsEvent.bytes ++ last.bytes).take block.length = block := by
    rw [hpre, List.take_take, min_eq_left hlast, List.take_left]
  rw [hcut] at hans
  by_cases hfin : last.fin = .open
  · -- the frames behind the header are in rx, and what follows is read by `handleWsOpen`
    refine ⟨fun _ => .inl hfin, fun _ => ?_⟩
    rw [hfin] at hans
    obtain ⟨v, hv, hfresh, hrx⟩ := hans.opens hok hpath (hsend c hreads)
    have hpub : publishedBy conf id (before ++ [last]) sends (x :: xs) =
        (wsOpenRuns conf (Session.start v) (x :: xs)).published := by
      unfold publishedBy
      rw [hreads]
      dsimp only
      rw [hv]
    have hstream : bufData v.rx ++ (x :: xs).flatMap ReadEvent.bytes = frames := by
      have hsplit := List.take_append_drop block.length (before.flatMap HsEvent.bytes ++ last.bytes)
      rw [hcut] at hsplit
      rw [← hsplit, List.append_assoc] at hbytes
      rw [hrx]
      exact List.append_cancel_left hbytes
    obtain ⟨hat, hw⟩ := wsOpenRuns_stands hfresh hd (hfit c v hreads hv) hq
    rw [hstream] at hat
    rw [hpub, (hat.complete hw).1, hframes]
  · -- the EOF was seen: the connection ends with the response
    have heof : decide (last.fin ≠ .open) = true := decide_eq_true hfin
    rw [heof] at hans
    obtain ⟨disp, v, hv⟩ := hans.ends sends
    have hpub : publishedBy conf id (before ++ [last]) sends (x :: xs) = [] := by
      unfold publishedBy
      rw [hreads]
      dsimp only
      rw [hv]
    rw [hpub]
    constructor
    · intro h
      exact .inr h.symm
    · rintro (h | h)
      · exact absurd h hfin
      · exact h.symm

/-- request and message in one event, the EOF only seen by the read of `handleWsOpen` -/
def lateEof : HsEvent × ReadEvent := (⟨cookieRequest 0 ++ hiFrame.bytes, .open, []⟩, ⟨[], .eof, ⟨[], [], []⟩⟩)

/-- the response is sent, and the limits are not hit -/
def lateEofFits : Bool :=
  match hsReads smallConf (connNew 1) [lateEof.1] with
  | .ret _ _ => false
  | .send c =>
    match handleHandshakeSend [.sent 1000] c with
    | .wsOpen v => (bufSend [.sent 1000] c.tx).1 = 1 ∧ ReadsFit smallConf (Session.start v) [lateEof.2]
    | _ => false

theorem messages_published_iff_late :
    contents (publishedBy smallConf 1 [lateEof.1] [.sent 1000] [lateEof.2]) = [(opText, [0x68, 0x69])] := by
  have hcheck : lateEofFits = true := by decide +kernel
  unfold lateEofFits at hcheck
  have hframes : Rules.pass (workerLimits smallConf) none hiFrame.bytes =
      ⟨[.message opText [0x68, 0x69]], none, none, []⟩ := by
    obtain ⟨h1, h2, h3, h4⟩ : (Rules.pass (workerLimits smallConf) none hiFrame.bytes).events = [.message opText [0x68, 0x69]] ∧
        (Rules.pass (workerLimits smallConf) none hiFrame.bytes).stop = none ∧
        (Rules.pass (workerLimits smallConf) none hiFrame.bytes).asm = none ∧
        (Rules.pass (workerLimits smallConf) none hiFrame.bytes).rest = [] := by decide +kernel
    generalize Rules.pass (workerLimits smallConf) none hiFrame.bytes = p at h1 h2 h3 h4 ⊢
    obtain ⟨_, _, _, _⟩ := p
    exact congr (congr (congr (congrArg Rules.Pass.mk h1) h2) h3) h4
  refine (messages_published_iff smallConf 1 (cookieRequest 0) hiFrame.bytes (cookieRequest_header 0) (by decide +kernel)
    (by decide +kernel) _ hframes [] lateEof.1 lateEof.2 [] (by decide +kernel) (by decide +kernel) (by decide +kernel)
    (by decide) (by unfold Delivers; decide) [.sent 1000] ?_ (by decide +kernel) ?_ (by decide)).2 (.inl rfl)
  · intro c hc
    rw [show hsReads smallConf (connNew 1) [lateEof.1] = .send c from hc] at hcheck
    dsimp only at hcheck
    split at hcheck
    · exact (of_decide_eq_true hcheck).1
    · cases hcheck
  · intro c v hc hv
    rw [show hsReads smallConf (connNew 1) [lateEof.1] = .send c from hc] at hcheck
    dsimp only at hcheck
    rw [hv] at hcheck
    exact (of_decide_eq_true hcheck).2

/-- **Data already read is discarded**: request, message and EOF arrive together, and the message is not published. -/
theorem eof_discards_messages :
    (httpParseHandshake (cookieRequest 0)).status = .HS_OK ∧
    Rules.messages (Rules.pass (workerLimits smallConf) none hiFrame.bytes).events = [(opText, [0x68, 0x69])] ∧
    publishedBy smallConf 1 [⟨cookieRequest 0 ++ hiFrame.bytes, .eof, []⟩] [.sent 1000] [] = [] := by
  decide +kernel

end WsServer
