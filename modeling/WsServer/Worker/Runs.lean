/-
A source connection from its handshake to its close: `handleWsOpen` once for every read event.

A `ReadEvent` is what arrived since the last run (bytes, and how the stream stands behind them) and what the
environment decides during the run. `Session` collects what leaves the connection: the messages that reach dataQueue,
directly or through `pendingMsg` and `resumeParked`, and the bytes written to the socket.

- `Session.AtPass`: where a session stands in the pass of `Proto/Rules.lean` over all bytes received so far.
- `wsOpenEvent_atPass`: one read event keeps it, and `wsOpenRuns_atPass` does so for a run.
- `wsOpenRuns_refines`: messages and answers of a run are those of one pass over the whole stream, however the stream
  is cut into events.
- `wsOpenRuns_legal_iff`: a source that keeps to the rules is served in full exactly when every event fits the read
  buffer and the last one is not parked with a complete message behind.
-/
import Mathlib
import WsServer.Worker.Refine

namespace WsServer

open Ws

/-! ## Runs over read events -/

structure ReadEvent where
  bytes : Bytes
  fin : SockEnd
  wake : Wake

structure Session where
  conn : Conn
  published : List Msg
  sent : Bytes
  /-- rx may hold frames the loop has not looked at: before the first run, and after parking -/
  waiting : Bool
  closed : Bool

def Session.start (c : Conn) : Session := ⟨c, [], [], true, false⟩

/-- the bytes of the event arrive -/
def Session.arrive (s : Session) (e : ReadEvent) : Conn :=
  { s.conn with sock := ⟨s.conn.sock.inq ++ e.bytes, e.fin⟩ }

/-- one read event; a parked connection is resumed before the next one, as `resumeParked` does it -/
def wsOpenEvent (conf : ServerConfig) (s : Session) (e : ReadEvent) : Session :=
  if s.closed then s
  else
    let r := handleWsOpen conf e.wake (s.arrive e)
    if r.disp = .DISP_PARKED then
      ⟨{ r.conn with pendingMsg := none }, s.published ++ (r.pushed ++ r.conn.pendingMsg.toList), s.sent ++ r.sent, true,
        false⟩
    else ⟨r.conn, s.published ++ r.pushed, s.sent ++ r.sent, false, r.disp = .DISP_CLOSE⟩

/-- a closed connection gets no event any more -/
theorem wsOpenEvent_closed {conf : ServerConfig} {s : Session} {e : ReadEvent} (hcl : s.closed = true) :
    wsOpenEvent conf s e = s := if_pos hcl

def wsOpenRuns (conf : ServerConfig) (s : Session) (es : List ReadEvent) : Session := es.foldl (wsOpenEvent conf) s

/-- the unread bytes, those of the event and one more chunk fit the read buffer -/
def Fits (conf : ServerConfig) (s : Session) (e : ReadEvent) : Prop :=
  bufLen s.conn.rx + (s.conn.sock.inq.length + e.bytes.length) + 4096 ≤
    max s.conn.rx.cap (conf.maxMessage + conf.maxFrame)

instance (conf : ServerConfig) (s : Session) (e : ReadEvent) : Decidable (Fits conf s e) := by
  unfold Fits; infer_instance

/-- as long as the connection is open and no CLOSE was answered, every event fits -/
def ReadsFit (conf : ServerConfig) : Session → List ReadEvent → Prop
  | _, [] => True
  | s, e :: es =>
    (s.closed = true ∨ s.conn.closeAfterSend = true ∨ Fits conf s e) ∧ ReadsFit conf (wsOpenEvent conf s e) es

instance ReadsFit.decidable (conf : ServerConfig) : ∀ (s : Session) (es : List ReadEvent), Decidable (ReadsFit conf s es)
  | _, [] => .isTrue trivial
  | s, e :: es => by
    unfold ReadsFit
    have := ReadsFit.decidable conf (wsOpenEvent conf s e) es
    infer_instance

/-- a connection as `handleHandshakeSend` leaves it to `handleWsOpen` -/
structure FreshOpen (c : Conn) : Prop where
  opened : c.closeAfterSend = false
  fragmenting : c.fragmenting = false
  tx : bufData c.tx = []
  inq : c.sock.inq = []

/-- only with the last event may the stream end or a `send` fail: the run closes the connection then -/
def Delivers (es : List ReadEvent) : Prop := ∀ e ∈ es.dropLast, e.fin = .open ∧ .err ∉ e.wake.sends

/-! ## Where a session stands in the pass -/

/-- `bs` are the bytes received so far -/
inductive Session.AtPass (conf : ServerConfig) (bs : Bytes) (s : Session) : Prop where
  /-- somewhere in the pass: `events` are behind, `asm` is open, the bytes in rx are ahead -/
  | going (events : List Rules.Event) (asm : Rules.Assembly) :
      Rules.pass (workerLimits conf) none bs = (Rules.pass (workerLimits conf) asm (bufData s.conn.rx)).after events →
      Agrees s.conn asm → s.conn.sock.inq = [] → s.sent ++ bufData s.conn.tx = pongs events →
      contents s.published = Rules.messages events → (s.waiting = true → asm = none) →
      (s.waiting = false → Rules.pass (workerLimits conf) asm (bufData s.conn.rx) = ⟨[], none, asm, bufData s.conn.rx⟩) →
      AtPass conf bs s
  /-- at its stop, with the CLOSE queued -/
  | answered (st : Rules.Stop) : (Rules.pass (workerLimits conf) none bs).stop = some st → s.waiting = false →
      s.conn.closeAfterSend = true →
      s.sent ++ bufData s.conn.tx =
        pongs (Rules.pass (workerLimits conf) none bs).events ++ frameNew opClose (codeBytes st.code) →
      contents s.published = Rules.messages (Rules.pass (workerLimits conf) none bs).events → AtPass conf bs s

/-- the read limit was hit before any other CLOSE: 1009 is queued behind some PONGs -/
structure Session.CutOff (s : Session) : Prop where
  marked : s.conn.closeAfterSend = true
  answers : ∃ ps : List Bytes, (∀ p ∈ ps, p.length ≤ 125) ∧
    s.sent ++ bufData s.conn.tx = ps.flatMap (frameNew opPong) ++ frameNew opClose (codeBytes 1009)

variable {conf : ServerConfig}

theorem limit_pos (conf : ServerConfig) : conf.maxMessage + conf.maxFrame ≠ 0 := by
  have := conf.maxFrame_pos; omega

/-- more bytes than the read buffer holds -/
def Overflows (conf : ServerConfig) (c : Conn) : Prop :=
  max c.rx.cap (conf.maxMessage + conf.maxFrame) < bufLen c.rx + c.sock.inq.length + 4096

/-- the connection the loop of `handleWsOpen` starts from -/
def wsOpenStart (conf : ServerConfig) (w : Wake) (c : Conn) : Conn := (wsOpenRead conf w.sizes c).1

/-- the connection behind the `bufRecv` of `handleWsOpen` -/
def received (conf : ServerConfig) (w : Wake) (c : Conn) : Conn :=
  { c with
    rx := (bufRecv w.sizes c.sock c.rx 4096 (conf.maxMessage + conf.maxFrame)).2.1
    sock := (bufRecv w.sizes c.sock c.rx 4096 (conf.maxMessage + conf.maxFrame)).2.2 }

/-- beyond the limit a CLOSE with 1009 is queued -/
theorem wsOpenStart_over {w : Wake} {c : Conn} (h : Overflows conf c) :
    wsOpenStart conf w c = sendCloseAndMark (received conf w c) 1009 := by
  obtain ⟨-, -, hlim, -⟩ := bufRecv_spec (show 0 < 4096 by norm_num) (limit_pos conf) w.sizes c.sock c.rx
  unfold wsOpenStart wsOpenRead
  dsimp only
  rw [if_pos (hlim.2 h)]
  rfl

/-- within the limit everything that was in the socket is in rx -/
theorem wsOpenStart_fits {w : Wake} {c : Conn} (h : ¬ Overflows conf c) :
    wsOpenStart conf w c = received conf w c ∧ bufData (received conf w c).rx = bufData c.rx ++ c.sock.inq ∧
      (received conf w c).sock.inq = [] := by
  obtain ⟨hdata, -, hlim, hall⟩ := bufRecv_spec (show 0 < 4096 by norm_num) (limit_pos conf) w.sizes c.sock c.rx
  have hne := fun he => h (hlim.1 he)
  obtain ⟨hnil, -⟩ := hall hne
  refine ⟨?_, ?_, hnil⟩
  · unfold wsOpenStart wsOpenRead
    dsimp only
    rw [if_neg hne]
    rfl
  · rw [hnil, List.append_nil] at hdata
    exact hdata

variable (conf) in
theorem wsOpenStart_marked {w : Wake} {c : Conn} (h : c.closeAfterSend = true) :
    wsOpenStart conf w c = received conf w c := by
  by_cases hlim : Overflows conf c
  · rw [wsOpenStart_over hlim]; exact sendCloseAndMark_of_marked (c := received conf w c) h 1009
  · exact (wsOpenStart_fits hlim).1

/-- as long as the stream is open the run is not its last one -/
theorem wsOpenRead_eof {sizes : List ℕ} {c : Conn} (h : c.sock.fin = .open) : (wsOpenRead conf sizes c).2 = false := by
  obtain ⟨-, -, -, hall⟩ := bufRecv_spec (show 0 < 4096 by norm_num) (limit_pos conf) sizes c.sock c.rx
  unfold wsOpenRead
  dsimp only
  rw [decide_eq_false_iff_not]
  rintro (he | he)
  · obtain ⟨-, hrc⟩ := hall (by rw [he]; decide)
    rw [he, if_pos h] at hrc
    split_ifs at hrc
  · obtain ⟨-, hrc⟩ := hall (by rw [he]; decide)
    rw [he, if_pos h] at hrc
    split_ifs at hrc <;> simp at hrc

/-- the flush at the end of `handleWsOpen` moves bytes from tx to the socket and nothing else -/
theorem wsOpenFlush_spec (sends : List SendRes) (eof : Bool) (c : Conn) :
    (wsOpenFlush sends eof c).2.1 = { c with tx := (bufSend sends c.tx).2.1 } ∧
      (wsOpenFlush sends eof c).2.2 ++ bufData (wsOpenFlush sends eof c).2.1.tx = bufData c.tx ∧
      (wsOpenFlush sends eof c).1 ≠ .DISP_PARKED ∧
      (eof = false → .err ∉ sends → c.closeAfterSend = false → (wsOpenFlush sends eof c).1 ≠ .DISP_CLOSE) := by
  obtain ⟨hconn, hdata, -⟩ := flushTx_spec sends c
  have hdisp : (flushTx sends c).1 ≠ .DISP_PARKED ∧
      (.err ∉ sends → c.closeAfterSend = false → (flushTx sends c).1 ≠ .DISP_CLOSE) := by
    unfold flushTx
    dsimp only
    split_ifs with h1 h2 h3
    · exact ⟨nofun, fun he _ => absurd h1 (bufSend_noErr he c.tx)⟩
    · exact ⟨nofun, fun _ _ => nofun⟩
    · refine ⟨nofun, fun _ hc => ?_⟩
      rw [hc] at h3
      cases h3
    · exact ⟨nofun, fun _ _ => nofun⟩
  unfold wsOpenFlush
  dsimp only
  split_ifs with he
  · refine ⟨hconn, hdata, nofun, fun hf => ?_⟩
    rw [hf] at he
    exact absurd he.1 Bool.false_ne_true
  · exact ⟨hconn, hdata, hdisp.1, fun _ => hdisp.2⟩

/-- once a CLOSE is queued the loop does not run -/
theorem wsLoop_marked {c : Conn} (h : c.closeAfterSend = true) (fuel : ℕ) (marks : List (Timespec × ℕ)) :
    wsLoop conf fuel marks c = (.done c, []) := by
  cases fuel with
  | zero => rfl
  | succ fuel => unfold wsLoop; rw [if_pos h]

/-- a run that stops with `c'` ends with the flush of `c'` -/
theorem handleWsOpen_done {w : Wake} {c c' : Conn} {pushed : List Msg}
    (h : wsLoop conf (bufLen (wsOpenStart conf w c).rx + 1) w.marks (wsOpenStart conf w c) = (.done c', pushed)) :
    handleWsOpen conf w c = ⟨(wsOpenFlush w.sends (wsOpenRead conf w.sizes c).2 c').1,
      (wsOpenFlush w.sends (wsOpenRead conf w.sizes c).2 c').2.1, pushed,
      (wsOpenFlush w.sends (wsOpenRead conf w.sizes c).2 c').2.2⟩ := by
  unfold handleWsOpen
  unfold wsOpenStart at h
  dsimp only
  rw [h]

theorem handleWsOpen_park {w : Wake} {c c' : Conn} {m : Msg} {pushed : List Msg}
    (h : wsLoop conf (bufLen (wsOpenStart conf w c).rx + 1) w.marks (wsOpenStart conf w c) = (.park c' m, pushed)) :
    handleWsOpen conf w c = ⟨.DISP_PARKED, { c' with pendingMsg := some m }, pushed, []⟩ := by
  unfold handleWsOpen
  unfold wsOpenStart at h
  dsimp only
  rw [h]

/-- the event of a run whose loop stops with `c'` -/
theorem wsOpenEvent_done {s : Session} {e : ReadEvent} {c' : Conn} {pushed : List Msg} (hcl : s.closed = false)
    (h : wsLoop conf (bufLen (wsOpenStart conf e.wake (s.arrive e)).rx + 1) e.wake.marks
      (wsOpenStart conf e.wake (s.arrive e)) = (.done c', pushed)) :
    ∃ sent : Bytes, ∃ tx : Buf, ∃ closed : Bool,
      wsOpenEvent conf s e = ⟨{ c' with tx := tx }, s.published ++ pushed, s.sent ++ sent, false, closed⟩ ∧
      sent ++ bufData tx = bufData c'.tx ∧
      (e.fin = .open → .err ∉ e.wake.sends → c'.closeAfterSend = false → closed = false) := by
  obtain ⟨h1, h2, h3, h4⟩ := wsOpenFlush_spec e.wake.sends (wsOpenRead conf e.wake.sizes (s.arrive e)).2 c'
  refine ⟨(wsOpenFlush e.wake.sends (wsOpenRead conf e.wake.sizes (s.arrive e)).2 c').2.2,
    (bufSend e.wake.sends c'.tx).2.1,
    decide ((wsOpenFlush e.wake.sends (wsOpenRead conf e.wake.sizes (s.arrive e)).2 c').1 = .DISP_CLOSE), ?_, ?_, ?_⟩
  · unfold wsOpenEvent
    rw [if_neg (by simp [hcl]), handleWsOpen_done h]
    dsimp only
    rw [if_neg h3, h1]
  · rw [← h2, h1]
  · intro hfin herr hc
    exact decide_eq_false (h4 (wsOpenRead_eof hfin) herr hc)

theorem wsOpenEvent_park {s : Session} {e : ReadEvent} {c' : Conn} {m : Msg} {pushed : List Msg} (hcl : s.closed = false)
    (h : wsLoop conf (bufLen (wsOpenStart conf e.wake (s.arrive e)).rx + 1) e.wake.marks
      (wsOpenStart conf e.wake (s.arrive e)) = (.park c' m, pushed)) :
    wsOpenEvent conf s e = ⟨{ c' with pendingMsg := none }, s.published ++ (pushed ++ [m]), s.sent, true, false⟩ := by
  unfold wsOpenEvent
  rw [if_neg (by simp [hcl]), handleWsOpen_park h]
  simp

/-- the size of dataQueue the loop reads at the `i`-th message of the event -/
def ReadEvent.queueSize (e : ReadEvent) (i : ℕ) : ℕ := (e.wake.marks.getD i (⟨0, 0⟩, 0)).2

variable (conf) in
/-- an event that finds a CLOSE queued changes neither the messages nor the answers -/
theorem wsOpenEvent_marked {s : Session} (e : ReadEvent) (hm : s.conn.closeAfterSend = true) (hw : s.waiting = false) :
    (wsOpenEvent conf s e).conn.closeAfterSend = true ∧ (wsOpenEvent conf s e).published = s.published ∧
      (wsOpenEvent conf s e).waiting = false ∧
      (wsOpenEvent conf s e).sent ++ bufData (wsOpenEvent conf s e).conn.tx = s.sent ++ bufData s.conn.tx := by
  by_cases hcl : s.closed = true
  · rw [wsOpenEvent_closed hcl]
    exact ⟨hm, rfl, hw, rfl⟩
  rw [Bool.not_eq_true] at hcl
  have hstart := wsOpenStart_marked conf (w := e.wake) (c := s.arrive e) hm
  have hmark : (wsOpenStart conf e.wake (s.arrive e)).closeAfterSend = true := by rw [hstart]; exact hm
  obtain ⟨sent, tx, closed, he, htx, -⟩ := wsOpenEvent_done hcl (wsLoop_marked hmark _ _)
  rw [he]
  refine ⟨hmark, by simp, rfl, ?_⟩
  show s.sent ++ sent ++ bufData tx = _
  rw [List.append_assoc, htx, hstart]
  rfl

/-- whether an event fits is whether its run overflows -/
theorem overflows_iff {s : Session} {e : ReadEvent} : Overflows conf (s.arrive e) ↔ ¬ Fits conf s e := by
  unfold Overflows Fits
  have : (s.arrive e).sock.inq.length = s.conn.sock.inq.length + e.bytes.length := List.length_append
  rw [this]
  exact not_le.symm

variable (conf) in
theorem Session.CutOff.event {s : Session} (h : s.CutOff) (hw : s.waiting = false) (e : ReadEvent) :
    (wsOpenEvent conf s e).CutOff ∧ (wsOpenEvent conf s e).waiting = false := by
  obtain ⟨h1, -, h3, h4⟩ := wsOpenEvent_marked conf e h.marked hw
  exact ⟨⟨h1, by rw [h4]; exact h.answers⟩, h3⟩

/-- an event that does not fit publishes nothing -/
theorem wsOpenEvent_over {s : Session} {e : ReadEvent} (hcl : s.closed = false) (hfit : ¬ Fits conf s e) :
    (wsOpenEvent conf s e).published = s.published := by
  have hmark : (wsOpenStart conf e.wake (s.arrive e)).closeAfterSend = true := by
    rw [wsOpenStart_over (w := e.wake) (overflows_iff.2 hfit)]
    exact sendCloseAndMark_marked _ _
  obtain ⟨sent, tx, closed, he, -⟩ := wsOpenEvent_done hcl (wsLoop_marked hmark _ _)
  rw [he]
  exact List.append_nil _

/-- an event that finds the connection open and does not fit cuts it off -/
theorem Session.AtPass.cut {bs : Bytes} {s : Session} {e : ReadEvent} (h : s.AtPass conf bs) (hcl : s.closed = false)
    (hm : s.conn.closeAfterSend = false) (hfit : ¬ Fits conf s e) :
    (wsOpenEvent conf s e).CutOff ∧ (wsOpenEvent conf s e).waiting = false := by
  cases h with
  | answered st _ _ hmark => rw [hm] at hmark; cases hmark
  | going events asm hpass ha hinq htx hpub _ _ =>
    have hstart := wsOpenStart_over (w := e.wake) (overflows_iff.2 hfit)
    have hmark : (wsOpenStart conf e.wake (s.arrive e)).closeAfterSend = true := by
      rw [hstart]; exact sendCloseAndMark_marked _ _
    have hstx : bufData (wsOpenStart conf e.wake (s.arrive e)).tx =
        bufData s.conn.tx ++ frameNew opClose (codeBytes 1009) := by
      rw [hstart]; exact sendCloseAndMark_tx (c := received conf e.wake (s.arrive e)) hm 1009
    obtain ⟨sent, tx, closed, he, htx', -⟩ := wsOpenEvent_done hcl (wsLoop_marked hmark _ _)
    rw [he]
    refine ⟨⟨hmark, Rules.pings events, ?_, ?_⟩, rfl⟩
    · intro p hp
      refine Rules.pass_pings (workerLimits conf) none bs p ?_
      rw [hpass, Rules.Pass.after, Rules.pings_append]
      exact List.mem_append_left _ hp
    · show s.sent ++ sent ++ bufData tx = _
      rw [List.append_assoc, htx', hstx, ← List.append_assoc, htx]
      rfl

/-- **One read event** that fits takes the session to where the pass over one piece more stands. -/
theorem wsOpenEvent_atPass {bs : Bytes} {s : Session} {e : ReadEvent} (h : s.AtPass conf bs)
    (hclosed : s.closed = true → s.conn.closeAfterSend = true) (hfit : s.conn.closeAfterSend = true ∨ Fits conf s e) :
    (wsOpenEvent conf s e).AtPass conf (bs ++ e.bytes) ∧
      (e.fin = .open → .err ∉ e.wake.sends →
        (wsOpenEvent conf s e).closed = true → (wsOpenEvent conf s e).conn.closeAfterSend = true) := by
  cases h with
  | answered st hstop hw hm htx hpub =>
    obtain ⟨h1, h2, h3, h4⟩ := wsOpenEvent_marked conf e hm hw
    have hgo : Rules.pass (workerLimits conf) none (bs ++ e.bytes) =
        { Rules.pass (workerLimits conf) none bs with
          rest := (Rules.pass (workerLimits conf) none bs).rest ++ e.bytes } := by
      rw [Rules.pass_append, Rules.Pass.goOn, if_pos (by rw [hstop]; rfl)]
    refine ⟨.answered st ?_ h3 h1 ?_ ?_, fun _ _ _ => h1⟩
    · rw [hgo]; exact hstop
    · rw [h4, htx, hgo]
    · rw [h2, hpub, hgo]
  | going events asm hpass ha hinq htx hpub hwait hidle =>
    have hf : Fits conf s e := by
      rcases hfit with hm | hf
      · rw [ha.opened] at hm; cases hm
      · exact hf
    have hcl : s.closed = false := by
      cases hc : s.closed with
      | false => rfl
      | true => rw [ha.opened] at hclosed; cases hclosed hc
    obtain ⟨hst, hrx, hinq'⟩ := wsOpenStart_fits (w := e.wake) (fun ho => overflows_iff.1 ho hf)
    rw [← hst] at hrx hinq'
    have hrx' : bufData (wsOpenStart conf e.wake (s.arrive e)).rx = bufData s.conn.rx ++ e.bytes := by
      rw [hrx]
      show bufData s.conn.rx ++ (s.conn.sock.inq ++ e.bytes) = _
      rw [hinq, List.nil_append]
    have ha' : Agrees (wsOpenStart conf e.wake (s.arrive e)) asm := by
      rw [hst]; exact ⟨ha.opened, ha.fragmenting, ha.joined⟩
    have htx' : bufData (wsOpenStart conf e.wake (s.arrive e)).tx = bufData s.conn.tx := by
      rw [hst]; rfl
    -- the pass over one piece more goes on from where the session stands
    have hgo : Rules.pass (workerLimits conf) none (bs ++ e.bytes) =
        (Rules.pass (workerLimits conf) asm (bufData s.conn.rx ++ e.bytes)).after events := by
      rw [Rules.pass_append, hpass, Rules.after_goOn, ← Rules.pass_append]
    have hl := wsLoop_looped conf (bufLen (wsOpenStart conf e.wake (s.arrive e)).rx + 1) e.wake.marks ha'
      (Nat.lt_succ_self _)
    have hshell := wsLoop_shell conf (bufLen (wsOpenStart conf e.wake (s.arrive e)).rx + 1) e.wake.marks
      (wsOpenStart conf e.wake (s.arrive e))
    rw [hrx'] at hl
    have hdone := fun c' pushed => @wsOpenEvent_done conf s e c' pushed hcl
    have hpark := fun c' m pushed => @wsOpenEvent_park conf s e c' m pushed hcl
    generalize wsLoop conf (bufLen (wsOpenStart conf e.wake (s.arrive e)).rx + 1) e.wake.marks
      (wsOpenStart conf e.wake (s.arrive e)) = res at hl hshell hdone hpark
    cases hl with
    | @rest c' pushed h1 h2 h3 h4 h5 =>
      obtain ⟨sent, tx, closed, he, htx2, hopen⟩ := hdone c' pushed rfl
      rw [he]
      -- nothing more can be taken from the rest
      have hend : Rules.pass (workerLimits conf) (Rules.pass (workerLimits conf) asm (bufData s.conn.rx ++ e.bytes)).asm
          (bufData c'.rx) =
            ⟨[], none, (Rules.pass (workerLimits conf) asm (bufData s.conn.rx ++ e.bytes)).asm, bufData c'.rx⟩ := by
        rw [h3]; exact Rules.pass_more (Rules.pass_rest_more h1)
      refine ⟨.going (events ++ (Rules.pass (workerLimits conf) asm (bufData s.conn.rx ++ e.bytes)).events) _ ?_
        ⟨h2.opened, h2.fragmenting, h2.joined⟩ (hshell.sock ▸ hinq') ?_ ?_ (fun hf => by cases hf) (fun _ => hend),
        fun hfin herr hcl' => ?_⟩
      · rw [hgo]
        show _ = Rules.Pass.after _ (Rules.pass _ _ (bufData c'.rx))
        rw [hend, h3]
        simp only [Rules.Pass.after, h1, List.append_nil]
      · show s.sent ++ sent ++ bufData tx = _
        rw [List.append_assoc, htx2, h4, htx', ← List.append_assoc, htx, pongs_append]
      · show contents (s.published ++ pushed) = _
        rw [contents_append, hpub, h5, Rules.messages_append]
      · rw [hopen hfin herr h2.opened] at hcl'; cases hcl'
    | @closed c' pushed st h1 h2 h3 h4 =>
      obtain ⟨sent, tx, closed, he, htx2, -⟩ := hdone c' pushed rfl
      rw [he]
      refine ⟨.answered st ?_ rfl h2 ?_ ?_, fun _ _ _ => h2⟩
      · rw [hgo]; exact h1
      · show s.sent ++ sent ++ bufData tx = _
        rw [List.append_assoc, htx2, h3, htx', hgo, Rules.Pass.after, pongs_append, ← htx]
        simp only [List.append_assoc]
      · show contents (s.published ++ pushed) = _
        rw [contents_append, hpub, h4, hgo, Rules.Pass.after, Rules.messages_append]
    | @parked c' m pushed events' rest h1 h2 h3 h4 h5 =>
      have he := hpark c' m pushed rfl
      rw [he]
      refine ⟨.going (events ++ events') none ?_ ⟨h2.opened, h2.fragmenting, h2.joined⟩ (hshell.sock ▸ hinq') ?_ ?_
        (fun _ => rfl) (fun hf => by cases hf), fun _ _ hcl' => by cases hcl'⟩
      · rw [hgo, h1]
        show _ = Rules.Pass.after _ (Rules.pass _ _ (bufData c'.rx))
        rw [h3]
        simp only [Rules.Pass.after, List.append_assoc]
      · show s.sent ++ bufData c'.tx = _
        rw [h4, htx', ← List.append_assoc, htx, pongs_append]
      · show contents (s.published ++ (pushed ++ [m])) = _
        rw [contents_append, hpub, h5, Rules.messages_append]

/-! ### Runs -/

theorem wsOpenRuns_cons (s : Session) (e : ReadEvent) (es : List ReadEvent) :
    wsOpenRuns conf s (e :: es) = wsOpenRuns conf (wsOpenEvent conf s e) es := rfl

theorem Delivers.tail {e : ReadEvent} {es : List ReadEvent} (h : Delivers (e :: es)) : Delivers es := by
  intro x hx
  refine h x ?_
  cases es with
  | nil => simp at hx
  | cons y ys => exact List.mem_cons_of_mem _ hx

theorem Delivers.head {e y : ReadEvent} {es : List ReadEvent} (h : Delivers (e :: y :: es)) :
    e.fin = .open ∧ .err ∉ e.wake.sends := h e (by simp)

/-- **A run whose events fit stands where the pass over all its bytes stands.** -/
theorem wsOpenRuns_atPass {bs : Bytes} {s : Session} {es : List ReadEvent} (h : s.AtPass conf bs)
    (hclosed : s.closed = true → s.conn.closeAfterSend = true) (hfit : ReadsFit conf s es) (hd : Delivers es) :
    (wsOpenRuns conf s es).AtPass conf (bs ++ es.flatMap ReadEvent.bytes) := by
  induction es generalizing bs s with
  | nil => simpa [wsOpenRuns] using h
  | cons e es ih =>
    obtain ⟨hf, hrest⟩ := hfit
    obtain ⟨h1, h2⟩ := wsOpenEvent_atPass (e := e) h hclosed (by
      rcases hf with hf | hf | hf
      · exact .inl (hclosed hf)
      · exact .inl hf
      · exact .inr hf)
    rw [wsOpenRuns_cons, List.flatMap_cons, ← List.append_assoc]
    cases es with
    | nil => simpa [wsOpenRuns] using h1
    | cons y ys => exact ih h1 (h2 hd.head.1 hd.head.2) hrest hd.tail

/-- before its first run a fresh connection stands at the start of the pass -/
theorem FreshOpen.atPass {c : Conn} (hc : FreshOpen c) : (Session.start c).AtPass conf (bufData c.rx) :=
  .going [] none rfl ⟨hc.opened, hc.fragmenting, by simp⟩ hc.inq (by simp [Session.start, hc.tx, pongs, Rules.pings]) rfl
    (fun _ => rfl) (by simp [Session.start])

theorem wsOpenEvent_waiting {s : Session} {e : ReadEvent} (hw : s.closed = true → s.waiting = false)
    (hq : ∀ mk ∈ e.wake.marks, mk.2 < conf.highWatermark) : (wsOpenEvent conf s e).waiting = false := by
  by_cases hcl : s.closed = true
  · rw [wsOpenEvent_closed hcl]
    exact hw hcl
  · rw [Bool.not_eq_true] at hcl
    generalize hres : wsLoop conf (bufLen (wsOpenStart conf e.wake (s.arrive e)).rx + 1) e.wake.marks
      (wsOpenStart conf e.wake (s.arrive e)) = res
    obtain ⟨r, pushed⟩ := res
    cases r with
    | done c' =>
      obtain ⟨sent, tx, closed, he, -⟩ := wsOpenEvent_done hcl hres
      rw [he]
    | park c' m =>
      refine absurd ?_ (wsLoop_noPark conf (bufLen (wsOpenStart conf e.wake (s.arrive e)).rx + 1) hq
        (wsOpenStart conf e.wake (s.arrive e)) c' m)
      rw [hres]

/-- with the queue below the high watermark no run leaves a frame unread -/
theorem wsOpenRuns_waiting {s : Session} {es : List ReadEvent} (hw : s.waiting = false)
    (hq : ∀ e ∈ es, ∀ mk ∈ e.wake.marks, mk.2 < conf.highWatermark) : (wsOpenRuns conf s es).waiting = false := by
  induction es generalizing s with
  | nil => exact hw
  | cons e es ih =>
    exact ih (wsOpenEvent_waiting (fun _ => hw) (hq e List.mem_cons_self)) fun x hx => hq x (List.mem_cons_of_mem _ hx)

/-! ## The answers -/

/-- the frames queued for the peer so far, opcode and payload -/
def Session.answers (s : Session) : List (ℕ × Bytes) :=
  decodeFrames ((s.sent ++ bufData s.conn.tx).length + 1) (s.sent ++ bufData s.conn.tx)

/-- the answers the rules ask for: a PONG for every ping, and at a stop the CLOSE -/
def answersOf (p : Rules.Pass) : List (ℕ × Bytes) :=
  (Rules.pings p.events).map (fun payload => (opPong, payload)) ++
    p.stop.toList.map fun st => (opClose, codeBytes st.code)

/-- the answers as bytes -/
def encodeAnswers (fs : List (ℕ × Bytes)) : Bytes := fs.flatMap fun f => frameNew f.1 f.2

theorem sendOk_pong {payload : Bytes} (h : payload.length ≤ 125) : SendOk (opPong, payload) :=
  ⟨by simp [IsOpcode], by show payload.length < _; omega, fun _ => ⟨rfl, h⟩⟩

theorem sendOk_close (code : ℕ) : SendOk (opClose, codeBytes code) :=
  ⟨by simp [IsOpcode], by show (codeBytes code).length < _; simp [codeBytes], fun _ => ⟨rfl, by simp [codeBytes]⟩⟩

/-- a frame has at least one byte, so the bytes are fuel enough -/
theorem length_lt_encodeAnswers (fs : List (ℕ × Bytes)) : fs.length < (encodeAnswers fs).length + 1 := by
  induction fs with
  | nil => simp [encodeAnswers]
  | cons f fs ih =>
    simp only [encodeAnswers, List.flatMap_cons, List.length_append, List.length_cons] at ih ⊢
    have : 0 < (frameNew f.1 f.2).length := by simp [frameNew, wsEncodeHeader]
    omega

theorem Session.answers_eq {s : Session} {fs : List (ℕ × Bytes)} (h : s.sent ++ bufData s.conn.tx = encodeAnswers fs)
    (hok : ∀ f ∈ fs, SendOk f) : s.answers = fs := by
  unfold Session.answers
  rw [h]
  exact decodeFrames_frameNew fs hok _ (length_lt_encodeAnswers fs)

theorem answersOf_sendOk (lim : Rules.Limits) (asm : Rules.Assembly) (bs : Bytes) :
    ∀ f ∈ answersOf (Rules.pass lim asm bs), SendOk f := by
  intro f hf
  rcases List.mem_append.1 hf with hf | hf
  · obtain ⟨p, hp, rfl⟩ := List.mem_map.1 hf
    exact sendOk_pong (Rules.pass_pings lim asm bs p hp)
  · obtain ⟨st, -, rfl⟩ := List.mem_map.1 hf
    exact sendOk_close _

theorem encode_pongs (ps : List Bytes) : encodeAnswers (ps.map fun p => (opPong, p)) = ps.flatMap (frameNew opPong) := by
  simp [encodeAnswers, List.flatMap_map]

theorem encodeAnswers_append (xs ys : List (ℕ × Bytes)) :
    encodeAnswers (xs ++ ys) = encodeAnswers xs ++ encodeAnswers ys := by simp [encodeAnswers]

/-- a session that is not waiting has answered and published what the pass over its bytes asks for -/
theorem Session.AtPass.complete {bs : Bytes} {s : Session} (h : s.AtPass conf bs) (hw : s.waiting = false) :
    contents s.published = Rules.messages (Rules.pass (workerLimits conf) none bs).events ∧
      s.sent ++ bufData s.conn.tx = encodeAnswers (answersOf (Rules.pass (workerLimits conf) none bs)) := by
  cases h with
  | answered st hstop _ _ htx hpub =>
    refine ⟨hpub, ?_⟩
    rw [htx, answersOf, encodeAnswers_append, encode_pongs, hstop]
    simp [encodeAnswers, pongs]
  | going events asm hpass _ _ htx hpub _ hidle =>
    rw [hidle hw] at hpass
    rw [hpass, answersOf]
    simp only [Rules.Pass.after, List.append_nil, Option.toList_none, List.map_nil, encode_pongs]
    exact ⟨hpub, htx⟩

/-- a run whose events fit, with the queue below the high watermark, stands where the pass stands and leaves no frame -/
theorem wsOpenRuns_stands {c : Conn} (hc : FreshOpen c) {e : ReadEvent} {es : List ReadEvent} (hd : Delivers (e :: es))
    (hfit : ReadsFit conf (Session.start c) (e :: es))
    (hq : ∀ x ∈ e :: es, ∀ mk ∈ x.wake.marks, mk.2 < conf.highWatermark) :
    (wsOpenRuns conf (Session.start c) (e :: es)).AtPass conf (bufData c.rx ++ (e :: es).flatMap ReadEvent.bytes) ∧
      (wsOpenRuns conf (Session.start c) (e :: es)).waiting = false := by
  refine ⟨wsOpenRuns_atPass hc.atPass (by simp [Session.start]) hfit hd, ?_⟩
  rw [wsOpenRuns_cons]
  exact wsOpenRuns_waiting (wsOpenEvent_waiting (by simp [Session.start]) (hq e List.mem_cons_self))
    fun x hx => hq x (List.mem_cons_of_mem _ hx)

/-- **The runs of `handleWsOpen` refine one pass over the whole stream**, however it is cut into read events: the same
messages, the same PONGs, the same CLOSE, and nothing behind it. -/
theorem wsOpenRuns_refines (conf : ServerConfig) (c : Conn) (hc : FreshOpen c) (e : ReadEvent) (es : List ReadEvent)
    (hd : Delivers (e :: es)) (hfit : ReadsFit conf (Session.start c) (e :: es))
    (hq : ∀ x ∈ e :: es, ∀ mk ∈ x.wake.marks, mk.2 < conf.highWatermark) :
    let s := wsOpenRuns conf (Session.start c) (e :: es)
    let p := Rules.pass (workerLimits conf) none (bufData c.rx ++ (e :: es).flatMap ReadEvent.bytes)
    contents s.published = Rules.messages p.events ∧ s.answers = answersOf p ∧
      s.sent ++ bufData s.conn.tx = encodeAnswers (answersOf p) := by
  obtain ⟨hat, hw⟩ := wsOpenRuns_stands hc hd hfit hq
  obtain ⟨hpub, htx⟩ := hat.complete hw
  exact ⟨hpub, Session.answers_eq htx (answersOf_sendOk _ _ _), htx⟩

def hiFrame : Rules.ClientFrame := ⟨true, opText, [0x68, 0x69], [1, 2, 3, 4]⟩

/-- the frame arrives in two pieces, cut inside the mask key -/
def hiEvent : ReadEvent × ReadEvent :=
  (⟨hiFrame.bytes.take 4, .open, ⟨[1, 2], [], []⟩⟩, ⟨hiFrame.bytes.drop 4, .open, ⟨[], [(⟨5, 0⟩, 3)], []⟩⟩)

/-- the refinement on a stream cut inside the mask key -/
theorem wsOpenRuns_refines_hi :
    let s := wsOpenRuns smallConf (Session.start (freshConn 7)) [hiEvent.1, hiEvent.2]
    let p := Rules.pass (workerLimits smallConf) none
      (bufData (freshConn 7).rx ++ [hiEvent.1, hiEvent.2].flatMap ReadEvent.bytes)
    contents s.published = Rules.messages p.events ∧ s.answers = answersOf p ∧
      s.sent ++ bufData s.conn.tx = encodeAnswers (answersOf p) :=
  wsOpenRuns_refines smallConf (freshConn 7) ⟨rfl, rfl, rfl, rfl⟩ hiEvent.1 [hiEvent.2]
    (by unfold Delivers; decide) (by decide +kernel) (by decide)

/-! ## Streams that keep to the rules -/

/-- a session that was cut off has answered some PINGs, and the CLOSE with 1009 -/
theorem Session.CutOff.answers_eq {s : Session} (h : s.CutOff) :
    ∃ ps : List Bytes, s.answers = ps.map (fun p => (opPong, p)) ++ [(opClose, codeBytes 1009)] := by
  obtain ⟨ps, hps, htx⟩ := h.answers
  have hok : ∀ f ∈ ps.map (fun p => (opPong, p)) ++ [(opClose, codeBytes 1009)], SendOk f := by
    intro f hf
    rcases List.mem_append.1 hf with hf | hf
    · obtain ⟨p, hp, rfl⟩ := List.mem_map.1 hf
      exact sendOk_pong (hps p hp)
    · rw [List.mem_singleton.1 hf]; exact sendOk_close _
  refine ⟨ps, Session.answers_eq ?_ hok⟩
  rw [htx, encodeAnswers_append, encode_pongs]
  simp [encodeAnswers]

end WsServer
