/-
What a source is served for, against all the bytes its peer sent.

A run is a list of labels, so what the peer of connection `c` sent in it is a function of the run: `heard`. `Stands` says
where a connection stands in those bytes: the request not answered yet, refused, accepted, or so many events of one pass
over the frames behind the request (`Proto/Rules.lean`).

- `nodeExec_source`: the invariant rule of `Server/View.lean` for invariants that speak of the bytes heard.
- `deal_stands`: each piece of work on a connection keeps `Stands`.
- `served_as_one_pass`: however the program's threads interleave and the network cuts the stream, the messages of a source
  and the answers to it are those of the first events of one pass; none is skipped, and while no CLOSE is queued the rest
  of the pass is in the bytes still unread.
-/
import Mathlib
import WsServer.Server.Said
import WsServer.Server.Sources

namespace WsServer

open Ws Machine

/-! ## What a peer sent -/

/-- the bytes that reach the socket of connection `c` -/
def Act.brings (a : Act) (c : ℕ) : Bytes :=
  match a with
  | .deliver d bytes _ => if d = c then bytes else []
  | _ => []

def NodeAct.brings (a : NodeAct) (c : ℕ) : Bytes :=
  match a with
  | .srv b => b.brings c
  | .up _ => []

/-- what the peer of connection `c` sent in a run -/
def heard (ls : List NodeAct) (c : ℕ) : Bytes := ls.flatMap fun a => a.brings c

theorem heard_snoc (ls : List NodeAct) (a : NodeAct) (c : ℕ) : heard (ls ++ [a]) c = heard ls c ++ a.brings c := by
  unfold heard
  rw [List.flatMap_append, List.flatMap_singleton]

theorem Act.length_brings (a : Act) (c : ℕ) : (a.brings c).length = a.arrives c := by
  cases a with
  | deliver d bytes fin =>
    unfold Act.brings Act.arrives
    dsimp only
    split_ifs <;> rfl
  | _ => rfl

/-- the request in `bs` is accepted with the response `r`, and `body` is behind it -/
def Accepted (bs r body : Bytes) : Prop :=
  ∃ i, httpFindHeaderEnd bs = some i ∧ (httpParseHandshake (bs.take (i + 4))).status = .HS_OK ∧
    r = hsResponse (httpParseHandshake (bs.take (i + 4))) ∧ body = bs.drop (i + 4)

/-- more bytes are more body -/
theorem Accepted.append {bs r body : Bytes} (h : Accepted bs r body) (t : Bytes) : Accepted (bs ++ t) r (body ++ t) := by
  obtain ⟨i, hi, hok, rfl, rfl⟩ := h
  have hle : i + 4 ≤ bs.length := (httpFindHeaderEnd_some hi).1
  refine ⟨i, httpFindHeaderEnd_append hi t, ?_, ?_, ?_⟩
  · rwa [List.take_append_of_le_length hle]
  · rw [List.take_append_of_le_length hle]
  · rw [List.drop_append_of_le_length hle]

/-! ## The invariant rule -/

variable {conf : ServerConfig} {W count : ℕ} {client : ℕ → UpstreamClient} {n m : Node} {a : NodeAct} {ls : List NodeAct}
  {c x : ℕ} {d d' : Desk} {v v' : Conn}

/-- the record counts the bytes heard -/
theorem nodeStep_got (h : nodeStep conf W n a = some m) (c : ℕ) : m.got c = n.got c + (a.brings c).length := by
  rcases nodeStep_cases h with ⟨b, s, rfl, -, -, rfl⟩ | ⟨e, r, rfl, -, rfl⟩
  · exact congrArg (n.got c + ·) (b.length_brings c).symm
  · rfl

/-- a delivery adds to the socket and does nothing else -/
theorem deliver_conn {bytes : Bytes} {fin : SockEnd} (h : nodeStep conf W n (.srv (.deliver x bytes fin)) = some m) :
    m.srv.conn x = { n.srv.conn x with sock := ⟨(n.srv.conn x).sock.inq ++ bytes, fin⟩ } ∧ m.sent x = n.sent x ∧
      m.srv.completed x = n.srv.completed x ∧ ∀ d, m.srv.At x d → n.srv.At x d := by
  rcases nodeStep_cases h with ⟨b, s, hb, -, hs, rfl⟩ | ⟨e, r, hb, -⟩
  · obtain rfl := NodeAct.srv.inj hb
    simp only [srvStep] at hs
    split_ifs at hs
    obtain rfl := Option.some.inj hs
    exact ⟨setConn_conn_self _ _ _, List.append_nil _, rfl, fun _ => id⟩
  · cases hb

/-- **Invariant rule with the bytes heard.** It is kept by arrivals, by the moves from desk to desk, by what the
aggregator does to its sink, and by each piece of a worker's work. -/
theorem nodeExec_source {P : Desk → Conn → Bytes → Bytes → List Msg → Prop}
    (hnew : ∀ reg live, P .free { connNew x with reg := reg, live := live } [] [] [])
    (harrive : ∀ d v out bs ms bytes fin, P d v out bs ms →
      P d { v with sock := ⟨v.sock.inq ++ bytes, fin⟩ } out (bs ++ bytes) ms)
    (hpass : ∀ d d' v v' out bs ms, P d v out bs ms → Passes x d d' → SameLine v v' → P d' v' out bs ms)
    (hsink : ∀ v v' out bs ms, P .free v out bs ms → AggTouch True v v' → v.role = .ROLE_SINK → v'.role = .ROLE_SINK →
      P .free v' out bs ms)
    (hwork : ∀ p p' v v' out out' bs ms ms', P (.work p) v out bs ms → Deal conf x p v p' v' out' ms' →
      P (.work p') v' (out ++ out') bs (ms ++ ms'))
    (h : exec (nodeStep conf W) (.start client count) ls = some n) (hx : x < n.srv.nextId) :
    ∀ d, n.srv.At x d → P d (n.srv.conn x) (n.sent x) (heard ls x) (n.srv.completed x) := by
  have hall : n.got x = (heard ls x).length ∧ (x < n.srv.nextId → ∀ d, n.srv.At x d →
      P d (n.srv.conn x) (n.sent x) (heard ls x) (n.srv.completed x)) := by
    refine exec_history (P := fun ls n => n.got x = (heard ls x).length ∧ (x < n.srv.nextId → ∀ d, n.srv.At x d →
      P d (n.srv.conn x) (n.sent x) (heard ls x) (n.srv.completed x))) ⟨rfl, fun _ d hat => ?_⟩ ?_ h
    · have hfree : Srv.start.At x .free := ⟨fun _ => nofun, nofun⟩
      obtain rfl := start_good.at_unique hat hfree
      exact hnew .absent false
    rintro ls n a m hreach ⟨hgot, hP⟩ hstep
    have hg := node_good hreach
    have hcount : m.got x = (heard (ls ++ [a]) x).length := by
      rw [heard_snoc, List.length_append, ← hgot]
      exact nodeStep_got hstep x
    refine ⟨hcount, fun hlt d' hat => ?_⟩
    by_cases hfirst : a = .srv .accept ∧ x = n.srv.nextId
    · -- accepted in this step: nothing was heard, sent or completed before
      obtain ⟨rfl, rfl⟩ := hfirst
      obtain ⟨h1, h2, h3⟩ := node_unborn hreach n.srv.nextId le_rfl
      have hnone : heard ls n.srv.nextId = [] := List.length_eq_zero_iff.1 (hgot.symm.trans h2)
      obtain rfl := (nodeStep_good hg hstep).at_unique hat (accept_free hg hstep)
      obtain ⟨b, s, hb, -, hs, rfl⟩ | ⟨e, r, hb, -⟩ := nodeStep_cases hstep
      · obtain rfl := NodeAct.srv.inj hb
        obtain rfl := Option.some.inj hs
        have hconn : ({ n.srv.setConn n.srv.nextId (connNew n.srv.nextId) with nextId := n.srv.nextId + 1 } : Srv).conn
            n.srv.nextId = connNew n.srv.nextId := setConn_conn_self _ _ _
        have hsent : n.sent n.srv.nextId ++ n.srv.writes .accept n.srv.nextId = [] := by rw [h1]; rfl
        have hheard : heard (ls ++ [.srv .accept]) n.srv.nextId = [] := by rw [heard_snoc, hnone]; rfl
        dsimp only
        rw [hconn, hsent, hheard]
        exact h3 ▸ hnew (.armed false) true
      · cases hb
    have hne : a = .srv .accept → x ≠ n.srv.nextId := fun ha hxn => hfirst ⟨ha, hxn⟩
    have hold := hP (nodeStep_known hstep hne hlt)
    by_cases hdel : ∃ bytes fin, a = .srv (.deliver x bytes fin)
    · obtain ⟨bytes, fin, rfl⟩ := hdel
      obtain ⟨hconn, hsent, hdone, hdesk⟩ := deliver_conn hstep
      have hbrings : NodeAct.brings (.srv (.deliver x bytes fin)) x = bytes := if_pos rfl
      rw [hconn, hsent, hdone, heard_snoc, hbrings]
      exact harrive _ _ _ _ _ bytes fin (hold d' (hdesk d' hat))
    -- nothing arrives
    have hquiet : a.brings x = [] := by
      cases a with
      | up e => rfl
      | srv b =>
        cases b with
        | deliver y bytes fin => exact if_neg fun hy => hdel ⟨bytes, fin, by rw [hy]⟩
        | _ => rfl
    obtain ⟨d, out, k, ms, hfrom, hsrc, hsent, hk, hdone⟩ := nodeStep_source hg hstep hne hat
    have hzero : k = 0 := by
      have := nodeStep_got hstep x
      rw [hquiet, List.length_nil] at this
      omega
    rw [hsent, hdone, heard_snoc, hquiet, List.append_nil]
    have hd := hold d hfrom
    generalize m.srv.conn x = v' at hsrc
    cases hsrc with
    | arrive bytes fin =>
      obtain rfl := List.length_eq_zero_iff.1 hzero
      have hkeep := harrive _ _ _ _ _ [] fin hd
      rw [List.append_nil (heard ls x)] at hkeep
      rw [List.append_nil (n.sent x), List.append_nil (n.srv.completed x)]
      exact hkeep
    | pass hp hline =>
      rw [List.append_nil, List.append_nil]
      exact hpass _ _ _ _ _ _ _ hd hp hline
    | sink htouch hrole hrole' =>
      rw [List.append_nil, List.append_nil]
      exact hsink _ _ _ _ _ hd htouch hrole hrole'
    | work hdeal => exact hwork _ _ _ _ _ _ _ _ _ hd hdeal
  exact hall.2 hx

/-! ## Where a connection stands -/

/-- the pass over the frames of a source -/
abbrev passOf (conf : ServerConfig) (body : Bytes) : Rules.Pass := Rules.pass (workerLimits conf) none body

/-- why a CLOSE is queued behind the events `evs`: a read beyond the limit of rx, or the pass stops behind them -/
def Ends (conf : ServerConfig) (body : Bytes) (evs : List Rules.Event) (code : ℕ) : Prop :=
  evs <+: (passOf conf body).events ∧
    (code = 1009 ∨ ∃ s, (passOf conf body).stop = some s ∧ s.code = code ∧ evs = (passOf conf body).events)

/-- where a connection stands whose peer sent `bs`: what was said to it, and what was completed on it -/
inductive Stands (conf : ServerConfig) (v : Conn) (bs : Bytes) : Bytes → List Msg → Prop where
  /-- the request is being read -/
  | reading : v.state = .ST_HANDSHAKE_READ → v.closeAfterSend = false → v.role = .ROLE_UNDECIDED →
      v.fragmenting = false → bufData v.rx ++ v.sock.inq = bs → Stands conf v bs [] []
  /-- it is refused, or it is the sink's -/
  | apart (r : Bytes) : v.state = .ST_HANDSHAKE_SEND → v.closeAfterSend = true ∨ v.role = .ROLE_SINK → IsResponse r →
      Stands conf v bs r []
  /-- it is accepted, and the response not sent yet -/
  | accepted (r : Bytes) : v.state = .ST_HANDSHAKE_SEND → v.closeAfterSend = false → v.role = .ROLE_SOURCE →
      v.fragmenting = false → Accepted bs r (bufData v.rx ++ v.sock.inq) → Stands conf v bs r []
  /-- the events `evs` of the pass are behind, and what is unread goes on from there -/
  | going (r body : Bytes) (evs : List Rules.Event) (asm : Rules.Assembly) (ms : List Msg) : v.state = .ST_WS_OPEN →
      v.role = .ROLE_SOURCE → Agrees v asm → Accepted bs r body →
      passOf conf body = (Rules.pass (workerLimits conf) asm (bufData v.rx ++ v.sock.inq)).after evs →
      contents ms = Rules.messages evs → Stands conf v bs (r ++ pongs evs) ms
  /-- and a CLOSE is behind them -/
  | closing (r body : Bytes) (evs : List Rules.Event) (code : ℕ) (ms : List Msg) : v.state = .ST_WS_OPEN →
      v.role = .ROLE_SOURCE → v.closeAfterSend = true → Accepted bs r body → Ends conf body evs code →
      contents ms = Rules.messages evs →
      Stands conf v bs (r ++ pongs evs ++ frameNew opClose (codeBytes code)) ms

variable {bs said body r : Bytes} {ms : List Msg} {evs : List Rules.Event} {code : ℕ}

/-- the stop of a pass stays where it is when more bytes follow, and so do the events behind it -/
theorem Ends.append (h : Ends conf body evs code) (t : Bytes) : Ends conf (body ++ t) evs code := by
  obtain ⟨hpre, hwhy⟩ := h
  have hgo : passOf conf (body ++ t) = (passOf conf body).goOn (workerLimits conf) t := Rules.pass_append _ _ _ _
  unfold Rules.Pass.goOn at hgo
  cases hstop : (passOf conf body).stop with
  | some s =>
    rw [hstop, Option.isSome_some, if_pos rfl] at hgo
    rw [hstop] at hwhy
    unfold Ends
    rw [hgo]
    exact ⟨hpre, hwhy⟩
  | none =>
    rw [hstop, Option.isSome_none, if_neg Bool.false_ne_true] at hgo
    rw [hstop] at hwhy
    unfold Ends
    rw [hgo]
    refine ⟨hpre.trans (List.prefix_append _ _), .inl ?_⟩
    rcases hwhy with hcode | ⟨s, hs, -⟩
    · exact hcode
    · cases hs

/-- what is unread and what was heard may differ in the socket only -/
theorem Stands.congr (h : Stands conf v bs said ms) (hsame : SameTalk v v')
    (hread : v.role = .ROLE_SINK ∨ bufData v'.rx ++ v'.sock.inq = bufData v.rx ++ v.sock.inq) : Stands conf v' bs said ms := by
  have hagrees : ∀ asm, Agrees v asm → Agrees v' asm := by
    intro asm ha
    refine ⟨hsame.closeAfterSend.trans ha.opened, hsame.fragmenting.trans ha.fragmenting, ?_⟩
    rw [hsame.msgOpcode, hsame.msg, hsame.msgUtf8]
    exact ha.joined
  cases h with
  | reading h1 h2 h3 h4 h5 =>
    have hrest := hread.resolve_left (by rw [h3]; decide)
    exact .reading (hsame.state.trans h1) (hsame.closeAfterSend.trans h2) (hsame.role.trans h3) (hsame.fragmenting.trans h4)
      (hrest.trans h5)
  | apart _ h1 h2 h3 =>
    refine .apart said (hsame.state.trans h1) ?_ h3
    rw [hsame.closeAfterSend, hsame.role]
    exact h2
  | accepted _ h1 h2 h3 h4 h5 =>
    have hrest := hread.resolve_left (by rw [h3]; decide)
    exact .accepted said (hsame.state.trans h1) (hsame.closeAfterSend.trans h2) (hsame.role.trans h3)
      (hsame.fragmenting.trans h4) (hrest ▸ h5)
  | going r body evs asm ms h1 h2 h3 h4 h5 h6 =>
    have hrest := hread.resolve_left (by rw [h2]; decide)
    exact .going r body evs asm ms (hsame.state.trans h1) (hsame.role.trans h2) (hagrees asm h3) h4 (hrest ▸ h5) h6
  | closing r body evs code ms h1 h2 h3 h4 h5 h6 =>
    exact .closing r body evs code ms (hsame.state.trans h1) (hsame.role.trans h2) (hsame.closeAfterSend.trans h3) h4 h5 h6

/-- bytes arrive -/
theorem Stands.arrive (h : Stands conf v bs said ms) (bytes : Bytes) (fin : SockEnd) :
    Stands conf { v with sock := ⟨v.sock.inq ++ bytes, fin⟩ } (bs ++ bytes) said ms := by
  cases h with
  | reading h1 h2 h3 h4 h5 => exact .reading h1 h2 h3 h4 (by rw [← h5, List.append_assoc])
  | apart _ h1 h2 h3 => exact .apart said h1 h2 h3
  | accepted _ h1 h2 h3 h4 h5 =>
    refine .accepted said h1 h2 h3 h4 ?_
    have hmore := h5.append bytes
    rwa [List.append_assoc] at hmore
  | going r body evs asm ms h1 h2 h3 h4 h5 h6 =>
    refine .going r (body ++ bytes) evs asm ms h1 h2 ⟨h3.opened, h3.fragmenting, h3.joined⟩ (h4.append bytes) ?_ h6
    show Rules.pass _ _ _ = Rules.Pass.after evs (Rules.pass _ _ (bufData v.rx ++ (v.sock.inq ++ bytes)))
    rw [← List.append_assoc, Rules.pass_append, Rules.pass_append, ← Rules.after_goOn, ← h5]
  | closing r body evs code ms h1 h2 h3 h4 h5 h6 =>
    exact .closing r (body ++ bytes) evs code ms h1 h2 h3 (h4.append bytes) (h5.append bytes) h6

/-! ## A piece of work -/

variable {sizes : List ℕ} {sends : List SendRes} {out out' : Bytes} {ms' : List Msg}

/-- what the read of the opening handshake leaves -/
abbrev hsRecv (conf : ServerConfig) (sizes : List ℕ) (v : Conn) : ℤ × Buf × Sock :=
  bufRecv sizes v.sock v.rx 4096 conf.handshakeMax

theorem hsRecv_data (conf : ServerConfig) (sizes : List ℕ) (v : Conn) :
    bufData (hsRecv conf sizes v).2.1 ++ (hsRecv conf sizes v).2.2.inq = bufData v.rx ++ v.sock.inq :=
  (bufRecv_spec (show 0 < 4096 by norm_num) (Nat.pos_iff_ne_zero.1 conf.handshakeMax_pos) sizes v.sock v.rx).1

/-- a connection that goes on to answer and is not marked has read an acceptable request -/
theorem hsRead_accepts (h : handleHandshakeRead conf sizes v = .send v') (hopen : v'.closeAfterSend = false) :
    ∃ i, httpFindHeaderEnd (bufData (hsRecv conf sizes v).2.1) = some i ∧
      (httpParseHandshake ((bufData (hsRecv conf sizes v).2.1).take (i + 4))).status = .HS_OK ∧
      bufData v'.rx = (bufData (hsRecv conf sizes v).2.1).drop (i + 4) ∧
      bufData v'.tx = bufData v.tx ++ hsResponse (httpParseHandshake ((bufData (hsRecv conf sizes v).2.1).take (i + 4))) := by
  unfold handleHandshakeRead at h
  dsimp only at h
  by_cases h1 : (hsRecv conf sizes v).1 = -1
  · rw [if_pos h1] at h
    cases h
  by_cases h2 : (hsRecv conf sizes v).1 = -2
  · rw [if_neg h1, if_pos h2] at h
    obtain rfl := HsRead.send.inj h
    cases hopen
  by_cases h3 : (hsRecv conf sizes v).1 = 0
  · rw [if_neg h1, if_neg h2, if_pos h3] at h
    cases h
  rw [if_neg h1, if_neg h2, if_neg h3] at h
  cases hend : httpFindHeaderEnd (bufData (hsRecv conf sizes v).2.1) with
  | none =>
    rw [hend] at h
    cases h
  | some i =>
    rw [hend] at h
    dsimp only at h
    cases hst : (httpParseHandshake ((bufData (hsRecv conf sizes v).2.1).take (i + 4))).status with
    | HS_OK =>
      rw [hst] at h
      obtain rfl := HsRead.send.inj h
      refine ⟨i, rfl, hst, bufConsume_data _ _, ?_⟩
      rw [bufAppend_data, hsResponse, hst]
    | HS_BAD_VERSION | HS_NOT_UPGRADE | HS_BAD_REQUEST =>
      rw [hst] at h
      obtain rfl := HsRead.send.inj h
      cases hopen

/-- the request is answered -/
theorem Stands.responds (h : Stands conf v bs (out ++ bufData v.tx) ms) (hstate : v.state = .ST_HANDSHAKE_READ)
    (hread : handleHandshakeRead conf sizes v = .send v') : Stands conf v' bs (out ++ bufData v'.tx) ms := by
  obtain ⟨r, hr⟩ := hsRead_send hread
  generalize hsaid : out ++ bufData v.tx = said at h
  have hall : out ++ bufData v'.tx = said ++ r := by rw [hr.tx, ← List.append_assoc, hsaid]
  rw [hall]
  cases h with
  | apart _ h1 => exact nomatch h1.symm.trans hstate
  | accepted _ h1 => exact nomatch h1.symm.trans hstate
  | going _ _ _ _ _ h1 => exact nomatch h1.symm.trans hstate
  | closing _ _ _ _ _ h1 => exact nomatch h1.symm.trans hstate
  | reading _ _ hrole hfrag hbs =>
    rw [List.nil_append]
    cases hmark : v'.closeAfterSend with
    | true => exact .apart r hr.state (.inl hmark) hr.response
    | false =>
      obtain ⟨i, hi, hok, hrx, htx⟩ := hsRead_accepts hread hmark
      by_cases hsink : v'.role = .ROLE_SINK
      · exact .apart r hr.state (.inr hsink) hr.response
      have hsource : v'.role = .ROLE_SOURCE := by
        cases hcase : v'.role with
        | ROLE_SOURCE => rfl
        | ROLE_SINK => exact absurd hcase hsink
        | ROLE_UNDECIDED => exact nomatch hmark.symm.trans (hr.undecided hcase)
      refine .accepted r hr.state hmark hsource (hr.fragmenting.trans hfrag) ?_
      -- what was read may hold the first frames as well
      have hgot : Accepted (bufData (hsRecv conf sizes v).2.1) r (bufData v'.rx) :=
        ⟨i, hi, hok, List.append_cancel_left (hr.tx.symm.trans htx), hrx⟩
      have hmore := hgot.append (hsRecv conf sizes v).2.2.inq
      rw [hsRecv_data, hbs] at hmore
      rw [hr.sock]
      exact hmore

/-- the response is sent, and the frames are next -/
theorem Stands.opens (h : Stands conf v bs (out ++ bufData v.tx) ms) (hstate : v.state = .ST_HANDSHAKE_SEND)
    (hsend : handleHandshakeSend sends v = .wsOpen v') :
    Stands conf v' bs (out ++ (flushTx sends v).2.2 ++ bufData v'.tx) ms := by
  obtain ⟨rfl, hopen, hsource⟩ := hsSend_opens hsend
  obtain ⟨hconn, htx, -⟩ := flushTx_spec sends v
  rw [← htx, ← List.append_assoc] at h
  rw [hconn] at h ⊢
  generalize out ++ (flushTx sends v).2.2 ++ bufData (bufSend sends v.tx).2.1 = said at h ⊢
  cases h with
  | reading h1 => exact nomatch h1.symm.trans hstate
  | going _ _ _ _ _ h1 => exact nomatch h1.symm.trans hstate
  | closing _ _ _ _ _ h1 => exact nomatch h1.symm.trans hstate
  | apart _ _ h2 =>
    rcases h2 with h2 | h2
    · exact nomatch hopen.symm.trans h2
    · exact absurd h2 hsource
  | accepted _ _ _ hrole hfrag hacc =>
    have hagrees : Agrees { v with tx := (bufSend sends v.tx).2.1, state := .ST_WS_OPEN, msgUtf8 := wsUtf8Reset } none :=
      ⟨hopen, hfrag, nofun⟩
    have hnone : said = said ++ pongs [] := (List.append_nil said).symm
    rw [hnone]
    exact .going said _ [] none [] rfl hrole hagrees hacc rfl rfl

/-- an open connection goes on, or is closing -/
theorem Stands.open_cases (h : Stands conf v bs said ms) (hstate : v.state = .ST_WS_OPEN) (hopen : v.closeAfterSend = false) :
    ∃ r body evs asm, said = r ++ pongs evs ∧ v.role = .ROLE_SOURCE ∧ Agrees v asm ∧ Accepted bs r body ∧
      passOf conf body = (Rules.pass (workerLimits conf) asm (bufData v.rx ++ v.sock.inq)).after evs ∧
      contents ms = Rules.messages evs := by
  cases h with
  | reading h1 => exact nomatch h1.symm.trans hstate
  | apart _ h1 => exact nomatch h1.symm.trans hstate
  | accepted _ h1 => exact nomatch h1.symm.trans hstate
  | closing _ _ _ _ _ _ _ h3 => exact nomatch hopen.symm.trans h3
  | going r body evs asm ms _ h2 h3 h4 h5 h6 => exact ⟨r, body, evs, asm, rfl, h2, h3, h4, h5, h6⟩

/-- the read of `handleWsOpen` -/
theorem Stands.reads (h : Stands conf v bs (out ++ bufData v.tx) ms) (hstate : v.state = .ST_WS_OPEN) :
    Stands conf (wsOpenRead conf sizes v).1 bs (out ++ bufData (wsOpenRead conf sizes v).1.tx) ms := by
  have hdata := (bufRecv_spec (show 0 < 4096 by norm_num) (limit_pos conf) sizes v.sock v.rx).1
  have hread : Stands conf (received conf ⟨sizes, [], []⟩ v) bs (out ++ bufData v.tx) ms :=
    h.congr ⟨rfl, rfl, rfl, rfl, rfl, rfl, rfl⟩ (.inr hdata)
  by_cases hover : Overflows conf v
  · have hconn : (wsOpenRead conf sizes v).1 = sendCloseAndMark (received conf ⟨sizes, [], []⟩ v) 1009 :=
      wsOpenStart_over (w := ⟨sizes, [], []⟩) hover
    rw [hconn]
    cases hmark : v.closeAfterSend with
    | true =>
      rw [sendCloseAndMark_of_marked (c := received conf ⟨sizes, [], []⟩ v) hmark]
      exact hread
    | false =>
      obtain ⟨r, body, evs, asm, hsaid, hrole, -, hacc, hpass, hms⟩ := h.open_cases hstate hmark
      have hshell := sendCloseAndMark_shell (received conf ⟨sizes, [], []⟩ v) 1009
      rw [sendCloseAndMark_tx (c := received conf ⟨sizes, [], []⟩ v) hmark 1009, ← List.append_assoc,
        show out ++ bufData (received conf ⟨sizes, [], []⟩ v).tx = r ++ pongs evs from hsaid]
      refine .closing r body evs 1009 ms (hshell.state.trans hstate) (hshell.role.trans hrole)
        (sendCloseAndMark_marked _ _) hacc ⟨?_, .inl rfl⟩ hms
      rw [hpass]
      exact List.prefix_append _ _
  · have hconn : (wsOpenRead conf sizes v).1 = received conf ⟨sizes, [], []⟩ v :=
      (wsOpenStart_fits (w := ⟨sizes, [], []⟩) hover).1
    rw [hconn]
    exact hread

/-- a pass of the loop, with what the unread bytes say about it -/
theorem Stands.follows (h : Stands conf v bs said ms) (hstate : v.state = .ST_WS_OPEN) (hopen : v.closeAfterSend = false) :
    ∃ r body evs asm, said = r ++ pongs evs ∧ v.role = .ROLE_SOURCE ∧ Accepted bs r body ∧
      passOf conf body = (Rules.pass (workerLimits conf) asm (bufData v.rx ++ v.sock.inq)).after evs ∧
      contents ms = Rules.messages evs ∧
      Follows v (wsFrame conf v) (Rules.move (workerLimits conf) asm (bufData v.rx)) := by
  obtain ⟨r, body, evs, asm, hsaid, hrole, ha, hacc, hpass, hms⟩ := h.open_cases hstate hopen
  exact ⟨r, body, evs, asm, hsaid, hrole, hacc, hpass, hms, wsFrame_follows conf ha⟩

/-- the pass stops here -/
theorem Stands.stops (h : Stands conf v bs (out ++ bufData v.tx) ms) (hstate : v.state = .ST_WS_OPEN)
    (hopen : v.closeAfterSend = false) (hstop : wsFrame conf v = .stop v') :
    Stands conf v' bs (out ++ bufData v'.tx) ms := by
  obtain ⟨r, body, evs, asm, hsaid, hrole, hacc, hpass, hms, hf⟩ := h.follows hstate hopen
  have hshell := wsFrame_shell conf v
  rw [hstop] at hshell hf
  generalize hmv : Rules.move (workerLimits conf) asm (bufData v.rx) = mv at hf
  cases hf with
  | @stop _ s hmark htx =>
    have hmv' := Rules.move_append v.sock.inq (show Rules.move (workerLimits conf) asm (bufData v.rx) ≠ .more by rw [hmv]; simp)
    rw [hmv] at hmv'
    rw [Rules.pass_stop hmv'] at hpass
    rw [htx, ← List.append_assoc, hsaid]
    refine .closing r body evs s.code ms (hshell.state.trans hstate) (hshell.role.trans hrole) hmark hacc ?_ hms
    unfold Ends
    rw [hpass]
    exact ⟨List.prefix_append _ _, .inr ⟨s, rfl, rfl, (List.append_nil evs).symm⟩⟩

/-- one frame is behind, with the events it makes -/
theorem Stands.goes {asm asm' : Rules.Assembly} {events : List Rules.Event} {rest : Bytes} (hacc : Accepted bs r body)
    (hstate : v.state = .ST_WS_OPEN) (hrole : v.role = .ROLE_SOURCE) (hshell : SameShell v v')
    (hmv : Rules.move (workerLimits conf) asm (bufData v.rx) = .go asm' events rest) (ha : Agrees v' asm')
    (hrx : bufData v'.rx = rest)
    (hpass : passOf conf body = (Rules.pass (workerLimits conf) asm (bufData v.rx ++ v.sock.inq)).after evs)
    (hms : contents (ms ++ ms') = Rules.messages (evs ++ events)) :
    Stands conf v' bs (r ++ pongs (evs ++ events)) (ms ++ ms') := by
  have hmv' := Rules.move_append v.sock.inq (show Rules.move (workerLimits conf) asm (bufData v.rx) ≠ .more by rw [hmv]; simp)
  rw [hmv] at hmv'
  rw [Rules.pass_go hmv'] at hpass
  refine .going r body (evs ++ events) asm' _ (hshell.state.trans hstate) (hshell.role.trans hrole) ha hacc ?_ hms
  rw [hpass, hrx, hshell.sock]
  simp only [Rules.Pass.after, List.append_assoc]

/-- **Every piece of work keeps the place in the stream.** -/
theorem deal_stands {p p' : WPc} (hw : Deal conf c p v p' v' out' ms') (hl : Line (.work p) v out ms)
    (h : Stands conf v bs (out ++ bufData v.tx) ms) : Stands conf v' bs (out ++ out' ++ bufData v'.tx) (ms ++ ms') := by
  -- bytes go from tx to the socket, and nothing else happens
  have hflush : ∀ {u : Conn} {sent : Bytes}, SameTalk v u → u.rx = v.rx → u.sock = v.sock →
      sent ++ bufData u.tx = bufData v.tx → Stands conf u bs (out ++ sent ++ bufData u.tx) ms := by
    intro u sent hsame hrx hsock htx
    rw [List.append_assoc, htx]
    exact h.congr hsame (.inr (by rw [hrx, hsock]))
  cases hw with
  | readRet sizes hstate hread =>
    rw [List.append_nil, List.append_nil]
    obtain rfl := hsRead_ret hread
    exact h.congr ⟨rfl, rfl, rfl, rfl, rfl, rfl, rfl⟩ (.inr (hsRecv_data conf sizes v))
  | readSend sizes hstate hread =>
    rw [List.append_nil, List.append_nil]
    exact h.responds hstate hread
  | resend | reopen | closing | wait =>
    rw [List.append_nil, List.append_nil]
    exact h
  | sendRet sends hsend =>
    rw [List.append_nil]
    obtain rfl := hsSend_ret hsend
    obtain ⟨hconn, htx, -⟩ := flushTx_spec sends v
    refine hflush ?_ (by rw [hconn]) (by rw [hconn]) htx
    rw [hconn]
    exact ⟨rfl, rfl, rfl, rfl, rfl, rfl, rfl⟩
  | handoff sends hsend =>
    rw [List.append_nil]
    obtain ⟨rfl, -⟩ := hsSend_handoff hsend
    obtain ⟨hconn, htx, -⟩ := flushTx_spec sends v
    refine hflush ?_ (by rw [hconn]) (by rw [hconn]) htx
    rw [hconn]
    exact ⟨rfl, rfl, rfl, rfl, rfl, rfl, rfl⟩
  | opens sends hsend =>
    rw [List.append_nil]
    exact h.opens (hl.state _ rfl) hsend
  | recv sizes =>
    rw [List.append_nil, List.append_nil]
    exact h.reads (hl.state _ rfl)
  | stop hopen hstop =>
    rw [List.append_nil, List.append_nil]
    exact h.stops (hl.state _ rfl) hopen hstop
  | next hopen hnext =>
    rw [List.append_nil]
    have hstate : v.state = .ST_WS_OPEN := hl.state _ rfl
    obtain ⟨r, body, evs, asm, hsaid, hrole, hacc, hpass, hms, hf⟩ := h.follows hstate hopen
    have hshell := wsFrame_shell conf v
    rw [hnext] at hshell hf
    generalize hmv : Rules.move (workerLimits conf) asm (bufData v.rx) = mv at hf
    cases hf with
    | @next _ asm' events rest ha hrx htx hnone =>
      rw [htx, ← List.append_assoc, hsaid, List.append_assoc]
      have hall : Stands _ _ _ _ (ms ++ []) := Stands.goes hacc hstate hrole hshell hmv ha hrx hpass
        (by rw [List.append_nil, Rules.messages_append, hnone, List.append_nil, hms])
      rwa [pongs_append] at hall
  | @message _ _ _ opcode data ts hopen hmsg =>
    rw [List.append_nil]
    have hstate : v.state = .ST_WS_OPEN := hl.state _ rfl
    obtain ⟨r, body, evs, asm, hsaid, hrole, hacc, hpass, hms, hf⟩ := h.follows hstate hopen
    have hshell := wsFrame_shell conf v
    rw [hmsg] at hshell hf
    generalize hmv : Rules.move (workerLimits conf) asm (bufData v.rx) = mv at hf
    cases hf with
    | message ha hrx htx =>
      have hquiet : pongs (evs ++ [.message opcode data]) = pongs evs := by
        rw [pongs_append]
        exact List.append_nil _
      rw [htx, hsaid, ← hquiet]
      refine Stands.goes hacc hstate hrole hshell hmv ha hrx hpass ?_
      rw [contents_append, hms, Rules.messages_append]
      rfl
  | flush sends =>
    rw [List.append_nil]
    obtain ⟨hconn, htx, -⟩ := wsOpenFlush_spec sends _ v
    refine hflush ?_ (by rw [hconn]) (by rw [hconn]) htx
    rw [hconn]
    exact ⟨rfl, rfl, rfl, rfl, rfl, rfl, rfl⟩

/-- nothing is completed before the frames are reached -/
theorem Stands.early (h : Stands conf v bs said ms) (hstate : v.state ≠ .ST_WS_OPEN) : ms = [] := by
  cases h with
  | reading | apart | accepted => rfl
  | going _ _ _ _ _ h1 => exact absurd h1 hstate
  | closing _ _ _ _ _ h1 => exact absurd h1 hstate

/-- the messages completed are the first ones of the pass over what is behind the request -/
theorem Stands.messages_before (h : Stands conf v bs said ms) :
    ms = [] ∨ ∃ r body, Accepted bs r body ∧ contents ms <+: Rules.messages (passOf conf body).events := by
  have hpre : ∀ {evs all : List Rules.Event}, evs <+: all → Rules.messages evs <+: Rules.messages all := by
    rintro evs _ ⟨more, rfl⟩
    rw [Rules.messages_append]
    exact List.prefix_append _ _
  cases h with
  | reading | apart | accepted => exact .inl rfl
  | going r body evs asm _ _ _ _ hacc hpass hms =>
    refine .inr ⟨r, body, hacc, ?_⟩
    rw [hms, hpass]
    exact hpre (List.prefix_append _ _)
  | closing r body evs code _ _ _ _ hacc hends hms =>
    refine .inr ⟨r, body, hacc, ?_⟩
    rw [hms]
    exact hpre hends.1

/-- **Every accepted connection stands somewhere in what its peer sent**, in every run. -/
theorem nodeExec_stands (h : exec (nodeStep conf W) (.start client count) ls = some n) (hx : x < n.srv.nextId) :
    Stands conf (n.srv.conn x) (heard ls x) (n.sent x ++ bufData (n.srv.conn x).tx) (n.srv.completed x) := by
  obtain ⟨d, hat⟩ := n.srv.at_exists x
  have hall := nodeExec_source
    (P := fun d v out bs ms => Line d v out ms ∧ Stands conf v bs (out ++ bufData v.tx) ms) ?_ ?_ ?_ ?_ ?_ h hx d hat
  · exact hall.2
  · exact fun _ _ => ⟨⟨nofun, nofun, .reading rfl rfl rfl rfl⟩, .reading rfl rfl rfl rfl rfl⟩
  · rintro d v out bs ms bytes fin ⟨hl, hs⟩
    have hstep : SourceStep conf x d v d _ [] bytes.length [] := .arrive bytes fin
    have hline := sourceStep_line hl hstep
    rw [List.append_nil, List.append_nil] at hline
    exact ⟨hline, hs.arrive bytes fin⟩
  · rintro d d' v v' out bs ms ⟨hl, hs⟩ hpass hsame
    have hstep : SourceStep conf x d v d' v' [] 0 [] := .pass hpass hsame
    have hline := sourceStep_line hl hstep
    rw [List.append_nil, List.append_nil] at hline
    refine ⟨hline, ?_⟩
    rw [hsame.tx]
    exact hs.congr hsame.talk (.inr (by rw [hsame.rx, hsame.sock]))
  · rintro v v' out bs ms ⟨hl, hs⟩ htouch hrole hrole'
    have hstep : SourceStep conf x .free v .free v' [] 0 [] := .sink htouch hrole hrole'
    have hline := sourceStep_line hl hstep
    rw [List.append_nil, List.append_nil] at hline
    refine ⟨hline, ?_⟩
    rw [htouch.tx]
    exact hs.congr ⟨htouch.state, htouch.closeAfterSend, hrole'.trans hrole.symm, htouch.msg, htouch.msgOpcode,
      htouch.fragmenting, htouch.msgUtf8⟩ (.inl hrole)
  · rintro p p' v v' out out' bs ms ms' ⟨hl, hs⟩ hdeal
    exact ⟨deal_line hdeal hl, deal_stands hdeal hl hs⟩

/-- **A source is served as one pass over its stream.** In every run of the program before the shutdown, whatever its
threads interleave and however the network cuts the bytes: a connection completes nothing before its request is accepted.
Once it is open, the messages it completed are those of the first events `evs` of one pass over the frames behind the
request. As long as no CLOSE is queued, what was said to it is the response and a PONG for each PING among them, and the
rest of the pass lies in the bytes still unread. Otherwise one CLOSE stands behind that, with 1009, or with the code of the
stop of the pass, and then no event of the pass is missing. -/
theorem served_as_one_pass (conf : ServerConfig) (W : ℕ) (client : ℕ → UpstreamClient) (count : ℕ) (ls : List NodeAct)
    (n : Node) (h : exec (nodeStep conf W) (.start client count) ls = some n) (c : ℕ) (hc : c < n.srv.nextId) :
    let v := n.srv.conn c
    let said := n.sent c ++ bufData v.tx
    (v.state ≠ .ST_WS_OPEN → n.srv.completed c = []) ∧
      (v.state = .ST_WS_OPEN → ∃ r body evs, Accepted (heard ls c) r body ∧
        contents (n.srv.completed c) = Rules.messages evs ∧
        (v.closeAfterSend = false → said = r ++ pongs evs ∧ ∃ asm,
          passOf conf body = (Rules.pass (workerLimits conf) asm (bufData v.rx ++ v.sock.inq)).after evs) ∧
        (v.closeAfterSend = true → ∃ code,
          said = r ++ pongs evs ++ frameNew opClose (codeBytes code) ∧ Ends conf body evs code)) := by
  have hstands := nodeExec_stands h hc
  refine ⟨hstands.early, fun hstate => ?_⟩
  generalize n.sent c ++ bufData (n.srv.conn c).tx = said at hstands ⊢
  generalize n.srv.completed c = ms at hstands ⊢
  cases hstands with
  | reading h1 => exact nomatch h1.symm.trans hstate
  | apart _ h1 => exact nomatch h1.symm.trans hstate
  | accepted _ h1 => exact nomatch h1.symm.trans hstate
  | going r body evs asm _ _ _ hagrees hacc hpass hms =>
    refine ⟨r, body, evs, hacc, hms, fun _ => ⟨rfl, asm, hpass⟩, fun hmark => ?_⟩
    exact nomatch hagrees.opened.symm.trans hmark
  | closing r body evs code _ _ _ hmark hacc hends hms =>
    refine ⟨r, body, evs, hacc, hms, fun hopen => ?_, fun _ => ⟨code, rfl, hends⟩⟩
    exact nomatch hopen.symm.trans hmark

/-- no connection is accepted under a number of an upstream, and no frame for a sink is started inside another one -/
def Node.Apart (n : Node) (a : NodeAct) : Prop :=
  IdsLeft n a ∧ match a with
    | .srv (.agg e) => WireOk n.agg (.agg e)
    | _ => True

instance (n : Node) (a : NodeAct) : Decidable (n.Apart a) := by
  unfold Node.Apart
  split <;> infer_instance

/-- a sink, and a source whose first message is a frame on the stream of the sink -/
def relayRun : List NodeAct := (parkRun [] ++ List.replicate 5 (Act.agg calmAgg)).map .srv

/-- source 2 is open, three messages are completed, and the first of them is sent -/
def Node.relayed (n : Node) : Bool :=
  n.srv.nextId = 3 ∧ (n.srv.conn 2).state = .ST_WS_OPEN ∧ (n.srv.conn 2).closeAfterSend = false ∧
    contents (n.srv.completed 2) = [(2, [1]), (2, [2]), (2, [3])] ∧
    n.srv.sys.popped = [msgNewData 2 opBin ⟨0, 0⟩ [1]] ∧ n.srv.sys.fates = [⟨0, true⟩] ∧ n.srv.sys.past = []

theorem relayRun_ends : (exec (guarded (nodeStep tinyConf 1) Node.Apart) (.started []) relayRun).map Node.relayed =
    some true := by
  decide +kernel

theorem served_as_one_pass_relayed : ∃ n, exec (nodeStep tinyConf 1) (.started []) relayRun = some n ∧
    ∃ r body evs, Accepted (heard relayRun 2) r body ∧ Rules.messages evs = [(2, [1]), (2, [2]), (2, [3])] ∧
      n.sent 2 ++ bufData (n.srv.conn 2).tx = r ++ pongs evs := by
  obtain ⟨n, hrun, hp⟩ := Option.map_eq_some_iff.1 relayRun_ends
  have hn := (exec_of_guarded hrun).1
  obtain ⟨hid, hstate, hopen, hdone, -⟩ := of_decide_eq_true hp
  have hc : 2 < n.srv.nextId := by omega
  obtain ⟨-, hserved⟩ := served_as_one_pass tinyConf 1 (addUpstreams []).client (addUpstreams []).clients.length relayRun n
    hn 2 hc
  obtain ⟨r, body, evs, hacc, hms, hgoing, -⟩ := hserved hstate
  exact ⟨n, hn, r, body, evs, hacc, hms.symm.trans hdone, (hgoing hopen).1⟩

end WsServer
