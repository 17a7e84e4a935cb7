/-
What a sink reads: the messages its stream carries, in their order, each with its number.

`Core.Delivery` cuts a stream into the packets that were sent on it. Here they are frames, and the reader is the
reference pass of the rules with the limits of a client.

- `AggSys.delivered k`: the messages whose frames are whole on stream `k`, each with its number.
- `Readable`: a message that a client with these limits can take.
- `Readings.reads`: one pass over the bytes of a stream reports what was delivered on it and nothing else, and ends waiting
  for more, or with the CLOSE of the server.
- `sink_reads_sent`: in every run that keeps frames apart (`WireOk`).
-/
import Mathlib
import WsServer.Core.Delivery
import WsServer.Agg.Control
import WsServer.Agg.Envelope

namespace WsServer

open Ws Packets Machine

/-- messages in their order, each with its number behind those before it -/
def numberedFrom (before : List Msg) : List Msg → List (ℕ × Msg)
  | [] => []
  | m :: ms => (numberAfter before m, m) :: numberedFrom (before ++ [m]) ms

/-- what was sent in full on stream `k` -/
def AggSys.delivered (s : AggSys) (k : ℕ) : List (ℕ × Msg) :=
  inFull (numberedFrom [] (s.encoded.map Prod.fst)) s.fates k

/-- what the frame of a message says -/
def sayOf (x : ℕ × Msg) : Rules.Event := .message (encodeMsg x.1 x.2).1 (encodeMsg x.1 x.2).2

/-- a reader without a mask has room for it, and what is TEXT is UTF-8 -/
structure Readable (lim : Rules.Limits) (m : Msg) : Prop where
  kind : m.opcode = opBin ∨ m.opcode = opText ∧ Utf8.WellFormed m.data
  srcId : m.srcId < 2 ^ 64
  sec : m.ts.sec < 2 ^ 63
  nsec : m.ts.nsec < 10 ^ 9
  frame : m.data.length * 6 + 128 ≤ lim.maxFrame
  message : m.data.length * 6 + 128 ≤ lim.maxMessage
  alloc : m.data.length * 6 + 128 < 2 ^ 63

/-- the body of a PONG -/
def IsReply (body : Bytes) : Prop := ∃ payload, payload.length ≤ 125 ∧ body = frameNew opPong payload

/-- the body of a CLOSE of the aggregator -/
def IsBye (body : Bytes) : Prop :=
  ∃ code, (code = 1000 ∨ code = 1001 ∨ code = 1002) ∧ body = frameNew opClose (codeBytes code)

variable {conf : ServerConfig} {s t : AggSys} {lim : Rules.Limits} {m : Msg} {q : ℕ}

/-! ## Frames read back -/

/-- a frame of the server read back, with `t` behind it -/
theorem readFrame_frameNew_append {op : ℕ} {payload : Bytes} (hsend : SendOk (op, payload)) (hm : lim.masked = false)
    (hmax : payload.length ≤ lim.maxFrame) (t : Bytes) :
    Rules.readFrame lim (frameNew op payload ++ t) = .frame true op payload t := by
  have hread := readFrame_frameNew hsend hm hmax
  rw [Rules.readFrame_append t (by rw [hread]; rintro ⟨⟩), hread]
  rfl

/-- a frame of which some bytes are missing is not read yet -/
theorem readFrame_part {op : ℕ} {payload e : Bytes} (hsend : SendOk (op, payload)) (hm : lim.masked = false)
    (hmax : payload.length ≤ lim.maxFrame) (hpre : e <+: frameNew op payload) (hne : e ≠ frameNew op payload) :
    Rules.readFrame lim e = .more := by
  by_contra hmore
  obtain ⟨t, ht⟩ := hpre
  have hread := Rules.readFrame_append t hmore
  rw [ht, readFrame_frameNew hsend hm hmax] at hread
  -- what is missing would be left behind, and nothing is
  cases hr : Rules.readFrame lim e with
  | more => exact hmore hr
  | bad code => rw [hr] at hread; cases hread
  | frame fin op' payload' rest =>
    rw [hr] at hread
    obtain ⟨-, -, -, hrest⟩ := Rules.Read.frame.inj hread
    obtain ⟨-, rfl⟩ := List.append_eq_nil_iff.1 hrest.symm
    rw [List.append_nil] at ht
    exact hne ht

theorem pass_reply {payload : Bytes} (hlen : payload.length ≤ 125) (hm : lim.masked = false) (hroom : 125 ≤ lim.maxFrame)
    (t : Bytes) : Rules.pass lim none (frameNew opPong payload ++ t) = Rules.pass lim none t := by
  have hmove : Rules.move lim none (frameNew opPong payload ++ t) = .go none [] t := by
    unfold Rules.move
    rw [readFrame_frameNew_append (sendOk_pong hlen) hm (hlen.trans hroom)]
    rfl
  rw [Rules.pass_go hmove]
  rfl

theorem pass_bye (code : ℕ) (hm : lim.masked = false) (hroom : 125 ≤ lim.maxFrame) :
    Rules.pass lim none (frameNew opClose (codeBytes code)) =
      ⟨[], some (.closed (codeBytes code)), none, frameNew opClose (codeBytes code)⟩ := by
  have hlen : (codeBytes code).length ≤ lim.maxFrame := le_trans (by simp [codeBytes]) hroom
  refine Rules.pass_stop ?_
  unfold Rules.move
  rw [readFrame_frameNew (sendOk_close code) hm hlen]
  rfl

/-! ## Messages read back -/

/-- the payload of a frame has its room -/
theorem Readable.encoded (h : Readable lim m) (hq : q < 2 ^ 64) :
    SendOk (encodeMsg q m) ∧ (encodeMsg q m).2.length ≤ lim.maxFrame ∧ (encodeMsg q m).2.length ≤ lim.maxMessage ∧
      ((encodeMsg q m).1 = opText → Utf8.WellFormed (encodeMsg q m).2) := by
  have hframe := h.frame
  have hmessage := h.message
  have halloc := h.alloc
  rcases h.kind with hop | ⟨hop, hdata⟩
  · unfold encodeMsg
    rw [if_pos hop]
    exact ⟨sendOk_data (.inr rfl) (by omega), show m.data.length ≤ _ by omega, show m.data.length ≤ _ by omega, nofun⟩
  · rw [encodeMsg_text hop h.srcId hq h.sec h.nsec]
    have hhead := length_envelopeHead h.srcId hq h.sec h.nsec
    have hesc := (length_escapes m.data).2
    have hend : (ascii "\"\x7d").length = 2 := by decide
    have hlen : (envelopeHead m.srcId q m.ts ++ m.data.flatMap escapeByte ++ ascii "\"\x7d").length ≤
        m.data.length * 6 + 128 := by
      rw [List.length_append, List.length_append]
      omega
    exact ⟨sendOk_data (.inl rfl) (by omega), hlen.trans hframe, hlen.trans hmessage, fun _ => envelope_wellFormed hdata q⟩

/-- a message in one frame is reported at once -/
theorem pass_message (h : Readable lim m) (hq : q < 2 ^ 64) (hm : lim.masked = false) (t : Bytes) :
    Rules.pass lim none (frameOf q m ++ t) = (Rules.pass lim none t).after [sayOf (q, m)] := by
  obtain ⟨hsend, hframe, hmessage, htext⟩ := h.encoded hq
  have hop := encodeMsg_opcode q m
  have hmove : Rules.move lim none (frameOf q m ++ t) = .go none [sayOf (q, m)] t := by
    unfold Rules.move frameOf sayOf
    dsimp only
    generalize encodeMsg q m = x at hsend hframe hmessage htext hop
    obtain ⟨op, payload⟩ := x
    dsimp only at hframe hmessage htext hop ⊢
    have hjudge : Rules.judge lim none true op payload = .go none [.message op payload] := by
      have hfrag : Rules.judge lim none true op payload = Rules.judgeFragment lim op [] true payload := by
        rcases hop with rfl | rfl <;> rfl
      rw [hfrag, Rules.judgeFragment, if_neg (by simpa using hmessage), if_neg, if_neg (by simp), if_neg, List.nil_append]
      · rintro ⟨h', hbad⟩
        exact hbad (htext h')
      · rintro ⟨h', hbad⟩
        exact hbad ⟨[], by simpa using htext h'⟩
    rw [readFrame_frameNew_append hsend hm hframe]
    dsimp only
    rw [hjudge]
    rfl
  exact Rules.pass_go hmove

/-! ## A stream read back -/

theorem flatMap_mark_snd {α β : Type} (xs : List (β × Packet α)) :
    (xs.flatMap fun x => x.2.mark).map Prod.snd = xs.flatMap fun x => x.2.body := by
  have hmark : ∀ p : Packet α, p.mark.map Prod.snd = p.body := fun p => by
    rw [Packet.mark, List.map_map]
    exact List.map_id _
  rw [List.map_flatMap]
  exact congrArg xs.flatMap (funext fun x => hmark x.2)

/-- a packet of a message with the number it has -/
def Shows (e : Msg × Frame) (x : ℕ × Msg) : Prop := x.2 = e.1 ∧ e.2.body = frameOf x.1 x.2

/-- **A pass over whole frames** reports the messages among them. -/
theorem pass_frames {xs : List (Option Msg × Frame)} {said : List (ℕ × Msg)}
    (hsaid : List.Forall₂ Shows (xs.filterMap fun x => x.1.map (·, x.2)) said) (hm : lim.masked = false)
    (hroom : 125 ≤ lim.maxFrame) (hreply : ∀ x ∈ xs, x.1 = none → IsReply x.2.body)
    (hread : ∀ x ∈ said, Readable lim x.2 ∧ x.1 < 2 ^ 64) (t : Bytes) :
    Rules.pass lim none ((xs.flatMap fun x => x.2.body) ++ t) = (Rules.pass lim none t).after (said.map sayOf) := by
  induction xs generalizing said with
  | nil =>
    cases hsaid
    rfl
  | cons x xs ih =>
    have hrest : ∀ x ∈ xs, x.1 = none → IsReply x.2.body := fun y hy => hreply y (List.mem_cons_of_mem _ hy)
    rw [List.flatMap_cons, List.append_assoc]
    cases hx : x.1 with
    | none =>
      rw [List.filterMap_cons_none (by rw [hx]; rfl)] at hsaid
      obtain ⟨payload, hlen, hbody⟩ := hreply x List.mem_cons_self hx
      rw [hbody, pass_reply hlen hm hroom, ih hsaid hrest hread]
    | some m =>
      rw [List.filterMap_cons_some (b := (m, x.2)) (by rw [hx]; rfl)] at hsaid
      cases hsaid with
      | @cons _ y _ said hy hsaid =>
        obtain ⟨hmsg, hbody⟩ := hy
        obtain ⟨hok, hq⟩ := hread y List.mem_cons_self
        rw [show x.2.body = frameOf y.1 y.2 from hbody, pass_message hok hq hm,
          ih hsaid hrest fun z hz => hread z (List.mem_cons_of_mem _ hz)]
        rfl

/-! ## Numbers -/

theorem numberedFrom_snd (before ms : List Msg) : (numberedFrom before ms).map Prod.snd = ms := by
  induction ms generalizing before with
  | nil => rfl
  | cons m ms ih => rw [numberedFrom, List.map_cons, ih]

theorem numberAfter_le (before : List Msg) (m : Msg) : numberAfter before m ≤ before.length + 1 := by
  have hcount : countOf before m.srcId ≤ before.length := List.countP_le_length
  unfold numberAfter
  split_ifs <;> omega

/-- no number is greater than the count of messages -/
theorem numberedFrom_le (before ms : List Msg) : ∀ x ∈ numberedFrom before ms, x.1 ≤ before.length + ms.length := by
  induction ms generalizing before with
  | nil => nofun
  | cons m ms ih =>
    intro x hx
    rcases List.mem_cons.1 hx with rfl | hx
    · refine (numberAfter_le before m).trans ?_
      rw [List.length_cons]
      omega
    · have := ih (before ++ [m]) x hx
      rw [List.length_append, List.length_singleton] at this
      rw [List.length_cons]
      omega

/-- the frames made are those of the messages with their numbers -/
theorem Numbered.shows {src : List AggSrc} {enc : List (Msg × Frame)} (h : Numbered enc src) :
    List.Forall₂ Shows enc (numberedFrom [] (enc.map Prod.fst)) := by
  have hall : ∀ after before, enc = before ++ after →
      List.Forall₂ Shows after (numberedFrom (before.map Prod.fst) (after.map Prod.fst)) := by
    intro after
    induction after with
    | nil => exact fun _ _ => .nil
    | cons e after ih =>
      intro before he
      have hnext := ih (before ++ [e]) (by rw [he, List.append_assoc]; rfl)
      rw [List.map_append] at hnext
      exact .cons ⟨rfl, h.frames before e after he⟩ hnext
  exact hall enc [] rfl

/-! ## The runs -/

/-- a PING of the sink is short, as every control frame -/
theorem sinkFrames_short (fuel : ℕ) (pong : Option Bytes) (free : Bool) (rx : Buf) (hpong : ∀ p, pong = some p → p.length ≤ 125) :
    ∀ p, (sinkFrames fuel pong free rx).pong = some p → p.length ≤ 125 := by
  induction fuel generalizing pong free rx with
  | zero => exact hpong
  | succ fuel ih =>
    unfold sinkFrames
    split
    · exact hpong
    · exact hpong
    · next hd hp =>
      have hshort : hd.opcode = opPing → (Rules.payloadOf hd (bufData rx)).length ≤ 125 := by
        intro hping
        have hlen := ((wsParseHeader_good hp).control (by rw [hping]; decide)).2
        unfold Rules.payloadOf
        dsimp only
        split_ifs <;> simp <;> omega
      unfold Rules.payloadOf at hshort
      dsimp only at hshort ⊢
      generalize (if hd.masked = true then _ else _) = payload at hshort ⊢
      split_ifs with h1 hping hfree hclose
      · exact hpong
      · exact ih _ _ _ fun p h => Option.some.inj h ▸ hshort hping
      · exact ih _ _ _ hpong
      · exact hpong
      · exact ih _ _ _ hpong

/-- what a step sends besides messages: PONGs, and a CLOSE before it ends the stream -/
theorem FrameMove.speaks {e : AggEnv} {u : Sender UInt8 Msg} {mv : Move UInt8 Msg} (h : FrameMove s e u mv) :
    Speaks IsReply IsBye mv := by
  cases mv with
  | farewell body n =>
    obtain ⟨code, hbody, hcode⟩ := h.2
    exact ⟨code, hcode, hbody⟩
  | reply body =>
    obtain ⟨c, evs, payload, -, -, hpong, hbody⟩ := h.2
    exact ⟨payload, sinkFrames_short _ _ _ _ (by rintro p ⟨⟩) payload hpong, hbody⟩
  | _ => trivial

/-- what holds of the streams and of the frames made for messages -/
structure Readings (s : AggSys) : Prop where
  inv : AggInv s
  delivered : Delivered IsReply IsBye s.sender
  numbered : Numbered s.encoded s.agg.src

theorem Readings.start (conn : ℕ → Conn) (dataQueue ctrlQueue : Queue Msg) (park : List ℕ) :
    Readings (.start conn dataQueue ctrlQueue park) where
  inv := .start conn dataQueue ctrlQueue park
  delivered := by
    have hinv := AggInv.start conn dataQueue ctrlQueue park
    refine ⟨⟨hinv.slots, .inl rfl, nofun, .nil _, fun _ => OpenAt.nil _⟩, hinv.accounted, nofun, nofun, [], CutAs.nil, .inl rfl,
      fun _ => rfl⟩
  numbered := .start

theorem Readings.act {a : AggAct} (h : Readings s) (hok : WireOk s a) (hs : aggSysStep conf s a = some t) : Readings t := by
  refine ⟨h.inv.act hs, ?_, numbered_act h.numbered hs⟩
  cases a with
  | agg e =>
    have hm := (aggStep_frameMoves h.inv.slots h.inv.at_pc hs).1
    exact hm.delivered (fun _ _ hc hq => ⟨StepMove.orderly hok hc hq.1, hq.speaks⟩) h.delivered
  | others conn dq cq park =>
    obtain rfl := Option.some.inj hs
    exact h.delivered

/-- the frame a stream ends in is one a reader could take -/
theorem Readings.known (h : Readings s) (hroom : 125 ≤ lim.maxFrame)
    (hcount : s.encoded.length < 2 ^ 64) (hread : ∀ e ∈ s.encoded, Readable lim e.1) {f : Frame}
    (hf : s.sender.Knows IsReply IsBye f) :
    ∃ op payload, f.body = frameNew op payload ∧ SendOk (op, payload) ∧ payload.length ≤ lim.maxFrame := by
  rcases hf with ⟨m, hm⟩ | ⟨payload, hlen, hbody⟩ | ⟨code, -, hbody⟩
  · obtain ⟨before, after, he⟩ := List.append_of_mem hm
    have hbody := h.numbered.frames before (m, f) after he
    have hq : numberAfter (before.map Prod.fst) m < 2 ^ 64 := by
      have hle := numberAfter_le (before.map Prod.fst) m
      have hlen : s.encoded.length = before.length + (after.length + 1) := by
        rw [show s.encoded = before ++ (m, f) :: after from he, List.length_append, List.length_cons]
      rw [List.length_map] at hle
      omega
    obtain ⟨hsend, hframe, -⟩ := (hread (m, f) hm).encoded hq
    exact ⟨_, _, hbody, hsend, hframe⟩
  · exact ⟨_, _, hbody, sendOk_pong hlen, hlen.trans hroom⟩
  · exact ⟨_, _, hbody, sendOk_close code, le_trans (by simp [codeBytes]) hroom⟩

/-- the end of a stream holds no message, and stops the reader at most with a CLOSE -/
theorem Readings.tail (h : Readings s) (hlim : lim.masked = false) (hroom : 125 ≤ lim.maxFrame)
    (hcount : s.encoded.length < 2 ^ 64) (hread : ∀ e ∈ s.encoded, Readable lim e.1) {last : Bytes → Prop} {e : Log UInt8}
    (he : Tail (s.sender.Knows IsReply IsBye) last e) (hlast : ∀ body, last body → IsBye body) :
    (Rules.pass lim none (e.map Prod.snd)).events = [] ∧
      ((Rules.pass lim none (e.map Prod.snd)).stop = none ∨ ∃ code, (code = 1000 ∨ code = 1001 ∨ code = 1002) ∧
        (∃ body, last body) ∧ (Rules.pass lim none (e.map Prod.snd)).stop = some (.closed (codeBytes code))) := by
  have hmark : ∀ f : Frame, f.mark.map Prod.snd = f.body := fun f => by
    rw [Packet.mark, List.map_map]
    exact List.map_id _
  rcases he with rfl | ⟨f, hf, hpre, hwhole⟩
  · have hmore : Rules.move lim none [] = .more := rfl
    rw [List.map_nil, Rules.pass_more hmore]
    exact ⟨rfl, .inl rfl⟩
  · obtain ⟨op, payload, hbody, hsend, hmax⟩ := h.known hroom hcount hread hf
    have hpre' : e.map Prod.snd <+: frameNew op payload := by
      rw [← hbody, ← hmark f]
      exact hpre.map _
    by_cases hall : e.map Prod.snd = frameNew op payload
    · -- the whole of a frame is left at the end only by a farewell
      have hlen := congrArg List.length (hall.trans hbody.symm)
      rw [List.length_map, ← length_mark] at hlen
      have heq := hpre.eq_of_length hlen
      obtain ⟨code, hcode, hbye⟩ := hlast f.body (hwhole heq)
      rw [heq, hmark, hbye, pass_bye code hlim hroom]
      exact ⟨rfl, .inr ⟨code, hcode, ⟨f.body, hwhole heq⟩, rfl⟩⟩
    · have hmore : Rules.move lim none (e.map Prod.snd) = .more := by
        unfold Rules.move
        rw [readFrame_part hsend hlim hmax hpre' hall]
      rw [Rules.pass_more hmore]
      exact ⟨rfl, .inl rfl⟩

/-- what is said of a stream that is cut -/
theorem Readings.stream (h : Readings s) (hlim : lim.masked = false) (hroom : 125 ≤ lim.maxFrame)
    (hcount : s.encoded.length < 2 ^ 64) (hread : ∀ e ∈ s.encoded, Readable lim e.1) {k : ℕ} {w e : Log UInt8}
    (hcut : CutAs IsReply (s.sender.carried k) w e) :
    Rules.pass lim none (w.map Prod.snd) = (Rules.pass lim none (e.map Prod.snd)).after ((s.delivered k).map sayOf) := by
  obtain ⟨xs, rfl, hxs, hreply⟩ := hcut
  have hshows : List.Forall₂ Shows (s.sender.carried k) (s.delivered k) := inFull_forall h.numbered.shows s.fates k
  rw [List.map_append, flatMap_mark_snd]
  refine pass_frames (hxs ▸ hshows) hlim hroom hreply (fun x hx => ?_) _
  have hmem : x ∈ numberedFrom [] (s.encoded.map Prod.fst) := (inFull_sublist _ _ _).subset hx
  have hle := numberedFrom_le _ _ x hmem
  rw [List.length_nil, List.length_map] at hle
  have hmsg : x.2 ∈ s.encoded.map Prod.fst := by
    rw [← numberedFrom_snd [] (s.encoded.map Prod.fst)]
    exact List.mem_map_of_mem hmem
  obtain ⟨y, hy, hyx⟩ := List.mem_map.1 hmsg
  exact ⟨hyx ▸ hread y hy, by omega⟩

/-- what the reader of a stream is told -/
theorem Readings.reads (h : Readings s) (hlim : lim.masked = false) (hroom : 125 ≤ lim.maxFrame)
    (hcount : s.encoded.length < 2 ^ 64) (hread : ∀ e ∈ s.encoded, Readable lim e.1) {k : ℕ} {w : Log UInt8}
    (hw : s.logs[k]? = some w) :
    (Rules.pass lim none (w.map Prod.snd)).events = (s.delivered k).map sayOf ∧
      ((Rules.pass lim none (w.map Prod.snd)).stop = none ∨ k < s.past.length ∧
        ∃ code, (code = 1000 ∨ code = 1001 ∨ code = 1002) ∧
          (Rules.pass lim none (w.map Prod.snd)).stop = some (.closed (codeBytes code))) := by
  rcases logs_cases (s := s.sender) hw with ⟨hk, hp⟩ | ⟨rfl, rfl⟩
  · obtain ⟨e, hcut, htail⟩ := h.delivered.past k w hp
    obtain ⟨hnone, hstop⟩ := h.tail hlim hroom hcount hread htail fun _ => id
    rw [h.stream hlim hroom hcount hread hcut]
    refine ⟨?_, hstop.imp_right fun ⟨code, hcode, _, hclosed⟩ => ⟨hk, code, hcode, hclosed⟩⟩
    exact (congrArg (_ ++ ·) hnone).trans (List.append_nil _)
  · obtain ⟨e, hcut, htail, -⟩ := h.delivered.wire
    obtain ⟨hnone, hstop⟩ := h.tail hlim hroom hcount hread htail fun _ => False.elim
    rw [h.stream hlim hroom hcount hread hcut]
    refine ⟨(congrArg (_ ++ ·) hnone).trans (List.append_nil _), .inl ?_⟩
    rcases hstop with hstop | ⟨-, -, ⟨-, hlast⟩, -⟩
    · exact hstop
    · exact hlast.elim

/-- **A sink reads what it was sent.** In every run of the aggregator among the other threads in which no step starts a
frame inside another one: one pass over the bytes of a stream, with the limits of a client and room for the messages,
reports exactly the messages whose frames are whole on this stream, in their order, each in the encoding of its number;
nothing else; and the pass waits for more bytes, or ends with the CLOSE of a stream that is closed. -/
theorem sink_reads_sent (conf : ServerConfig) (conn : ℕ → Conn) (dataQueue ctrlQueue : Queue Msg) (park : List ℕ)
    (s : AggSys) (h : Reach (aggSysStep conf) WireOk (.start conn dataQueue ctrlQueue park) s) (lim : Rules.Limits)
    (hlim : lim.masked = false) (hroom : 125 ≤ lim.maxFrame) (hcount : s.encoded.length < 2 ^ 64)
    (hread : ∀ e ∈ s.encoded, Readable lim e.1) (k : ℕ) (w : Log UInt8) (hw : s.logs[k]? = some w) :
    (Rules.pass lim none (w.map Prod.snd)).events = (s.delivered k).map sayOf ∧
      ((Rules.pass lim none (w.map Prod.snd)).stop = none ∨ k < s.past.length ∧
        ∃ code, (code = 1000 ∨ code = 1001 ∨ code = 1002) ∧
          (Rules.pass lim none (w.map Prod.snd)).stop = some (.closed (codeBytes code))) := by
  have hr : Readings s := h.invariant (.start conn dataQueue ctrlQueue park) fun _ _ _ hr hok hs => hr.act hok hs
  exact hr.reads hlim hroom hcount hread hw

/-- a client that takes messages of up to 4096 bytes -/
def tinyClient : Rules.Limits := ⟨false, 4096, 4096⟩

def pieceRead (s : AggSys) : Bool := s.past = [] ∧ s.encoded.map Prod.fst = [msgNewData 3 opBin ⟨0, 0⟩ [1, 2, 3]] ∧
  s.fates = [⟨0, true⟩]

/-- the frame went out in two pieces -/
theorem sink_reads_sent_piece : ∃ s, Reach (aggSysStep smallConf) WireOk pingStart s ∧ pieceRead s = true ∧
    (Rules.pass tinyClient none (s.wire.map Prod.snd)).events = [.message opBin [1, 2, 3]] := by
  have hrun : (exec (guarded (aggSysStep smallConf) WireOk) pingStart pieceRun).map pieceRead = some true := by
    decide
  obtain ⟨s, hs, hp⟩ := Option.map_eq_some_iff.1 hrun
  obtain ⟨hpast, henc, hfates⟩ := of_decide_eq_true hp
  have hreach : Reach (aggSysStep smallConf) WireOk pingStart s := .of_guarded .start hs
  have hlog : s.logs[0]? = some s.wire := by
    rw [AggSys.logs, hpast]
    rfl
  have hread : ∀ e ∈ s.encoded, Readable tinyClient e.1 := by
    intro e he
    have hmem : e.1 ∈ s.encoded.map Prod.fst := List.mem_map_of_mem he
    rw [henc] at hmem
    rw [List.mem_singleton.1 hmem]
    exact ⟨.inl rfl, by decide, by decide, by decide, by decide, by decide, by decide⟩
  have hlen := congrArg List.length henc
  rw [List.length_map] at hlen
  have hall := (sink_reads_sent smallConf _ _ _ _ s hreach tinyClient rfl (by decide) (by rw [hlen]; decide) hread 0 s.wire
    hlog).1
  rw [AggSys.delivered, henc, hfates] at hall
  exact ⟨s, hreach, hp, hall⟩

end WsServer
