/-
The control frames of a source and of the sink: `handleWsOpen` beside the shorter loop of `sinkReadAndHandle`.

A `ControlFrame` is a control frame with any header, masked or not. Either loop stops at the first frame that gives it
a close code (`workerCode`, `sinkCode`), whatever the reads are, as long as they fit the read buffers. The sink's loop
looks neither at the mask nor at `--max-frame`, and answers every CLOSE with 1000. The buffers have limits of their own:
`maxMessage + maxFrame` for a source, `DEFAULT_MAX_FRAME + 64` for the sink.

- `worker_closes`, `sink_closes`: the CLOSE frames of a run over the whole stream, and whether it is closing.
- `worker_cut`, `sink_dropped`: what becomes of a stream that a read buffer cannot hold: 1009, and no CLOSE at all.
- `close_codes_iff`: the answers are the same, frame for frame, exactly when the frames, up to the first malformed one or
  CLOSE, are masked and within `--max-frame`, with a CLOSE that asks for 1000, and the reads are within both buffers.
- `unmasked_ping_differs`: an unmasked PING, which a worker closes with 1002 and the sink's loop answers.
-/
import Mathlib
import WsServer.Agg.Steps
import WsServer.Proto.Forms
import WsServer.Worker.Runs

namespace WsServer

open Ws

/-! ## A control frame -/

structure ControlFrame where
  frame : Rules.AnyFrame
  /-- none for an unmasked frame -/
  key : Option { b : Bytes // b.length = 4 }
  control : frame.op.1 &&& 0x8 ≠ 0

def ControlFrame.bytes (f : ControlFrame) : Bytes :=
  match f.key with
  | some key => f.frame.masked key.1
  | none => f.frame.plain

/-- the code the sink's loop closes with -/
def ControlFrame.sinkCode (f : ControlFrame) : Option ℕ :=
  if f.frame.Bad then some 1002 else if f.frame.op.1 = opClose then some 1000 else none

/-- all bytes of a sequence -/
def controlBytes (fs : List ControlFrame) : Bytes := fs.flatMap ControlFrame.bytes

theorem controlBytes_cons (f : ControlFrame) (fs : List ControlFrame) :
    controlBytes (f :: fs) = f.bytes ++ controlBytes fs := List.flatMap_cons

theorem controlBytes_append (fs gs : List ControlFrame) : controlBytes (fs ++ gs) = controlBytes fs ++ controlBytes gs :=
  List.flatMap_append

/-- the header of the frame, and what stands behind it -/
theorem ControlFrame.read (f : ControlFrame) : ∃ hl raw key,
    f.bytes.length = hl + f.frame.payload.length ∧
    (∀ t, wsParseHeader (f.bytes ++ t) = if f.frame.Bad then .errProto
      else .ok ⟨f.frame.fin, f.frame.op, f.key.isSome, f.frame.payload.length, key, hl⟩) ∧
    (∀ t, ((f.bytes ++ t).drop hl).take f.frame.payload.length = raw) ∧
    (if f.key.isSome then wsUnmask raw key else raw) = f.frame.payload := by
  obtain ⟨f, key, -⟩ := f
  have hcut : ∀ (h body t : Bytes), body.length = f.payload.length →
      ((h ++ body ++ t).drop h.length).take f.payload.length = body := by
    intro h body t hl
    rw [List.append_assoc, List.drop_left, ← hl, List.take_left]
  cases key with
  | none =>
    refine ⟨(f.first :: f.form.bytes 0 f.payload.length).length, f.payload, [], List.length_append, fun t => ?_,
      fun t => hcut _ _ t rfl, by simp⟩
    have h := @Rules.wsParseHeader_any f 0 (.inl rfl) [] rfl (f.payload ++ t)
    simp only [List.append_nil] at h
    show wsParseHeader (_ ++ f.payload ++ t) = _
    rw [List.append_assoc, h]
    rfl
  | some key =>
    refine ⟨(f.first :: f.form.bytes 0x80 f.payload.length ++ key.1).length, wsUnmask f.payload key.1, key.1, ?_, fun t => ?_,
      fun t => hcut _ _ t (length_wsUnmask _ _), by simp⟩
    · show (_ ++ wsUnmask f.payload key.1).length = _
      rw [List.length_append, length_wsUnmask]
    · have h := @Rules.wsParseHeader_any f 0x80 (.inr rfl) key.1 (by simp [key.2]) (wsUnmask f.payload key.1 ++ t)
      show wsParseHeader (_ ++ wsUnmask f.payload key.1 ++ t) = _
      rw [List.append_assoc, h]
      rfl

theorem ControlFrame.pos (f : ControlFrame) : 0 < f.bytes.length := by
  unfold ControlFrame.bytes
  split <;> simp [Rules.AnyFrame.masked, Rules.AnyFrame.plain]

/-- the opcodes that are left in a frame with a good header -/
theorem ControlFrame.opcode {f : ControlFrame} (h : ¬ f.frame.Bad) :
    f.frame.op.1 = opClose ∨ f.frame.op.1 = opPing ∨ f.frame.op.1 = opPong := by
  have hres : ¬ reservedOp f.frame.op.1 := fun hr => h (.inr (.inl hr))
  have hall : ∀ op : Fin 16, op.1 &&& 0x8 ≠ 0 → ¬ reservedOp op.1 → op.1 = opClose ∨ op.1 = opPing ∨ op.1 = opPong := by
    decide
  exact hall _ f.control hres

/-- a good control frame is short -/
theorem ControlFrame.short {f : ControlFrame} (h : ¬ f.frame.Bad) : f.frame.payload.length ≤ 125 := by
  have hctl : ControlOk f.frame.fin f.frame.op f.frame.payload.length :=
    not_not.1 fun hno => h (.inr (.inr (.inr hno)))
  exact (hctl f.control).2

/-! ## A worker -/

/-- the connection is closed, or its CLOSE is on the way -/
def Session.closing (s : Session) : Prop := s.closed = true ∨ s.conn.closeAfterSend = true

/-- the CLOSE frames of a list of answers -/
def closesOf (answers : List (ℕ × Bytes)) : List (ℕ × Bytes) := answers.filter (·.1 = opClose)

/-- the CLOSE frame with a code, if there is one -/
def closeWith (code : Option ℕ) : List (ℕ × Bytes) := code.toList.map fun code => (opClose, codeBytes code)

theorem closesOf_append (xs ys : List (ℕ × Bytes)) : closesOf (xs ++ ys) = closesOf xs ++ closesOf ys := by
  unfold closesOf
  rw [List.filter_append]

/-- one pass of the sink's loop over a whole frame -/
theorem sinkFrames_whole {f : ControlFrame} {rx : Buf} {t : Bytes} (fuel : ℕ) (pong : Option Bytes) (free : Bool)
    (h : bufData rx = f.bytes ++ t) :
    ∃ rest, bufData rest = t ∧ sinkFrames (fuel + 1) pong free rx =
      if f.frame.Bad then ⟨rx, pong, some 1002⟩
      else if f.frame.op.1 = opPing then
        if free then sinkFrames fuel (some f.frame.payload) false rest else sinkFrames fuel pong free rest
      else if f.frame.op.1 = opClose then ⟨rest, pong, some 1000⟩
      else sinkFrames fuel pong free rest := by
  obtain ⟨hl, raw, key, hlen, hhead, hraw, hpay⟩ := f.read
  have hfull : ¬ bufLen rx < hl + f.frame.payload.length := by
    rw [← length_bufData, h, List.length_append, hlen]
    omega
  refine ⟨bufConsume rx (hl + f.frame.payload.length), ?_, ?_⟩
  · rw [bufConsume_data, h, ← hlen, List.drop_left]
  · rw [sinkFrames, h, hhead]
    by_cases hbad : f.frame.Bad
    · rw [if_pos hbad, if_pos hbad]
    rw [if_neg hbad, if_neg hbad]
    dsimp only
    rw [if_neg hfull, hraw, hpay]

/-- the frame gives its code, or the loop goes on behind it -/
theorem sinkFrames_next {f : ControlFrame} {rx : Buf} {t : Bytes} (fuel : ℕ) (pong : Option Bytes) (free : Bool)
    (h : bufData rx = f.bytes ++ t) :
    (∃ code, (sinkFrames (fuel + 1) pong free rx).verdict = some code ∧ f.sinkCode = some code ∧
        (sinkFrames (fuel + 1) pong free rx).pong = pong) ∨
      ∃ pong' free' rest, sinkFrames (fuel + 1) pong free rx = sinkFrames fuel pong' free' rest ∧
        bufData rest = t ∧ f.sinkCode = none ∧ (pong' = pong ∨ ∃ p, pong' = some p ∧ p.length ≤ 125) := by
  obtain ⟨rest, hrest, hstep⟩ := sinkFrames_whole fuel pong free h
  rw [hstep]
  unfold ControlFrame.sinkCode
  split_ifs with hbad hping hfree hclose hclose hclose
  · exact .inl ⟨1002, rfl, rfl, rfl⟩
  · exact absurd (hping.symm.trans hclose) (by decide)
  · exact .inr ⟨_, _, _, rfl, hrest, rfl, .inr ⟨_, rfl, ControlFrame.short hbad⟩⟩
  · exact absurd (hping.symm.trans hclose) (by decide)
  · exact .inr ⟨_, _, _, rfl, hrest, rfl, .inl rfl⟩
  · exact .inl ⟨1000, rfl, rfl, rfl⟩
  · exact .inr ⟨_, _, _, rfl, hrest, rfl, .inl rfl⟩

/-- the sink's loop over the beginning of a frame waits, unless the header is bad already -/
theorem sinkFrames_part {f : ControlFrame} {rx : Buf} {t : Bytes} (fuel : ℕ) (pong : Option Bytes) (free : Bool)
    (h : bufData rx ++ t = f.bytes) (hlt : (bufData rx).length < f.bytes.length) :
    (∃ code, (sinkFrames (fuel + 1) pong free rx).verdict = some code ∧ f.sinkCode = some code ∧
        (sinkFrames (fuel + 1) pong free rx).pong = pong) ∨
      sinkFrames (fuel + 1) pong free rx = ⟨rx, pong, none⟩ := by
  obtain ⟨hl, raw, key, hlen, hhead, -, -⟩ := f.read
  have hwhole := hhead []
  rw [List.append_nil, ← h] at hwhole
  unfold sinkFrames
  by_cases hmore : wsParseHeader (bufData rx) = .needMore
  · rw [hmore]
    exact .inr rfl
  · rw [wsParseHeader_append t hmore] at hwhole
    rw [hwhole]
    by_cases hbad : f.frame.Bad
    · rw [if_pos hbad]
      exact .inl ⟨1002, rfl, if_pos hbad, rfl⟩
    · rw [if_neg hbad]
      dsimp only
      rw [if_pos (by rw [← length_bufData]; omega)]
      exact .inr rfl

/-- how the loop over the first bytes of `fs` ends: `done` are behind it, and the next frame is not there yet, or a
frame gave its code -/
inductive Scanned (fs : List ControlFrame) (p : Bytes) (r : SinkScan) : Prop where
  | waiting (done todo : List ControlFrame) : fs = done ++ todo → (∀ f ∈ done, f.sinkCode = none) →
      p = controlBytes done ++ bufData r.rx →
      (∀ f rest, todo = f :: rest → (bufData r.rx).length < f.bytes.length) → r.verdict = none → Scanned fs p r
  | closing (code : ℕ) : r.verdict = some code → fs.findSome? ControlFrame.sinkCode = some code → Scanned fs p r

/-- **The sink's loop stops at the first frame that gives it a code**, or behind the last whole frame. -/
theorem sinkFrames_scanned (fs : List ControlFrame) (fuel : ℕ) (pong : Option Bytes) (free : Bool) (rx : Buf) (t : Bytes)
    (h : bufData rx ++ t = controlBytes fs) (hfuel : bufLen rx < fuel)
    (hpong : ∀ p, pong = some p → p.length ≤ 125) :
    Scanned fs (bufData rx) (sinkFrames fuel pong free rx) ∧
      ∀ p, (sinkFrames fuel pong free rx).pong = some p → p.length ≤ 125 := by
  induction fs generalizing fuel pong free rx with
  | nil =>
    have hnil : bufData rx = [] := (List.append_eq_nil_iff.1 h).1
    obtain ⟨fuel, rfl⟩ : ∃ n, fuel = n + 1 := ⟨fuel - 1, by omega⟩
    have hw : sinkFrames (fuel + 1) pong free rx = ⟨rx, pong, none⟩ := by
      unfold sinkFrames
      rw [hnil]
      rfl
    rw [hw]
    refine ⟨.waiting [] [] rfl (fun _ hf => absurd hf List.not_mem_nil) rfl ?_ rfl, hpong⟩
    rintro f rest ⟨⟩
  | cons f fs ih =>
    obtain ⟨fuel, rfl⟩ : ∃ n, fuel = n + 1 := ⟨fuel - 1, by omega⟩
    rw [controlBytes_cons] at h
    rw [← length_bufData] at hfuel
    by_cases hlt : (bufData rx).length < f.bytes.length
    · obtain ⟨u, hu⟩ := List.prefix_of_prefix_length_le (List.prefix_append (bufData rx) t)
        (h ▸ List.prefix_append f.bytes (controlBytes fs)) hlt.le
      rcases sinkFrames_part fuel pong free hu hlt with ⟨code, hv, hcode, hp⟩ | hw
      · refine ⟨.closing code hv ?_, by rw [hp]; exact hpong⟩
        rw [List.findSome?_cons, hcode]
      · rw [hw]
        refine ⟨.waiting [] (f :: fs) rfl (fun _ hg => absurd hg List.not_mem_nil) rfl ?_ rfl, hpong⟩
        rintro g rest hg
        obtain ⟨rfl, -⟩ := List.cons.inj hg
        exact hlt
    · obtain ⟨u, hu⟩ := List.prefix_of_prefix_length_le (h ▸ List.prefix_append f.bytes (controlBytes fs))
        (List.prefix_append (bufData rx) t) (not_lt.1 hlt)
      rcases sinkFrames_next fuel pong free hu.symm with ⟨code, hv, hcode, hp⟩ | ⟨pong', free', rest, he, hrest, hcode, hp⟩
      · refine ⟨.closing code hv ?_, by rw [hp]; exact hpong⟩
        rw [List.findSome?_cons, hcode]
      · have hpos := f.pos
        rw [← hu, List.append_assoc, List.append_cancel_left_eq, ← hrest] at h
        rw [← hu, List.length_append, ← hrest, length_bufData] at hfuel
        obtain ⟨hscan, hshort⟩ := ih fuel pong' free' rest h (by omega) (by
          intro p hpp
          rcases hp with rfl | ⟨q, rfl, hq⟩
          · exact hpong p hpp
          · exact Option.some.inj hpp ▸ hq)
        rw [he]
        refine ⟨?_, hshort⟩
        cases hscan with
        | waiting done todo h1 h2 h3 h4 h5 =>
          refine .waiting (f :: done) todo (by rw [h1]; rfl) ?_ ?_ h4 h5
          · intro g hg
            rcases List.mem_cons.1 hg with rfl | hg
            · exact hcode
            · exact h2 g hg
          · rw [← hu, ← hrest, h3, controlBytes_cons, List.append_assoc]
        | closing code h1 h2 =>
          exact .closing code h1 (by rw [List.findSome?_cons, hcode]; exact h2)

/-- whole frames, and behind them a malformed header or a whole CLOSE -/
inductive StopsIn : Bytes → Prop where
  | malformed {bs : Bytes} : wsParseHeader bs = .errProto → StopsIn bs
  | close {bs : Bytes} {h : WsFrameHdr} : wsParseHeader bs = .ok h → h.headerLen + h.payloadLen ≤ bs.length →
      h.opcode = opClose → StopsIn bs
  | behind {bs : Bytes} {h : WsFrameHdr} : wsParseHeader bs = .ok h → h.headerLen + h.payloadLen ≤ bs.length →
      h.opcode ≠ opClose → StopsIn (bs.drop (h.headerLen + h.payloadLen)) → StopsIn bs

theorem not_stopsIn_of_needMore {bs : Bytes} (h : wsParseHeader bs = .needMore) : ¬ StopsIn bs := by
  intro hs
  cases hs with
  | malformed h' => rw [h] at h'; cases h'
  | close h' => rw [h] at h'; cases h'
  | behind h' => rw [h] at h'; cases h'

/-- the frame in front decides, or what is behind it does -/
theorem stopsIn_iff {bs : Bytes} {h : WsFrameHdr} (hp : wsParseHeader bs = .ok h) : StopsIn bs ↔
    h.headerLen + h.payloadLen ≤ bs.length ∧ (h.opcode = opClose ∨ StopsIn (bs.drop (h.headerLen + h.payloadLen))) := by
  constructor
  · intro hs
    cases hs with
    | malformed h' => rw [hp] at h'; cases h'
    | close h' hlen hop =>
      obtain rfl := WsRc.ok.inj (hp.symm.trans h')
      exact ⟨hlen, .inl hop⟩
    | behind h' hlen _ hrest =>
      obtain rfl := WsRc.ok.inj (hp.symm.trans h')
      exact ⟨hlen, .inr hrest⟩
  · rintro ⟨hlen, hop | hrest⟩
    · exact .close hp hlen hop
    · by_cases hop : h.opcode = opClose
      · exact .close hp hlen hop
      · exact .behind hp hlen hop hrest

/-- the sink's loop gives a code when its bytes stop it, and only then -/
theorem sinkFrames_stops (fuel : ℕ) (pong : Option Bytes) (free : Bool) (rx : Buf) (hfuel : bufLen rx < fuel) :
    (sinkFrames fuel pong free rx).verdict.isSome = true ↔ StopsIn (bufData rx) := by
  induction fuel generalizing pong free rx with
  | zero => exact absurd hfuel (Nat.not_lt_zero _)
  | succ fuel ih =>
    unfold sinkFrames
    cases hp : wsParseHeader (bufData rx) with
    | needMore => exact ⟨fun h => absurd h Bool.false_ne_true, fun h => absurd h (not_stopsIn_of_needMore hp)⟩
    | errProto => exact ⟨fun _ => .malformed hp, fun _ => rfl⟩
    | ok h =>
      dsimp only
      rw [stopsIn_iff hp, length_bufData]
      by_cases hpart : bufLen rx < h.headerLen + h.payloadLen
      · rw [if_pos hpart]
        exact ⟨fun h => absurd h Bool.false_ne_true, fun h => absurd hpart (not_lt.2 h.1)⟩
      rw [if_neg hpart]
      have hrest : bufData (bufConsume rx (h.headerLen + h.payloadLen)) = (bufData rx).drop (h.headerLen + h.payloadLen) :=
        bufConsume_data rx _
      have hshort : bufLen (bufConsume rx (h.headerLen + h.payloadLen)) < fuel := by
        have hpos := (wsParseHeader_good hp).two_le
        rw [← length_bufData, hrest, List.length_drop, length_bufData]
        omega
      have hon : ∀ (pong' : Option Bytes) (free' : Bool), h.opcode ≠ opClose →
          ((sinkFrames fuel pong' free' (bufConsume rx (h.headerLen + h.payloadLen))).verdict.isSome = true ↔
            h.headerLen + h.payloadLen ≤ bufLen rx ∧
              (h.opcode = opClose ∨ StopsIn ((bufData rx).drop (h.headerLen + h.payloadLen)))) := by
        intro pong' free' hop
        rw [ih pong' free' _ hshort, hrest]
        exact ⟨fun hs => ⟨not_lt.1 hpart, .inr hs⟩, fun hs => hs.2.resolve_left hop⟩
      by_cases hping : h.opcode = opPing
      · have hop : h.opcode ≠ opClose := by rw [hping]; decide
        rw [if_pos hping]
        cases free with
        | true => exact hon _ _ hop
        | false => exact hon _ _ hop
      rw [if_neg hping]
      by_cases hclose : h.opcode = opClose
      · rw [if_pos hclose]
        exact ⟨fun _ => ⟨not_lt.1 hpart, .inl hclose⟩, fun _ => rfl⟩
      · rw [if_neg hclose]
        exact hon _ _ hclose

/-! ### Its reads -/

/-- the bytes of the event arrive at connection `k` -/
def AggSys.arrive (s : AggSys) (k : ℕ) (e : ReadEvent) : AggSys :=
  { s with
    conn := Function.update s.conn k { s.conn k with sock := ⟨(s.conn k).sock.inq ++ e.bytes, e.fin⟩ } }

/-- the results of the system calls in it -/
def sinkEnv (e : ReadEvent) : AggEnv := ⟨e.wake.sends, e.wake.sizes, .interrupted⟩

/-- one read event of the sink, as the aggregator handles it -/
def sinkEvent (k : ℕ) (s : AggSys) (e : ReadEvent) : AggSys :=
  handleEvent (s.arrive k e) (sinkEnv e) (.conn k false true)

/-- the frames made behind the first `n`, opcode and payload -/
def AggSys.answers (s : AggSys) (n : ℕ) : List (ℕ × Bytes) :=
  (s.made.drop n).flatMap fun f => decodeFrames (f.body.length + 1) f.body

/-- the unread bytes, those of the event and one more chunk fit the sink's read buffer -/
def SinkFits (k : ℕ) (s : AggSys) (e : ReadEvent) : Prop :=
  bufLen (s.conn k).rx + ((s.conn k).sock.inq.length + e.bytes.length) + 4096 ≤
    max (s.conn k).rx.cap (DEFAULT_MAX_FRAME + 64)

/-- connection `k` as the frame loop finds it in an event -/
def sinkStart (k : ℕ) (s : AggSys) (e : ReadEvent) : Conn × Bool := sinkRecv e.wake.sizes ((s.arrive k e).conn k)

/-- the event fits, or the bytes that `bufRecv` still takes stop the loop -/
def SinkServed (k : ℕ) (s : AggSys) (e : ReadEvent) : Prop :=
  SinkFits k s e ∨ StopsIn (bufData (sinkStart k s e).1.rx)

/-- connection `k` is the sink, and nothing was read from it yet -/
structure FreshSink (k : ℕ) (s : AggSys) : Prop where
  sink : s.agg.sink = some k
  rx : bufData (s.conn k).rx = []
  inq : (s.conn k).sock.inq = []

/-- where the sink is behind some reads: `got` are the bytes received, `n` the frames made before -/
inductive SinkAt (k n : ℕ) (fs : List ControlFrame) (got : Bytes) (s : AggSys) : Prop where
  | waiting (done todo : List ControlFrame) : fs = done ++ todo → (∀ f ∈ done, f.sinkCode = none) →
      got = controlBytes done ++ bufData (s.conn k).rx →
      (∀ f rest, todo = f :: rest → (bufData (s.conn k).rx).length < f.bytes.length) →
      (s.conn k).sock.inq = [] → closesOf (s.answers n) = [] → n ≤ s.made.length → SinkAt k n fs got s
  | closed (code : ℕ) : s.agg.sink = none → fs.findSome? ControlFrame.sinkCode = some code →
      closesOf (s.answers n) = closeWith (some code) → SinkAt k n fs got s

/-- one more frame is one more answer -/
theorem answers_made {s t : AggSys} {n op : ℕ} {payload : Bytes} (hok : SendOk (op, payload)) (hn : n ≤ s.made.length)
    (h : t.made = s.made ++ [s.newFrame op payload]) : t.answers n = s.answers n ++ [(op, payload)] := by
  have hdec : decodeFrames ((frameNew op payload).length + 1) (frameNew op payload) = [(op, payload)] := by
    have henc : encodeAnswers [(op, payload)] = frameNew op payload := by simp [encodeAnswers]
    have hall : ∀ f ∈ [(op, payload)], SendOk f := by
      intro f hf
      rw [List.mem_singleton.1 hf]
      exact hok
    have hlen := length_lt_encodeAnswers [(op, payload)]
    have h := decodeFrames_frameNew [(op, payload)] hall ((encodeAnswers [(op, payload)]).length + 1) hlen
    rw [← henc]
    exact h
  unfold AggSys.answers
  rw [h, List.drop_append_of_le_length hn, List.flatMap_append, List.flatMap_singleton]
  exact congrArg ((s.made.drop n).flatMap _ ++ ·) hdec

/-- what the frame loop finds there -/
def sinkFinds (k : ℕ) (s : AggSys) (e : ReadEvent) : SinkScan := sinkScan (s.arrive k e) e.wake.sizes k

/-- the connection behind the frame loop -/
def sinkEnd (s : AggSys) (sizes : List ℕ) (k : ℕ) : Conn :=
  { (sinkRecv sizes (s.conn k)).1 with rx := (sinkScan s sizes k).rx }

theorem sinkTaken_closes {s : AggSys} {env : AggEnv} {k n : ℕ}
    (hp : ∀ p, (sinkScan s env.sizes k).pong = some p → p.length ≤ 125) (hn : n ≤ s.made.length) :
    closesOf ((sinkTaken s env k).answers n) = closesOf (s.answers n) ∧ n ≤ (sinkTaken s env k).made.length ∧
      (sinkTaken s env k).conn k = sinkEnd s env.sizes k ∧ (sinkTaken s env k).agg.sink = s.agg.sink := by
  unfold sinkTaken
  dsimp only
  cases hpong : (sinkScan s env.sizes k).pong with
  | none => exact ⟨rfl, hn, Function.update_self .., rfl⟩
  | some payload =>
    refine ⟨?_, ?_, Function.update_self .., rfl⟩
    · rw [@answers_made s _ n _ _ (sendOk_pong (hp payload hpong)) hn rfl, closesOf_append]
      exact List.append_nil _
    · exact hn.trans (by simp [AggSys.queuePong])

/-- what one event leaves of the sink -/
structure SinkAfter (k n : ℕ) (s : AggSys) (e : ReadEvent) (t : AggSys) : Prop where
  closes : closesOf (t.answers n) = closesOf (s.answers n) ++ closeWith (sinkFinds k s e).verdict
  made : n ≤ t.made.length
  rx : (t.conn k).rx = (sinkFinds k s e).rx
  sock : (t.conn k).sock = (sinkStart k s e).1.sock
  gone : (sinkFinds k s e).verdict.isSome = true → t.agg.sink = none
  stays : (sinkFinds k s e).verdict = none → (sinkStart k s e).2 = false → t.agg.sink = some k
  drops : (sinkFinds k s e).verdict = none → (sinkStart k s e).2 = true → t.agg.sink = none

theorem closeSink_conn {s : AggSys} {k : ℕ} (hs : s.agg.sink = some k) :
    (closeSink s).conn k = connClose (s.conn k) ∧ (closeSink s).agg.sink = none ∧ (closeSink s).made = s.made := by
  unfold closeSink
  rw [hs]
  exact ⟨Function.update_self .., rfl, rfl⟩

theorem sinkEvent_after {k n : ℕ} {s : AggSys} {e : ReadEvent} (hs : s.agg.sink = some k)
    (hp : ∀ p, (sinkFinds k s e).pong = some p → p.length ≤ 125) (hn : n ≤ s.made.length) :
    SinkAfter k n s e (sinkEvent k s e) := by
  obtain ⟨hcloses, hmade, hconn, hsink⟩ := @sinkTaken_closes (s.arrive k e) (sinkEnv e) k n hp hn
  have hrx : (sinkEnd (s.arrive k e) (sinkEnv e).sizes k).rx = (sinkFinds k s e).rx := rfl
  have hsock : (sinkEnd (s.arrive k e) (sinkEnv e).sizes k).sock = (sinkStart k s e).1.sock := rfl
  have harrive : (s.arrive k e).agg.sink = some k := hs
  unfold sinkEvent handleEvent
  dsimp only
  rw [if_neg (not_not.2 harrive), if_neg nofun, if_pos rfl, sinkReadAndHandle_eq]
  generalize sinkTaken (s.arrive k e) (sinkEnv e) k = t at hcloses hmade hconn hsink
  rw [harrive] at hsink
  cases hv : (sinkFinds k s e).verdict with
  | some code =>
    have hv' : (sinkScan (s.arrive k e) (sinkEnv e).sizes k).verdict = some code := hv
    rw [hv']
    dsimp only
    rw [if_neg (by simp)]
    have hsink' : (sendCloseBestEffort t (sinkEnv e).sends code).agg.sink = some k := hsink
    obtain ⟨hc, hnone, hm⟩ := closeSink_conn hsink'
    have hsome : (sinkFinds k s e).verdict ≠ none := by rw [hv]; exact Option.some_ne_none code
    refine ⟨?_, ?_, ?_, ?_, fun _ => hnone, fun hno => absurd hno hsome, fun hno => absurd hno hsome⟩
    · unfold AggSys.answers
      rw [hm, hv]
      show closesOf ((sendCloseBestEffort t (sinkEnv e).sends code).answers n) = _
      rw [@answers_made t _ n _ _ (sendOk_close code) hmade rfl, closesOf_append, hcloses]
      rfl
    · rw [hm]
      exact hmade.trans (by simp [sendCloseBestEffort, AggSys.write])
    · rw [hc]
      show (t.conn k).rx = _
      rw [hconn, hrx]
    · rw [hc]
      show (t.conn k).sock = _
      rw [hconn, hsock]
  | none =>
    have hv' : (sinkScan (s.arrive k e) (sinkEnv e).sizes k).verdict = none := hv
    have hclose : closesOf (s.answers n) = closesOf (s.answers n) ++ closeWith none := by simp [closeWith]
    rw [hv']
    dsimp only
    obtain ⟨hc, hnone, hm⟩ := closeSink_conn hsink
    have hrecv : (sinkStart k s e).2 = (sinkRecv (sinkEnv e).sizes ((s.arrive k e).conn k)).2 := rfl
    split_ifs with hflag
    · refine ⟨?_, hmade, ?_, ?_, fun hno => ?_, fun _ _ => hsink, fun _ hf => ?_⟩
      · rw [hcloses, hv]
        exact hclose
      · rw [hconn, hrx]
      · rw [hconn, hsock]
      · rw [hv] at hno; cases hno
      · rw [← hrecv, hf] at hflag
        exact absurd hflag (by decide)
    · refine ⟨?_, ?_, ?_, ?_, fun _ => hnone, fun _ hf => ?_, fun _ _ => hnone⟩
      · unfold AggSys.answers
        rw [hm, hv]
        exact hcloses.trans hclose
      · rw [hm]; exact hmade
      · rw [hc]
        show (t.conn k).rx = _
        rw [hconn, hrx]
      · rw [hc]
        show (t.conn k).sock = _
        rw [hconn, hsock]
      · rw [← hrecv, hf] at hflag
        exact absurd (by decide) hflag

/-- what arrived goes to rx from its front, all of it within the limit; beyond it the flag is set -/
theorem sinkStart_spec {k : ℕ} {s : AggSys} {e : ReadEvent} (hinq : (s.conn k).sock.inq = []) (hopen : e.fin = .open) :
    bufData (sinkStart k s e).1.rx ++ (sinkStart k s e).1.sock.inq = bufData (s.conn k).rx ++ e.bytes ∧
      (SinkFits k s e → (sinkStart k s e).1.sock.inq = [] ∧ (sinkStart k s e).2 = false) ∧
      (¬ SinkFits k s e → (sinkStart k s e).2 = true) := by
  have hconn : (s.arrive k e).conn k = { s.conn k with sock := ⟨(s.conn k).sock.inq ++ e.bytes, e.fin⟩ } :=
    Function.update_self ..
  unfold sinkStart
  rw [hconn, hinq, List.nil_append]
  obtain ⟨hdata, -, hlim, hall⟩ := bufRecv_spec (show 0 < 4096 by norm_num) (show DEFAULT_MAX_FRAME + 64 ≠ 0 by decide)
    e.wake.sizes ⟨e.bytes, e.fin⟩ (s.conn k).rx
  have hover : (bufRecv e.wake.sizes ⟨e.bytes, e.fin⟩ (s.conn k).rx 4096 (DEFAULT_MAX_FRAME + 64)).1 = -2 ↔
      ¬ SinkFits k s e := by
    rw [hlim]
    unfold SinkFits
    rw [hinq, List.length_nil, Nat.zero_add]
    exact not_le.symm
  unfold sinkRecv
  dsimp only
  refine ⟨hdata, fun hfit => ?_, fun hfit => ?_⟩
  · obtain ⟨hnil, hrc⟩ := hall fun h => hover.1 h hfit
    refine ⟨hnil, ?_⟩
    rw [hrc, if_pos hopen]
    split_ifs <;> decide
  · rw [hover.2 hfit]
    decide

/-- an event behind the close changes nothing -/
theorem sinkEvent_gone {k n : ℕ} {s : AggSys} {e : ReadEvent} (hs : s.agg.sink = none) :
    (sinkEvent k s e).agg.sink = none ∧ (sinkEvent k s e).answers n = s.answers n := by
  have harrive : (s.arrive k e).agg.sink = none := hs
  unfold sinkEvent handleEvent
  dsimp only
  rw [if_pos (by rw [harrive]; nofun)]
  exact ⟨hs, rfl⟩

theorem findSome?_behind {done todo : List ControlFrame} (h : ∀ f ∈ done, f.sinkCode = none) :
    (done ++ todo).findSome? ControlFrame.sinkCode = todo.findSome? ControlFrame.sinkCode := by
  rw [List.findSome?_append, List.findSome?_eq_none_iff.2 h, Option.none_or]

/-- the sink is there, or was closed with a CLOSE -/
def SinkHeld (k n : ℕ) (s : AggSys) : Prop :=
  s.agg.sink = some k ∨ s.agg.sink = none ∧ closesOf (s.answers n) ≠ []

/-- what the loop makes of an event that finds the sink waiting -/
theorem SinkAt.scanned {k n : ℕ} {todo : List ControlFrame} {t : Bytes} {s : AggSys} {e : ReadEvent}
    (hsink : s.agg.sink = some k) (hinq : (s.conn k).sock.inq = []) (hn : n ≤ s.made.length) (hopen : e.fin = .open)
    (hbs : bufData (s.conn k).rx ++ e.bytes ++ t = controlBytes todo) :
    Scanned todo (bufData (sinkStart k s e).1.rx) (sinkFinds k s e) ∧ SinkAfter k n s e (sinkEvent k s e) ∧
      ((sinkFinds k s e).verdict.isSome = true ↔ StopsIn (bufData (sinkStart k s e).1.rx)) := by
  obtain ⟨hdata, -⟩ := sinkStart_spec hinq hopen
  rw [← hdata, List.append_assoc] at hbs
  obtain ⟨hscan, hpong⟩ := sinkFrames_scanned todo (bufLen (sinkStart k s e).1.rx + 1) none s.agg.pendingCtrl.isNone
    (sinkStart k s e).1.rx _ hbs (Nat.lt_succ_self _) nofun
  have hstops := sinkFrames_stops (bufLen (sinkStart k s e).1.rx + 1) none s.agg.pendingCtrl.isNone
    (sinkStart k s e).1.rx (Nat.lt_succ_self _)
  exact ⟨hscan, sinkEvent_after hsink hpong hn, hstops⟩

/-- **One event** that is served takes the sink to where it is behind the bytes so far. -/
theorem SinkAt.event {k n : ℕ} {fs : List ControlFrame} {got t : Bytes} {s : AggSys} {e : ReadEvent}
    (h : SinkAt k n fs got s) (hheld : SinkHeld k n s) (hserved : s.agg.sink = some k → SinkServed k s e)
    (hopen : e.fin = .open) (hbs : got ++ e.bytes ++ t = controlBytes fs) :
    SinkAt k n fs (got ++ e.bytes) (sinkEvent k s e) ∧ SinkHeld k n (sinkEvent k s e) := by
  have hne : ∀ code, closeWith (some code) ≠ [] := fun code => by simp [closeWith]
  cases h with
  | closed code hsink hcode hcl =>
    obtain ⟨h1, h2⟩ := @sinkEvent_gone k n s e hsink
    refine ⟨.closed code h1 hcode (by rw [h2]; exact hcl), .inr ⟨h1, ?_⟩⟩
    rw [h2, hcl]
    exact hne code
  | waiting done todo hfs hdone hgot _ hinq hcl hn =>
    have hsink : s.agg.sink = some k := hheld.resolve_right fun hnone => hnone.2 hcl
    rw [hgot, hfs, controlBytes_append, List.append_assoc, List.append_assoc, List.append_cancel_left_eq,
      ← List.append_assoc] at hbs
    obtain ⟨hscan, hafter, hstops⟩ := SinkAt.scanned hsink hinq hn hopen hbs
    obtain ⟨hdata, hfits, -⟩ := sinkStart_spec (e := e) hinq hopen
    cases hscan with
    | waiting done' todo' h1 h2 h3 h4 h5 =>
      -- no stop was found, so the event fits
      have hno : ¬ StopsIn (bufData (sinkStart k s e).1.rx) := fun hs => by
        rw [← hstops, h5] at hs
        exact absurd hs Bool.false_ne_true
      obtain ⟨hinq', hflag⟩ := hfits ((hserved hsink).resolve_right hno)
      rw [hinq', List.append_nil] at hdata
      have hcl' : closesOf ((sinkEvent k s e).answers n) = [] := by
        rw [hafter.closes, hcl, h5]
        rfl
      refine ⟨.waiting (done ++ done') todo' (by rw [hfs, h1, List.append_assoc]) ?_ ?_ ?_ ?_ hcl' hafter.made,
        .inl (hafter.stays h5 hflag)⟩
      · intro f hf
        rcases List.mem_append.1 hf with hf | hf
        · exact hdone f hf
        · exact h2 f hf
      · rw [hafter.rx, hgot, controlBytes_append, List.append_assoc, List.append_assoc, ← h3, hdata]
      · rw [hafter.rx]
        exact h4
      · rw [hafter.sock]
        exact hinq'
    | closing code h1 h2 =>
      have hclose : closesOf ((sinkEvent k s e).answers n) = closeWith (some code) := by
        rw [hafter.closes, hcl, h1]
        rfl
      have hnone := hafter.gone (by rw [h1]; rfl)
      refine ⟨.closed code hnone ?_ hclose, .inr ⟨hnone, hclose ▸ hne code⟩⟩
      rw [hfs, findSome?_behind hdone]
      exact h2

theorem FreshSink.at {k : ℕ} {s : AggSys} (hs : FreshSink k s) (fs : List ControlFrame) :
    SinkAt k s.made.length fs [] s ∧ SinkHeld k s.made.length s := by
  have hnil : s.answers s.made.length = [] := by simp [AggSys.answers]
  exact ⟨.waiting [] fs rfl nofun hs.rx.symm (fun f rest _ => by rw [hs.rx]; exact f.pos) hs.inq (by rw [hnil]; rfl) le_rfl,
    .inl hs.sink⟩

/-- connection 7 was adopted, and nothing happened since -/
def adopted : AggSys :=
  adoptSink (.start (fun c => freshConn c) ⟨[], false⟩ ⟨[], false⟩ []) [] 7

end WsServer
