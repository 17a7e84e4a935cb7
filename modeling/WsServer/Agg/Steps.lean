/-
Every step of the aggregator thread is a sequence of moves of a sender with two slots.

- `AggSys.sender`: the part of the state that decides what goes to the sink.
- `AtPc`: what holds of the slots where the thread stands.
- `aggStep_moves`: the inversion lemma. A step changes the sender by moves only, and `StepMove` says which moves it
  makes where, with what packet, and when the kernel takes no byte of it.
-/
import Mathlib
import WsServer.Agg.Agg

namespace WsServer

open Ws Packets

/-- the part of the state that decides what goes to the sink -/
def AggSys.sender (s : AggSys) : Sender UInt8 Msg :=
  ⟨s.agg.sink, s.agg.pending, s.agg.pendingOff, s.agg.pendingCtrl, s.agg.pendingCtrlOff, s.made, s.wire, s.past, s.cut,
    s.encoded, s.fates⟩

theorem frameNew_ne_nil (op : ℕ) (payload : Bytes) : frameNew op payload ≠ [] := by
  unfold frameNew wsEncodeHeader; simp

/-! ## The loop of `send` -/

/-- the first `send` takes nothing -/
def Quiet : List SendRes → Prop
  | .sent _ :: _ => False
  | _ => True

instance : DecidablePred Quiet
  | [] => .isTrue trivial
  | .sent _ :: _ => .isFalse id
  | .again :: _ => .isTrue trivial
  | .err :: _ => .isTrue trivial

theorem sendFrom_le (sends : List SendRes) {len off : ℕ} (h : len ≤ off) : sendFrom sends len off = (1, off, sends) := by
  cases sends <;> simp [sendFrom, h]

theorem sendFrom_nil {len off : ℕ} (h : off < len) : sendFrom [] len off = (0, off, []) := by
  simp [sendFrom, not_le.2 h]

theorem sendFrom_cons (r : SendRes) (rs : List SendRes) {len off : ℕ} (h : off < len) :
    sendFrom (r :: rs) len off = match r with
      | .again => (0, off, rs)
      | .err => (-1, off, rs)
      | .sent n => sendFrom rs len (off + min (max 1 n) (len - off)) := by
  cases r <;> simp [sendFrom, not_le.2 h]

theorem sendFrom_spec (sends : List SendRes) {len off : ℕ} (h : off ≤ len) :
    off ≤ (sendFrom sends len off).2.1 ∧ (sendFrom sends len off).2.1 ≤ len ∧
      ((sendFrom sends len off).1 = 1 ↔ (sendFrom sends len off).2.1 = len) := by
  rcases h.eq_or_lt with rfl | hlt
  · simp [sendFrom_le]
  induction sends generalizing off with
  | nil => rw [sendFrom_nil hlt]; simp; omega
  | cons r rs ih =>
    rw [sendFrom_cons r rs hlt]
    cases r with
    | sent n =>
      have hle : off + min (max 1 n) (len - off) ≤ len := by omega
      dsimp only
      rcases hle.eq_or_lt with heq | hlt'
      · rw [heq, sendFrom_le rs le_rfl]; simp; omega
      · obtain ⟨h1, h2⟩ := ih hle hlt'
        exact ⟨by omega, h2⟩
    | again => simp; omega
    | err => simp; omega

theorem sendFrom_rc (sends : List SendRes) (len off : ℕ) :
    (sendFrom sends len off).1 ≤ 0 ∨ (sendFrom sends len off).1 = 1 := by
  induction sends generalizing off with
  | nil => rcases le_or_gt len off with h | h <;> simp [sendFrom_le, sendFrom_nil, h]
  | cons r rs ih =>
    rcases le_or_gt len off with h | h
    · simp [sendFrom_le, h]
    · rw [sendFrom_cons r rs h]
      cases r with
      | sent n => exact ih _
      | again => simp
      | err => simp

theorem sendFrom_quiet {sends : List SendRes} (hq : Quiet sends) (len off : ℕ) :
    (sendFrom sends len off).2.1 = off := by
  rcases le_or_gt len off with hle | hlt
  · rw [sendFrom_le _ hle]
  cases sends with
  | nil => rw [sendFrom_nil hlt]
  | cons r rs =>
    rw [sendFrom_cons r rs hlt]
    cases r with
    | sent n => exact hq.elim
    | again => rfl
    | err => rfl

/-! ## Where the thread stands -/

/-- inside `aggPump`, behind the flush -/
def AggPc.pumped : AggPc → Bool
  | .mark | .unpark | .rpush _ | .rclear _ | .radd _ | .take => true
  | _ => false

/-- inside `aggDrainForShutdown` -/
def AggPc.draining : AggPc → Bool
  | .drainCtrl | .drainData => true
  | _ => false

/-- from the data loop of `aggDrainForShutdown` on -/
def AggPc.last : AggPc → Bool
  | .drainData | .final | .done => true
  | _ => false

structure AtPc (s : AggSys) : Prop where
  pumped : s.pc.pumped → s.agg.sink.isSome ∧ s.agg.pending = none ∧ s.agg.pendingCtrl = none
  draining : s.pc.draining → s.agg.pending = none ∧ s.agg.pendingCtrl = none
  cut : s.cut = true → s.pc.last

/-- the step starts a frame on the sink that is in no slot, or the one in the control slot -/
def startsFrame (s : AggSys) (e : AggEnv) : Prop :=
  match s.pc with
  | .pump => s.agg.sink.isSome ∧ s.agg.pendingCtrl.isSome ∧ s.agg.pendingCtrlOff = 0
  | .ctrl | .drainCtrl =>
    s.agg.sink.isSome ∧ (trypop s.ctrlQueue).any fun m => m.1.kind = .MSG_SINK_ADD ∧ m.1.conn.isSome
  | .drainData => s.agg.sink.isSome ∧ (trypop s.dataQueue).any fun m => m.1.kind = .MSG_DATA
  | .events (.conn c false true :: _) => s.agg.sink = some c ∧ (sinkScan s e.sizes c).verdict.isSome
  | .final => s.agg.sink.isSome
  | _ => False

instance (s : AggSys) (e : AggEnv) : Decidable (startsFrame s e) := by
  unfold startsFrame; split <;> infer_instance

/-- a frame the program makes -/
def IsFrame (body : Bytes) : Prop := ∃ op payload, body = frameNew op payload

/-- the frame of a message, under some sequence number -/
def IsFrameOf (m : Msg) (body : Bytes) : Prop := ∃ seq, body = frameNew (encodeMsg seq m).1 (encodeMsg seq m).2

/-- which moves step `e` from `s` makes -/
def StepMove (s : AggSys) (e : AggEnv) (u : Sender UInt8 Msg) : Move UInt8 Msg → Prop
  | .farewell body n => startsFrame s e ∧ (u.mid → s.sender.mid) ∧ (Quiet e.sends → n = 0) ∧ IsFrame body
  | .flushUrgent n => s.pc = .pump ∧ u = s.sender ∧ (Quiet e.sends → n = s.agg.pendingCtrlOff)
  | .reply body => IsFrame body
  | .load m body => s.pc = .take ∧ IsFrameOf m body
  | .drain m body n =>
    s.pc = .drainData ∧ startsFrame s e ∧ (u.mid → s.sender.mid) ∧ n = (sendFrom e.sends body.length 0).2.1 ∧
      IsFrameOf m body
  | _ => True

/-- what is in the frames of step `e` from `s` that carry no message -/
def Bodied (s : AggSys) (e : AggEnv) : Move UInt8 Msg → Prop
  | .farewell body _ => ∃ code, body = frameNew opClose (codeBytes code) ∧ (code = 1000 ∨ code = 1001 ∨ code = 1002)
  | .reply body => ∃ c evs payload, s.pc = .events (.conn c false true :: evs) ∧ s.agg.sink = some c ∧
      (sinkScan s e.sizes c).pong = some payload ∧ body = frameNew opPong payload
  | _ => True

def FrameMove (s : AggSys) (e : AggEnv) (u : Sender UInt8 Msg) (m : Move UInt8 Msg) : Prop :=
  StepMove s e u m ∧ Bodied s e m

/-! ## The parts of a step -/

/-- what an operation on the sink may do to a connection -/
structure SinkSide (a b : Conn) : Prop where
  id : b.id = a.id
  reg : b.reg = a.reg ∨ b.reg = .absent
  role : b.role = a.role ∨ b.role = .ROLE_SINK

theorem SinkSide.refl (a : Conn) : SinkSide a a := ⟨rfl, .inl rfl, .inl rfl⟩

theorem SinkSide.trans {a b c : Conn} (h : SinkSide a b) (h' : SinkSide b c) : SinkSide a c := by
  refine ⟨h'.id.trans h.id, ?_, ?_⟩
  · rcases h'.reg with h1 | h1
    · rw [h1]; exact h.reg
    · exact .inr h1
  · rcases h'.role with h1 | h1
    · rw [h1]; exact h.role
    · exact .inr h1

theorem SinkSide.update (f : ℕ → Conn) {k : ℕ} {v : Conn} (h : SinkSide (f k) v) (c : ℕ) :
    SinkSide (f c) (Function.update f k v c) := by
  by_cases hc : c = k
  · subst hc; rwa [Function.update_self]
  · rw [Function.update_of_ne hc]; exact .refl _

/-- what an operation on the sink leaves alone; `who` are the connections it may make the sink -/
structure SinkOnly (who : ℕ → Prop) (s t : AggSys) : Prop where
  pc : t.pc = s.pc
  dataQueue : t.dataQueue = s.dataQueue
  ctrlQueue : t.ctrlQueue = s.ctrlQueue
  park : t.park = s.park
  popped : t.popped = s.popped
  encoded : t.encoded = s.encoded
  discarded : t.discarded = s.discarded
  cut : t.cut = true → s.cut = true
  pending : s.agg.pending = none → t.agg.pending = none
  sink : t.agg.sink = s.agg.sink ∨ t.agg.sink = none ∨ ∃ c, who c ∧ t.agg.sink = some c
  conn : ∀ c, s.agg.sink ≠ some c → ¬ who c → t.conn c = s.conn c
  side : ∀ c, SinkSide (s.conn c) (t.conn c)

theorem SinkOnly.refl (who : ℕ → Prop) (s : AggSys) : SinkOnly who s s :=
  ⟨rfl, rfl, rfl, rfl, rfl, rfl, rfl, id, id, .inl rfl, fun _ _ _ => rfl, fun _ => .refl _⟩

theorem SinkOnly.trans {who : ℕ → Prop} {s t u : AggSys} (h : SinkOnly who s t) (h' : SinkOnly who t u) :
    SinkOnly who s u where
  pc := h'.pc.trans h.pc
  dataQueue := h'.dataQueue.trans h.dataQueue
  ctrlQueue := h'.ctrlQueue.trans h.ctrlQueue
  park := h'.park.trans h.park
  popped := h'.popped.trans h.popped
  encoded := h'.encoded.trans h.encoded
  discarded := h'.discarded.trans h.discarded
  cut hc := h.cut (h'.cut hc)
  pending hp := h'.pending (h.pending hp)
  sink := by
    rcases h'.sink with hs | hs
    · rw [hs]; exact h.sink
    · exact .inr hs
  conn c hc hw := by
    refine (h'.conn c (fun ht => ?_) hw).trans (h.conn c hc hw)
    rcases h.sink with hs | hs | ⟨d, hd, hs⟩
    · exact hc (hs ▸ ht)
    · rw [hs] at ht; cases ht
    · rw [hs] at ht; exact hw (Option.some.inj ht ▸ hd)
  side c := (h.side c).trans (h'.side c)

/-! ### The end of a sink -/

theorem closeSink_sender {s : AggSys} {k : ℕ} (h : s.agg.sink = some k) : (closeSink s).sender = s.sender.detach := by
  unfold closeSink; rw [h]; rfl

theorem closeSink_sink (s : AggSys) : (closeSink s).agg.sink = none := by
  unfold closeSink
  split
  · assumption
  · rfl

theorem closeSink_only (who : ℕ → Prop) (s : AggSys) : SinkOnly who s (closeSink s) := by
  unfold closeSink
  split
  · exact .refl who s
  · next k hk =>
    refine ⟨rfl, rfl, rfl, rfl, rfl, rfl, rfl, nofun, fun _ => rfl, .inr (.inl rfl), fun c hc _ => ?_, fun c => ?_⟩
    · exact Function.update_of_ne (by rintro rfl; exact hc hk) _ _
    · refine SinkSide.update s.conn ?_ c
      exact ⟨rfl, .inr rfl, .inl rfl⟩

theorem closeSink_pendingCtrl {s : AggSys} (h : s.agg.pendingCtrl = none) : (closeSink s).agg.pendingCtrl = none := by
  unfold closeSink
  split
  · exact h
  · rfl

theorem sendCloseBestEffort_only (who : ℕ → Prop) (s : AggSys) (sends : List SendRes) (code : ℕ) :
    SinkOnly who s (sendCloseBestEffort s sends code) :=
  ⟨rfl, rfl, rfl, rfl, rfl, rfl, rfl, id, id, .inl rfl, fun _ _ _ => rfl, fun _ => .refl _⟩

/-- how far the best-effort CLOSE gets -/
theorem closeFrame_le (sends : List SendRes) (code : ℕ) :
    (sendFrom sends (frameNew opClose (codeBytes code)).length 0).2.1 ≤ (frameNew opClose (codeBytes code)).length :=
  (sendFrom_spec sends (Nat.zero_le _)).2.1

variable {Q : Sender UInt8 Msg → Move UInt8 Msg → Prop}

/-- a CLOSE and the end of the sink -/
theorem farewell_moves {s : AggSys} (sends : List SendRes) (code : ℕ) {k : ℕ} (hk : s.agg.sink = some k)
    (hq : ∀ n, (Quiet sends → n = 0) → Q s.sender (.farewell (frameNew opClose (codeBytes code)) n)) :
    Moves Q s.sender (closeSink (sendCloseBestEffort s sends code)).sender := by
  have hsink : (sendCloseBestEffort s sends code).agg.sink = some k := hk
  rw [closeSink_sender hsink]
  refine Moves.one (.farewell (frameNew opClose (codeBytes code)) _) ⟨?_, frameNew_ne_nil _ _, closeFrame_le sends code⟩
    (hq _ fun hquiet => sendFrom_quiet hquiet _ _)
  exact Option.isSome_iff_exists.2 ⟨k, hk⟩

/-! ### Control messages -/

/-- the sink before it is replaced -/
def freeSink (s : AggSys) (sends : List SendRes) : AggSys :=
  if s.agg.sink.isSome then closeSink (sendCloseBestEffort s sends 1001) else s

theorem adoptSink_eq (s : AggSys) (sends : List SendRes) (c : ℕ) :
    adoptSink s sends c = { freeSink s sends with
      conn := Function.update (freeSink s sends).conn c { (freeSink s sends).conn c with role := .ROLE_SINK }
      agg := { (freeSink s sends).agg with sink := some c } } := rfl

theorem freeSink_only (who : ℕ → Prop) (s : AggSys) (sends : List SendRes) : SinkOnly who s (freeSink s sends) := by
  unfold freeSink
  split_ifs
  · exact (sendCloseBestEffort_only who s sends 1001).trans (closeSink_only who _)
  · exact .refl who s

theorem freeSink_sink (s : AggSys) (sends : List SendRes) : (freeSink s sends).agg.sink = none := by
  unfold freeSink
  split_ifs with h
  · exact closeSink_sink _
  · simpa using h

theorem freeSink_moves {s : AggSys} (sends : List SendRes)
    (hq : s.agg.sink.isSome → ∀ n, (Quiet sends → n = 0) →
      Q s.sender (.farewell (frameNew opClose (codeBytes 1001)) n)) :
    Moves Q s.sender (freeSink s sends).sender := by
  unfold freeSink
  split_ifs with hs
  · obtain ⟨k, hk⟩ := Option.isSome_iff_exists.1 hs
    exact farewell_moves sends 1001 hk (hq hs)
  · exact .nil _

theorem adoptSink_moves {s : AggSys} (sends : List SendRes) (c : ℕ)
    (hq : s.agg.sink.isSome → ∀ n, (Quiet sends → n = 0) →
      Q s.sender (.farewell (frameNew opClose (codeBytes 1001)) n))
    (ha : ∀ u, Q u (.attach c)) : Moves Q s.sender (adoptSink s sends c).sender :=
  (freeSink_moves sends hq).trans (Moves.one (.attach c) (freeSink_sink s sends) (ha _))

/-- the connection a control message makes the sink -/
def Msg.adds (m : Msg) (c : ℕ) : Prop := m.kind = .MSG_SINK_ADD ∧ m.conn = some c

theorem handleCtrl_only (s : AggSys) (sends : List SendRes) (m : Msg) : SinkOnly m.adds s (handleCtrl s sends m) := by
  unfold handleCtrl
  split
  · next c hk hc =>
    have h := freeSink_only m.adds s sends
    rw [adoptSink_eq]
    refine ⟨h.pc, h.dataQueue, h.ctrlQueue, h.park, h.popped, h.encoded, h.discarded, h.cut, h.pending,
      .inr (.inr ⟨c, ⟨hk, hc⟩, rfl⟩), fun x hx hxc => ?_, fun x => ?_⟩
    · exact (Function.update_of_ne (by rintro rfl; exact hxc ⟨hk, hc⟩) _ _).trans (h.conn x hx hxc)
    · refine (h.side x).trans (SinkSide.update _ ?_ x)
      exact ⟨rfl, .inl rfl, .inr rfl⟩
  · exact ⟨rfl, rfl, rfl, rfl, rfl, rfl, rfl, id, id, .inl rfl, fun _ _ _ => rfl, fun _ => .refl _⟩
  · exact .refl _ s

theorem handleCtrl_moves {s : AggSys} (sends : List SendRes) (m : Msg)
    (hq : s.agg.sink.isSome → m.kind = .MSG_SINK_ADD → m.conn.isSome → ∀ n, (Quiet sends → n = 0) →
      Q s.sender (.farewell (frameNew opClose (codeBytes 1001)) n))
    (ha : ∀ u c, Q u (.attach c)) : Moves Q s.sender (handleCtrl s sends m).sender := by
  unfold handleCtrl
  split
  · next c hk hc => exact adoptSink_moves sends c (fun hs => hq hs hk (by rw [hc]; rfl)) (ha · c)
  · exact .nil _
  · exact .nil _

/-- a free control slot stays free -/
theorem handleCtrl_pendingCtrl (s : AggSys) (sends : List SendRes) (m : Msg) (h : s.agg.pendingCtrl = none) :
    (handleCtrl s sends m).agg.pendingCtrl = none := by
  have hfree : (freeSink s sends).agg.pendingCtrl = none := by
    unfold freeSink
    split_ifs
    · exact closeSink_pendingCtrl h
    · exact h
  unfold handleCtrl
  split
  · rw [adoptSink_eq]; exact hfree
  · exact h
  · exact h

/-! ### The flush -/

theorem sinkFlushCtrl_moves {s : AggSys} (sends : List SendRes) (hslots : Slots s.sender) (hs : s.agg.sink.isSome)
    (hcut : s.cut = false) (hq : ∀ n, (Quiet sends → n = s.agg.pendingCtrlOff) → Q s.sender (.flushUrgent n)) :
    Moves Q s.sender (sinkFlushCtrl s sends).2.1.sender := by
  cases hf : s.agg.pendingCtrl with
  | none => simp only [sinkFlushCtrl, hf]; exact .nil _
  | some f =>
    have hoff : s.agg.pendingCtrlOff < f.body.length := (hslots.urgent f hf).lt
    obtain ⟨h1, h2, h3⟩ := sendFrom_spec sends hoff.le
    have hstep : (sinkFlushCtrl s sends).2.1.sender =
        s.sender.move (.flushUrgent (sendFrom sends f.body.length s.agg.pendingCtrlOff).2.1) := by
      simp only [sinkFlushCtrl, hf, Sender.move, show s.sender.urgent = some f from hf, Option.elim_some,
        Sender.flushUrgent]
      split_ifs with ha hb hb
      · rfl
      · exact absurd (h3.1 ha) hb
      · exact absurd (h3.2 hb) ha
      · simp [AggSys.sender, Sender.put, AggSys.write, hf]
    rw [hstep]
    exact Moves.one _ ⟨hs, hcut, f, hf, h1, h2⟩ (hq _ fun hquiet => sendFrom_quiet hquiet _ _)

theorem sinkFlushData_moves {s : AggSys} (sends : List SendRes) (hslots : Slots s.sender) (hs : s.agg.sink.isSome)
    (hcut : s.cut = false) (hc : s.agg.pendingCtrl = none) (hq : ∀ u n, Q u (.flushData n)) :
    Moves Q s.sender (sinkFlushData s sends).2.sender := by
  cases hf : s.agg.pending with
  | none => simp only [sinkFlushData, hf]; exact .nil _
  | some f =>
    have hoff : s.agg.pendingOff < f.body.length := (hslots.data f hf).lt
    obtain ⟨h1, h2, h3⟩ := sendFrom_spec sends hoff.le
    have hstep : (sinkFlushData s sends).2.sender =
        s.sender.move (.flushData (sendFrom sends f.body.length s.agg.pendingOff).2.1) := by
      simp only [sinkFlushData, hf, Sender.move, show s.sender.data = some f from hf, Option.elim_some,
        Sender.flushData]
      split_ifs with ha hb hb
      · rfl
      · exact absurd (h3.1 ha) hb
      · exact absurd (h3.2 hb) ha
      · simp [AggSys.sender, Sender.put, AggSys.write, hf]
    rw [hstep]
    exact Moves.one _ ⟨hs, hcut, hc, f, hf, h1, h2⟩ (hq _ _)

theorem sinkFlushCtrl_only (who : ℕ → Prop) (s : AggSys) (sends : List SendRes) :
    SinkOnly who s (sinkFlushCtrl s sends).2.1 := by
  unfold sinkFlushCtrl
  split
  · exact .refl who s
  · dsimp only
    split_ifs
    · exact ⟨rfl, rfl, rfl, rfl, rfl, rfl, rfl, id, id, .inl rfl, fun _ _ _ => rfl, fun _ => .refl _⟩
    · exact ⟨rfl, rfl, rfl, rfl, rfl, rfl, rfl, id, id, .inl rfl, fun _ _ _ => rfl, fun _ => .refl _⟩

theorem sinkFlushData_only (who : ℕ → Prop) (s : AggSys) (sends : List SendRes) :
    SinkOnly who s (sinkFlushData s sends).2 := by
  unfold sinkFlushData
  split
  · exact .refl who s
  · next f hf =>
    dsimp only
    split_ifs
    · exact ⟨rfl, rfl, rfl, rfl, rfl, rfl, rfl, id, fun _ => rfl, .inl rfl, fun _ _ _ => rfl, fun _ => .refl _⟩
    · exact ⟨rfl, rfl, rfl, rfl, rfl, rfl, rfl, id, id, .inl rfl, fun _ _ _ => rfl, fun _ => .refl _⟩

/-- a flush that reports 1 leaves its slot empty; the sink stays -/
theorem sinkFlushCtrl_done (s : AggSys) (sends : List SendRes) :
    (sinkFlushCtrl s sends).2.1.agg.sink = s.agg.sink ∧ (sinkFlushCtrl s sends).2.1.agg.pending = s.agg.pending ∧
      (sinkFlushCtrl s sends).2.1.cut = s.cut ∧
      (0 < (sinkFlushCtrl s sends).1 → (sinkFlushCtrl s sends).2.1.agg.pendingCtrl = none) := by
  unfold sinkFlushCtrl
  split
  · next hf => exact ⟨rfl, rfl, rfl, fun _ => hf⟩
  · next f hf =>
    have hrc := sendFrom_rc sends f.body.length s.agg.pendingCtrlOff
    dsimp only
    split_ifs with h1
    · exact ⟨rfl, rfl, rfl, fun _ => rfl⟩
    · exact ⟨rfl, rfl, rfl, fun hpos => by dsimp only at hpos; omega⟩

theorem sinkFlushData_done (s : AggSys) (sends : List SendRes) :
    (sinkFlushData s sends).2.agg.sink = s.agg.sink ∧
      (sinkFlushData s sends).2.agg.pendingCtrl = s.agg.pendingCtrl ∧
      (0 < (sinkFlushData s sends).1 → (sinkFlushData s sends).2.agg.pending = none) := by
  unfold sinkFlushData
  split
  · next hf => exact ⟨rfl, rfl, fun _ => hf⟩
  · next f hf =>
    have hrc := sendFrom_rc sends f.body.length s.agg.pendingOff
    dsimp only
    split_ifs with h1
    · exact ⟨rfl, rfl, fun _ => rfl⟩
    · exact ⟨rfl, rfl, fun hpos => by dsimp only at hpos; omega⟩

theorem sinkFlush_moves {s : AggSys} (sends : List SendRes) (hslots : Slots s.sender) (hs : s.agg.sink.isSome)
    (hcut : s.cut = false) (hu : ∀ n, (Quiet sends → n = s.agg.pendingCtrlOff) → Q s.sender (.flushUrgent n))
    (hd : ∀ u n, Q u (.flushData n)) : Moves Q s.sender (sinkFlush s sends).2.sender := by
  have hctrl := sinkFlushCtrl_moves sends hslots hs hcut hu
  obtain ⟨hsink, -, hcut', hfree⟩ := sinkFlushCtrl_done s sends
  unfold sinkFlush
  dsimp only
  split_ifs with hrc
  · exact hctrl
  · exact hctrl.trans (sinkFlushData_moves _ (hctrl.slots hslots) (by rw [hsink]; exact hs) (by rw [hcut']; exact hcut)
      (hfree (by omega)) hd)

theorem sinkFlush_only (who : ℕ → Prop) (s : AggSys) (sends : List SendRes) : SinkOnly who s (sinkFlush s sends).2 := by
  unfold sinkFlush
  dsimp only
  split_ifs
  · exact sinkFlushCtrl_only who s sends
  · exact (sinkFlushCtrl_only who s sends).trans (sinkFlushData_only who _ _)

/-- behind a flush that reports 1 the sink is there and both slots are empty -/
theorem sinkFlush_done {s : AggSys} {sends : List SendRes} :
    (sinkFlush s sends).2.agg.sink = s.agg.sink ∧
      (0 < (sinkFlush s sends).1 →
        (sinkFlush s sends).2.agg.pending = none ∧ (sinkFlush s sends).2.agg.pendingCtrl = none) := by
  obtain ⟨hsink, -, -, hfree⟩ := sinkFlushCtrl_done s sends
  obtain ⟨hsink', hctrl', hfree'⟩ := sinkFlushData_done (sinkFlushCtrl s sends).2.1 (sinkFlushCtrl s sends).2.2
  unfold sinkFlush
  dsimp only
  split_ifs with hrc
  · exact ⟨hsink, fun hpos => by dsimp only at hpos; omega⟩
  · exact ⟨hsink'.trans hsink, fun hpos => ⟨hfree' hpos, hctrl'.trans (hfree (by omega))⟩⟩

/-! ### What the sink sends -/

/-- the state once the sink's bytes are read and its PING is taken -/
def sinkTaken (s : AggSys) (e : AggEnv) (k : ℕ) : AggSys :=
  let scan := sinkScan s e.sizes k
  let s := { s with conn := Function.update s.conn k { (sinkRecv e.sizes (s.conn k)).1 with rx := scan.rx } }
  match scan.pong with
  | some payload => s.queuePong payload
  | none => s

theorem sinkReadAndHandle_eq (s : AggSys) (e : AggEnv) (k : ℕ) :
    sinkReadAndHandle s e k = match (sinkScan s e.sizes k).verdict with
      | some code => (false, sendCloseBestEffort (sinkTaken s e k) e.sends code)
      | none => (¬ (sinkRecv e.sizes (s.conn k)).2, sinkTaken s e k) := rfl

/-- a PING is answered only while the control slot is free -/
theorem sinkFrames_busy (fuel : ℕ) (pong : Option Bytes) (rx : Buf) : (sinkFrames fuel pong false rx).pong = pong := by
  induction fuel generalizing rx with
  | zero => rfl
  | succ fuel ih =>
    unfold sinkFrames
    split
    · rfl
    · rfl
    · simp only [Bool.false_eq_true, if_false]
      split_ifs
      · rfl
      · exact ih _
      · rfl
      · exact ih _

theorem sinkFrames_verdict {fuel code : ℕ} {pong : Option Bytes} {free : Bool} {rx : Buf}
    (h : (sinkFrames fuel pong free rx).verdict = some code) : code = 1000 ∨ code = 1002 := by
  induction fuel generalizing pong free rx with
  | zero => cases h
  | succ fuel ih =>
    unfold sinkFrames at h
    split at h
    · cases h
    · obtain rfl := Option.some.inj h
      exact .inr rfl
    · dsimp only at h
      split_ifs at h
      · exact ih h
      · exact ih h
      · exact ih h
      · obtain rfl := Option.some.inj h
        exact .inl rfl
      · exact ih h

theorem sinkTaken_only (who : ℕ → Prop) {s : AggSys} (e : AggEnv) {k : ℕ} (hk : s.agg.sink = some k) :
    SinkOnly who s (sinkTaken s e k) := by
  unfold sinkTaken
  dsimp only
  have hconn : ∀ v : Conn, ∀ c, s.agg.sink ≠ some c → Function.update s.conn k v c = s.conn c := fun v c hc =>
    Function.update_of_ne (by rintro rfl; exact hc hk) _ _
  have hside : ∀ rx c, SinkSide (s.conn c)
      (Function.update s.conn k { (sinkRecv e.sizes (s.conn k)).1 with rx := rx } c) := by
    intro rx c
    refine SinkSide.update s.conn ?_ c
    exact ⟨rfl, .inl rfl, .inl rfl⟩
  split
  · exact ⟨rfl, rfl, rfl, rfl, rfl, rfl, rfl, id, id, .inl rfl, fun c hc _ => hconn _ c hc, hside _⟩
  · exact ⟨rfl, rfl, rfl, rfl, rfl, rfl, rfl, id, id, .inl rfl, fun c hc _ => hconn _ c hc, hside _⟩

/-- reading leaves the sink, and frames in the middle where they are -/
theorem sinkTaken_moves {s : AggSys} (e : AggEnv) {k : ℕ} (hk : s.agg.sink = some k)
    (hq : ∀ u payload, (sinkScan s e.sizes k).pong = some payload → Q u (.reply (frameNew opPong payload))) :
    Moves Q s.sender (sinkTaken s e k).sender ∧ (sinkTaken s e k).agg.sink = some k ∧
      ((sinkTaken s e k).sender.mid → s.sender.mid) := by
  unfold sinkTaken
  dsimp only
  split
  · next payload hpong =>
    have hfree : s.agg.pendingCtrl = none := by
      by_contra hb
      have hfalse : s.agg.pendingCtrl.isNone = false := by
        cases hc : s.agg.pendingCtrl with
        | none => exact absurd hc hb
        | some f => rfl
      unfold sinkScan at hpong
      rw [hfalse, sinkFrames_busy] at hpong
      cases hpong
    refine ⟨Moves.one (.reply (frameNew opPong payload)) ⟨?_, hfree, frameNew_ne_nil _ _⟩ (hq _ _ hpong), hk, ?_⟩
    · exact Option.isSome_iff_exists.2 ⟨k, hk⟩
    · rintro (hm | hm | hm)
      · exact .inl hm
      · exact absurd hm (lt_irrefl 0)
      · exact .inr (.inr hm)
  · exact ⟨.nil _, hk, id⟩

theorem handleEvent_only (who : ℕ → Prop) (s : AggSys) (e : AggEnv) (ev : AggEvent) :
    SinkOnly who s (handleEvent s e ev) := by
  cases ev with
  | wake => exact .refl who s
  | timer => exact .refl who s
  | conn c hup inn =>
    simp only [handleEvent]
    split_ifs with hk hhup hinn hr
    · exact .refl who s
    · exact closeSink_only who s
    · rw [sinkReadAndHandle_eq] at hr ⊢
      have htaken := sinkTaken_only who e (not_not.1 hk)
      split at hr
      · cases hr
      · exact htaken
    · rw [sinkReadAndHandle_eq]
      have htaken := sinkTaken_only who e (not_not.1 hk)
      split
      · exact (htaken.trans (sendCloseBestEffort_only who _ _ _)).trans (closeSink_only who _)
      · exact htaken.trans (closeSink_only who _)
    · exact .refl who s

theorem handleEvent_moves {s : AggSys} (e : AggEnv) (ev : AggEvent)
    (hq : ∀ c, ev = .conn c false true → s.agg.sink = some c → (sinkScan s e.sizes c).verdict.isSome →
      ∀ u code n, code = 1000 ∨ code = 1002 → (u.mid → s.sender.mid) → (Quiet e.sends → n = 0) →
        Q u (.farewell (frameNew opClose (codeBytes code)) n))
    (hreply : ∀ c, ev = .conn c false true → s.agg.sink = some c → ∀ u payload,
      (sinkScan s e.sizes c).pong = some payload → Q u (.reply (frameNew opPong payload)))
    (hd : ∀ u, Q u .detach) :
    Moves Q s.sender (handleEvent s e ev).sender := by
  have hclose : ∀ {u : AggSys} {k : ℕ}, u.agg.sink = some k → Moves Q u.sender (closeSink u).sender := fun {u k} hk => by
    rw [closeSink_sender hk]
    exact Moves.one .detach (Option.isSome_iff_exists.2 ⟨k, hk⟩) (hd _)
  cases ev with
  | wake => exact .nil _
  | timer => exact .nil _
  | conn c hup inn =>
    simp only [handleEvent]
    split_ifs with hk hhup hinn hr
    · exact .nil _
    · exact hclose (not_not.1 hk)
    · obtain ⟨htaken, -⟩ := sinkTaken_moves e (not_not.1 hk) (hreply c (by simp_all) (not_not.1 hk))
      rw [sinkReadAndHandle_eq] at *
      split at *
      · contradiction
      · exact htaken
    · have hev : AggEvent.conn c hup inn = .conn c false true := by simp_all
      obtain ⟨htaken, hsink, hmid⟩ := sinkTaken_moves e (not_not.1 hk) (hreply c hev (not_not.1 hk))
      rw [sinkReadAndHandle_eq]
      split
      · next code hv =>
        refine htaken.trans (farewell_moves e.sends code hsink fun n hn => ?_)
        exact hq c hev (not_not.1 hk) (by rw [hv]; rfl) _ code n (sinkFrames_verdict hv) hmid hn
      · exact htaken.trans (hclose hsink)
    · exact .nil _

/-! ### Messages -/

theorem aggOnMessage_frame (s : AggSys) (m : Msg) :
    (aggOnMessage s m).1.id = s.made.length ∧ IsFrameOf m (aggOnMessage s m).1.body :=
  ⟨rfl, _, rfl⟩

/-- the frame of the message taken -/
theorem takeMessage_sender (s : AggSys) (m : Msg) :
    ∃ body, IsFrameOf m body ∧ (takeMessage s m).sender = s.sender.move (.load m body) :=
  ⟨_, ⟨_, rfl⟩, rfl⟩

theorem drainMessage_sender {s : AggSys} (sends : List SendRes) {m : Msg} (hk : m.kind = .MSG_DATA)
    (hs : s.agg.sink.isSome) :
    (drainMessage s sends m).sender = s.sender.move
      (.drain m (aggOnMessage s m).1.body (sendFrom sends (aggOnMessage s m).1.body.length 0).2.1) := by
  have hspec := (sendFrom_spec sends (Nat.zero_le (aggOnMessage s m).1.body.length)).2.2
  unfold drainMessage
  rw [if_pos ⟨hk, hs⟩]
  simp only [AggSys.sender, AggSys.write, Sender.move, Sender.drain, Sender.put, Sender.make, Sender.mk.injEq, hspec, ne_eq]
  exact ⟨rfl, rfl, rfl, rfl, rfl, rfl, rfl, rfl, rfl, rfl, rfl⟩

theorem drainMessage_other {s : AggSys} (sends : List SendRes) {m : Msg}
    (h : ¬ (m.kind = .MSG_DATA ∧ s.agg.sink.isSome)) :
    drainMessage s sends m = { s with discarded := s.discarded ++ [m] } := if_neg h

/-- a message of the drain loop leaves the slots and the sink alone -/
theorem drainMessage_same (s : AggSys) (sends : List SendRes) (m : Msg) :
    (drainMessage s sends m).pc = s.pc ∧ (drainMessage s sends m).agg.pending = s.agg.pending ∧
      (drainMessage s sends m).agg.pendingCtrl = s.agg.pendingCtrl ∧
      (drainMessage s sends m).agg.sink = s.agg.sink := by
  unfold drainMessage; split_ifs <;> exact ⟨rfl, rfl, rfl, rfl⟩

/-! ## The step -/

variable {conf : ServerConfig} {s t : AggSys} {e : AggEnv}

/-- outside `aggPump` and the drain nothing is asked of the slots -/
theorem AtPc.free (h1 : t.pc.pumped = false) (h2 : t.pc.draining = false) (hcut : t.cut = true → t.pc.last) : AtPc t where
  pumped h := by simp [h1] at h
  draining h := by simp [h2] at h
  cut := hcut

theorem AtPc.no_cut (hp : AtPc s) (hl : s.pc.last = false) : s.cut = false := by
  cases hc : s.cut with
  | false => rfl
  | true => exact absurd (hp.cut hc) (by simp [hl])

theorem ctrl_moves {q : Queue Msg} {m : Msg} (hp : AtPc s) (hpc : s.pc = .ctrl ∨ s.pc = .drainCtrl)
    (hq : trypop s.ctrlQueue = some (m, q)) :
    Moves (FrameMove s e) s.sender (handleCtrl { s with ctrlQueue := q } e.sends m).sender ∧
      AtPc (handleCtrl { s with ctrlQueue := q } e.sends m) := by
  have honly := handleCtrl_only { s with ctrlQueue := q } e.sends m
  refine ⟨handleCtrl_moves (s := { s with ctrlQueue := q }) e.sends m (fun hs hk hm n hn => ?_)
    fun _ _ => ⟨trivial, trivial⟩, fun h => ?_, fun h => ?_, fun h => ?_⟩
  · refine ⟨⟨?_, id, hn, _, _, rfl⟩, _, rfl, .inr (.inl rfl)⟩
    rcases hpc with hpc | hpc <;> simp only [startsFrame, hpc] <;> exact ⟨hs, by simpa [hq] using ⟨hk, hm⟩⟩
  · rw [honly.pc] at h
    rcases hpc with hpc | hpc <;> simp [hpc, AggPc.pumped] at h
  · rw [honly.pc] at h
    obtain ⟨h1, h2⟩ := hp.draining h
    exact ⟨honly.pending h1, handleCtrl_pendingCtrl _ _ _ h2⟩
  · rw [honly.pc]
    exact hp.cut (honly.cut h)

theorem pump_moves {s' : AggSys} (hslots : Slots s.sender) (hp : AtPc s) (hpc : s.pc = .pump) (hs : s.agg.sink.isSome)
    (hs' : s' = (sinkFlush s e.sends).2) :
    Moves (FrameMove s e) s.sender s'.sender ∧ Slots s'.sender ∧ s'.cut = false ∧ s'.agg.sink = s.agg.sink := by
  subst hs'
  have hcut := hp.no_cut (by rw [hpc]; rfl)
  have hm : Moves (FrameMove s e) s.sender (sinkFlush s e.sends).2.sender :=
    sinkFlush_moves e.sends hslots hs hcut (fun n hn => ⟨⟨hpc, rfl, hn⟩, trivial⟩) fun _ _ => ⟨trivial, trivial⟩
  refine ⟨hm, hm.slots hslots, ?_, sinkFlush_done.1⟩
  have honly := sinkFlush_only (fun _ => False) s e.sends
  cases hc : (sinkFlush s e.sends).2.cut with
  | false => rfl
  | true => exact absurd (honly.cut hc) (by simp [hcut])

theorem drain_moves {q : Queue Msg} {m : Msg} (hp : AtPc s) (hpc : s.pc = .drainData)
    (hq : trypop s.dataQueue = some (m, q)) :
    let s1 := { s with dataQueue := q, popped := s.popped ++ [m] }
    Moves (FrameMove s e) s.sender (drainMessage s1 e.sends m).sender ∧ AtPc (drainMessage s1 e.sends m) := by
  intro s1
  have hd := hp.draining (by rw [hpc]; rfl)
  obtain ⟨h1, h2, h3, -⟩ := drainMessage_same s1 e.sends m
  refine ⟨?_, fun h => ?_, fun h => ?_, fun _ => ?_⟩
  · by_cases hw : m.kind = .MSG_DATA ∧ s1.agg.sink.isSome
    · have hlen := (sendFrom_spec e.sends (Nat.zero_le (aggOnMessage s1 m).1.body.length)).2.1
      rw [drainMessage_sender e.sends hw.1 hw.2]
      refine Moves.one (s := s.sender) _ ⟨hw.2, hd.1, hd.2, ?_, hlen⟩
        ⟨⟨hpc, ?_, id, rfl, (aggOnMessage_frame s1 m).2⟩, trivial⟩
      · obtain ⟨seq, hseq⟩ := (aggOnMessage_frame s1 m).2
        rw [hseq]
        exact frameNew_ne_nil _ _
      · simp only [startsFrame, hpc]
        exact ⟨hw.2, by simpa [hq] using hw.1⟩
    · rw [drainMessage_other e.sends hw]
      exact .nil _
  · rw [h1, show s1.pc = s.pc from rfl, hpc] at h; cases h
  · rw [h2, h3]; exact hd
  · rw [h1, show s1.pc = s.pc from rfl, hpc]; rfl

/-- **What one step does to the sender.** -/
theorem aggStep_frameMoves (hslots : Slots s.sender) (hp : AtPc s) (h : aggStep conf s e = some t) :
    Moves (FrameMove s e) s.sender t.sender ∧ AtPc t := by
  unfold aggStep at h
  cases hpc : s.pc with
  | ctrl =>
    have hc := hp.no_cut (by rw [hpc]; rfl)
    simp only [hpc] at h
    cases hq : trypop s.ctrlQueue with
    | none =>
      simp only [hq, Option.some.injEq] at h
      subst h
      exact ⟨.nil _, .free rfl rfl fun h => absurd h (by simp [hc])⟩
    | some mq =>
      simp only [hq, Option.some.injEq] at h
      subst h
      exact hpc ▸ ctrl_moves hp (.inl hpc) hq
  | pump =>
    simp only [hpc] at h
    split_ifs at h with hs hneg hzero
    all_goals simp only [Option.some.injEq] at h; subst h
    · have hc := hp.no_cut (by rw [hpc]; rfl)
      exact ⟨.nil _, .free rfl rfl fun h => absurd h (by simp [hc])⟩
    · obtain ⟨hm, -, hc, hsink⟩ := pump_moves (e := e) hslots hp hpc (Option.isSome_iff_ne_none.2 hs) rfl
      obtain ⟨k, hk⟩ := Option.ne_none_iff_exists'.1 hs
      refine ⟨hm.trans ?_, .free rfl rfl fun h => absurd ((closeSink_only (fun _ => False) _).cut h) (by simp [hc])⟩
      show Moves _ _ (closeSink (sinkFlush s e.sends).2).sender
      rw [closeSink_sender (hsink.trans hk)]
      exact Moves.one .detach (by simp [Sender.can, AggSys.sender, hsink, hk]) ⟨trivial, trivial⟩
    · obtain ⟨hm, -, hc, -⟩ := pump_moves (e := e) hslots hp hpc (Option.isSome_iff_ne_none.2 hs) rfl
      exact ⟨hm, .free rfl rfl fun h => absurd h (by simp [hc])⟩
    · obtain ⟨hm, -, hc, hsink⟩ := pump_moves (e := e) hslots hp hpc (Option.isSome_iff_ne_none.2 hs) rfl
      refine ⟨hm, fun _ => ⟨?_, sinkFlush_done.2 (by omega)⟩, nofun, fun h => absurd h (by simp [hc])⟩
      show (sinkFlush s e.sends).2.agg.sink.isSome
      rw [hsink]
      exact Option.isSome_iff_ne_none.2 hs
  | mark =>
    simp only [hpc, Option.some.injEq] at h
    subst h
    have hd := hp.pumped (by rw [hpc]; rfl)
    have hc := hp.no_cut (by rw [hpc]; rfl)
    refine ⟨.nil _, fun _ => hd, fun h => ?_, fun h => absurd h (by simp [hc])⟩
    dsimp only at h
    split_ifs at h <;> cases h
  | unpark =>
    have hd := hp.pumped (by rw [hpc]; rfl)
    have hc := hp.no_cut (by rw [hpc]; rfl)
    simp only [hpc] at h
    split at h
    all_goals
      obtain rfl := Option.some.inj h
      exact ⟨.nil _, fun _ => hd, nofun, fun h => absurd h (by simp [hc])⟩
  | rpush c =>
    have hd := hp.pumped (by rw [hpc]; rfl)
    have hc := hp.no_cut (by rw [hpc]; rfl)
    simp only [hpc, Option.map_eq_some_iff] at h
    obtain ⟨m, -, rfl⟩ := h
    exact ⟨.nil _, fun _ => hd, nofun, fun h => absurd h (by simp [hc])⟩
  | rclear c =>
    have hd := hp.pumped (by rw [hpc]; rfl)
    have hc := hp.no_cut (by rw [hpc]; rfl)
    simp only [hpc, Option.some.injEq] at h
    subst h
    exact ⟨.nil _, fun _ => hd, nofun, fun h => absurd h (by simp [hc])⟩
  | radd c =>
    have hd := hp.pumped (by rw [hpc]; rfl)
    have hc := hp.no_cut (by rw [hpc]; rfl)
    simp only [hpc, Option.some.injEq] at h
    subst h
    exact ⟨.nil _, fun _ => hd, nofun, fun h => absurd h (by simp [hc])⟩
  | take =>
    have hd := hp.pumped (by rw [hpc]; rfl)
    have hc := hp.no_cut (by rw [hpc]; rfl)
    simp only [hpc] at h
    cases hq : trypop s.dataQueue with
    | none =>
      simp only [hq, Option.some.injEq] at h
      subst h
      exact ⟨.nil _, .free rfl rfl fun h => absurd h (by simp [hc])⟩
    | some mq =>
      simp only [hq, Option.some.injEq] at h
      subst h
      obtain ⟨body, hframe, hsender⟩ := takeMessage_sender { s with dataQueue := mq.2 } mq.1
      refine ⟨?_, .free rfl rfl fun h => absurd h (by simp [show s.cut = false from hc, takeMessage, aggOnMessage])⟩
      rw [← hpc, hsender]
      refine Moves.one (s := s.sender) _ ⟨hd.1, hd.2.1, ?_⟩ ⟨⟨hpc, hframe⟩, trivial⟩
      obtain ⟨seq, hseq⟩ := hframe
      rw [hseq]
      exact frameNew_ne_nil _ _
  | exitData =>
    have hc := hp.no_cut (by rw [hpc]; rfl)
    simp only [hpc, Option.some.injEq] at h
    subst h
    exact ⟨.nil _, .free rfl rfl fun h => absurd h (by simp [hc])⟩
  | exitCtrl d =>
    have hc := hp.no_cut (by rw [hpc]; rfl)
    simp only [hpc] at h
    split_ifs at h
    all_goals
      obtain rfl := Option.some.inj h
      exact ⟨.nil _, .free rfl rfl fun h => absurd h (by simp [hc])⟩
  | exitDrain =>
    have hc := hp.no_cut (by rw [hpc]; rfl)
    simp only [hpc] at h
    split_ifs at h with hs
    all_goals obtain rfl := Option.some.inj h
    · have hi := hslots.idle hs.2
      exact ⟨.nil _, nofun, fun _ => ⟨hi.2.1, hi.2.2.1⟩, fun h => absurd h (by simp [hc])⟩
    · exact ⟨.nil _, .free rfl rfl fun h => absurd h (by simp [hc])⟩
  | wait =>
    have hc := hp.no_cut (by rw [hpc]; rfl)
    simp only [hpc] at h
    split at h
    all_goals
      obtain rfl := Option.some.inj h
      exact ⟨.nil _, .free rfl rfl fun h => absurd h (by simp [hc])⟩
  | events evs =>
    have hc := hp.no_cut (by rw [hpc]; rfl)
    cases evs with
    | nil =>
      simp only [hpc, Option.some.injEq] at h
      subst h
      exact ⟨.nil _, .free rfl rfl fun h => absurd h (by simp [hc])⟩
    | cons ev evs =>
      simp only [hpc, Option.some.injEq] at h
      subst h
      refine ⟨?_, .free rfl rfl fun h => absurd ((handleEvent_only (fun _ => False) s e ev).cut h) (by simp [hc])⟩
      show Moves _ _ (handleEvent s e ev).sender
      refine handleEvent_moves e ev (fun c hev hk hv u code n hcode hmid hn => ⟨⟨?_, hmid, hn, _, _, rfl⟩, _, rfl, ?_⟩)
        (fun c hev hk _ payload hpong => ⟨⟨_, _, rfl⟩, c, evs, payload, hev ▸ hpc, hk, hpong, rfl⟩)
        fun _ => ⟨trivial, trivial⟩
      · simp only [startsFrame, hpc, hev]
        exact ⟨hk, hv⟩
      · exact hcode.imp_right .inr
  | drainCtrl =>
    have hd := hp.draining (by rw [hpc]; rfl)
    have hc := hp.no_cut (by rw [hpc]; rfl)
    simp only [hpc] at h
    cases hq : trypop s.ctrlQueue with
    | none =>
      simp only [hq, Option.some.injEq] at h
      subst h
      exact ⟨.nil _, nofun, fun _ => hd, fun h => absurd h (by simp [hc])⟩
    | some mq =>
      simp only [hq, Option.some.injEq] at h
      subst h
      exact hpc ▸ ctrl_moves hp (.inr hpc) hq
  | drainData =>
    simp only [hpc] at h
    cases hq : trypop s.dataQueue with
    | none =>
      simp only [hq, Option.some.injEq] at h
      subst h
      exact ⟨.nil _, .free rfl rfl fun _ => rfl⟩
    | some mq =>
      simp only [hq, Option.some.injEq] at h
      subst h
      exact hpc ▸ drain_moves hp hpc hq
  | final =>
    simp only [hpc, Option.some.injEq] at h
    subst h
    refine ⟨?_, .free rfl rfl fun _ => rfl⟩
    show Moves _ _ (freeSink s e.sends).sender
    refine freeSink_moves e.sends fun hs n hn => ⟨⟨?_, id, hn, _, _, rfl⟩, _, rfl, .inr (.inl rfl)⟩
    simp only [startsFrame, hpc]
    exact hs
  | done => simp only [hpc] at h; cases h

theorem aggStep_moves (hslots : Slots s.sender) (hp : AtPc s) (h : aggStep conf s e = some t) :
    Moves (StepMove s e) s.sender t.sender ∧ AtPc t := by
  obtain ⟨hm, ht⟩ := aggStep_frameMoves hslots hp h
  exact ⟨hm.mono fun _ _ _ hq => hq.1, ht⟩

/-! ## What one step does to the shared part -/

/-- the connection `resumeParked` works on -/
def AggPc.hand : AggPc → Option ℕ
  | .rpush c | .rclear c | .radd c => some c
  | _ => none

/-- one step before the shutdown, as the other threads see it -/
inductive Shift (s : AggSys) : AggSys → Prop where
  /-- at most something about the sink -/
  | look (r : AggSys) (p : AggPc) : SinkOnly (fun _ => False) s r → s.pc.hand = none → p.hand = none →
      p.draining = false → p ≠ .done → Shift s { r with pc := p }
  | ctrl (m : Msg) (q : Queue Msg) (t : AggSys) : trypop s.ctrlQueue = some (m, q) → s.pc = .ctrl →
      SinkOnly m.adds { s with ctrlQueue := q } t → Shift s t
  | unpark (c : ℕ) (park : List ℕ) : s.pc = .unpark → s.park = c :: park → Shift s { s with park := park, pc := .rpush c }
  | rpush (c : ℕ) (m : Msg) : s.pc = .rpush c → (s.conn c).pendingMsg = some m →
      Shift s { s with dataQueue := push s.dataQueue m, pc := .rclear c }
  | rclear (c : ℕ) : s.pc = .rclear c →
      Shift s { s with conn := Function.update s.conn c { s.conn c with pendingMsg := none }, pc := .radd c }
  | radd (c : ℕ) : s.pc = .radd c →
      Shift s { s with conn := Function.update s.conn c (epollAdd (s.conn c)), pc := .take }
  | take (m : Msg) (q : Queue Msg) : s.pc = .take → trypop s.dataQueue = some (m, q) →
      Shift s (takeMessage { s with dataQueue := q } m)
  | final (r : AggSys) : s.pc = .final → SinkOnly (fun _ => False) s r → r.agg.sink = none →
      Shift s { aggFreeState r with pc := .done }

/-- **What one step does to the shared part.** -/
theorem aggStep_shift (hq : s.dataQueue.shutdown = false) (hp : s.pc.draining = false)
    (h : aggStep conf s e = some t) : Shift s t := by
  unfold aggStep at h
  cases hpc : s.pc with
  | ctrl =>
    simp only [hpc] at h
    cases hc : trypop s.ctrlQueue with
    | none =>
      simp only [hc] at h
      obtain rfl := Option.some.inj h
      exact .look s .pump (.refl _ s) (by rw [hpc]; rfl) rfl rfl nofun
    | some mq =>
      obtain ⟨m, q⟩ := mq
      simp only [hc] at h
      obtain rfl := Option.some.inj h
      rw [← hpc]
      exact .ctrl m q _ hc hpc (handleCtrl_only _ _ _)
  | pump =>
    have honly := sinkFlush_only (fun _ => False) s e.sends
    simp only [hpc] at h
    split_ifs at h
    all_goals obtain rfl := Option.some.inj h
    · exact .look s _ (.refl _ s) (by rw [hpc]; rfl) rfl rfl nofun
    · exact .look (closeSink (sinkFlush s e.sends).2) _ (honly.trans (closeSink_only _ _)) (by rw [hpc]; rfl) rfl rfl nofun
    · exact .look _ _ honly (by rw [hpc]; rfl) rfl rfl nofun
    · exact .look _ _ honly (by rw [hpc]; rfl) rfl rfl nofun
  | mark =>
    simp only [hpc] at h
    obtain rfl := Option.some.inj h
    refine .look s _ (.refl _ s) (by rw [hpc]; rfl) ?_ ?_ ?_
    all_goals split_ifs <;> first | rfl | exact nofun
  | unpark =>
    simp only [hpc] at h
    split at h
    · obtain rfl := Option.some.inj h
      exact .look s _ (.refl _ s) (by rw [hpc]; rfl) rfl rfl nofun
    · next c park hpark =>
      obtain rfl := Option.some.inj h
      exact .unpark c park hpc hpark
  | rpush c =>
    simp only [hpc, Option.map_eq_some_iff] at h
    obtain ⟨m, hm, rfl⟩ := h
    exact .rpush c m hpc hm
  | rclear c =>
    simp only [hpc] at h
    obtain rfl := Option.some.inj h
    exact .rclear c hpc
  | radd c =>
    simp only [hpc] at h
    obtain rfl := Option.some.inj h
    exact .radd c hpc
  | take =>
    simp only [hpc] at h
    cases hd : trypop s.dataQueue with
    | none =>
      simp only [hd] at h
      obtain rfl := Option.some.inj h
      exact .look s _ (.refl _ s) (by rw [hpc]; rfl) rfl rfl nofun
    | some mq =>
      obtain ⟨m, q⟩ := mq
      simp only [hd] at h
      obtain rfl := Option.some.inj h
      rw [← hpc]
      exact .take m q hpc hd
  | exitData =>
    simp only [hpc] at h
    obtain rfl := Option.some.inj h
    exact .look s _ (.refl _ s) (by rw [hpc]; rfl) rfl rfl nofun
  | exitCtrl d =>
    simp only [hpc] at h
    split_ifs at h
    all_goals
      obtain rfl := Option.some.inj h
      exact .look s _ (.refl _ s) (by rw [hpc]; rfl) rfl rfl nofun
  | exitDrain =>
    simp only [hpc, queueIsShutdown, hq, Bool.false_eq_true, false_and, if_false] at h
    obtain rfl := Option.some.inj h
    exact .look s _ (.refl _ s) (by rw [hpc]; rfl) rfl rfl nofun
  | wait =>
    simp only [hpc] at h
    split at h
    all_goals
      obtain rfl := Option.some.inj h
      exact .look s _ (.refl _ s) (by rw [hpc]; rfl) rfl rfl nofun
  | events evs =>
    cases evs with
    | nil =>
      simp only [hpc] at h
      obtain rfl := Option.some.inj h
      exact .look s _ (.refl _ s) (by rw [hpc]; rfl) rfl rfl nofun
    | cons ev evs =>
      simp only [hpc] at h
      obtain rfl := Option.some.inj h
      exact .look _ _ (handleEvent_only _ s e ev) (by rw [hpc]; rfl) rfl rfl nofun
  | drainCtrl => rw [hpc] at hp; cases hp
  | drainData => rw [hpc] at hp; cases hp
  | final =>
    simp only [hpc] at h
    obtain rfl := Option.some.inj h
    exact .final (freeSink s e.sends) hpc (freeSink_only _ s e.sends) (freeSink_sink s e.sends)
  | done => simp only [hpc] at h; cases h

end WsServer
