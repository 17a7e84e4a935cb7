/-
The PINGs of a sink and the PONGs it gets, with the one control slot between them.

`pingStep` is the aggregator thread among the others with a list next to it: every PING handled on the present sink,
with what was in the control slot when its turn came (`PingSeen`). The list is never read.

- `sinkPings_answered`: one read answers at most one PING, the first one that finds the slot free.
- `PingInv.step`: what was said to the sink, written or still in the slot, are the PONGs of the PINGs that found the
  slot free, in their order.
- `pongs_last`: when the slot is empty, the last PONG written is that of the last PING that found the slot free, and
  every PING left out found an earlier PING's PONG in it.
- `second_ping_unanswered`: two PINGs in one read. The PONG is that of the first.
-/
import Mathlib
import WsServer.Core.Replies
import WsServer.Agg.Wire

namespace WsServer

open Ws Packets Machine

/-! ## The PINGs of a read -/

/-- a PING, and what was in the control slot when its turn came -/
structure PingSeen where
  payload : Bytes
  slot : Option Bytes
deriving DecidableEq, Repr

def PingSeen.answer (x : PingSeen) : Bytes := frameNew opPong x.payload

/-- the PINGs that found the slot free -/
def answered (l : List PingSeen) : List PingSeen := l.filter fun x => x.slot.isNone

/-- the PINGs the frame loop of `sinkReadAndHandle` comes to; `slot` is what is in the control slot -/
def sinkPings : ℕ → Option Bytes → Buf → List PingSeen
  | 0, _, _ => []
  | fuel + 1, slot, rx =>
    match wsParseHeader (bufData rx) with
    | .needMore => []
    | .errProto => []
    | .ok h =>
      if bufLen rx < h.headerLen + h.payloadLen then []
      else
        let raw := ((bufData rx).drop h.headerLen).take h.payloadLen
        let payload := if h.masked then wsUnmask raw h.maskKey else raw
        let rest := bufConsume rx (h.headerLen + h.payloadLen)
        if h.opcode = opPing then ⟨payload, slot⟩ :: sinkPings fuel (some (slot.getD (frameNew opPong payload))) rest
        else if h.opcode = opClose then []
        else sinkPings fuel slot rest

theorem answered_append (l l' : List PingSeen) : answered (l ++ l') = answered l ++ answered l' := List.filter_append ..

/-- while the slot is taken no PING is answered -/
theorem sinkPings_busy (fuel : ℕ) (b : Bytes) (rx : Buf) : answered (sinkPings fuel (some b) rx) = [] := by
  induction fuel generalizing rx with
  | zero => rfl
  | succ fuel ih =>
    unfold sinkPings
    split
    · rfl
    · rfl
    · dsimp only
      split_ifs
      all_goals first | rfl | exact ih _

/-- **One read answers at most one PING**, the first one if the slot is free. -/
theorem sinkPings_answered (fuel : ℕ) (rx : Buf) :
    (answered (sinkPings fuel none rx)).map PingSeen.payload = (sinkFrames fuel none true rx).pong.toList := by
  induction fuel generalizing rx with
  | zero => rfl
  | succ fuel ih =>
    unfold sinkPings sinkFrames
    cases wsParseHeader (bufData rx) with
    | needMore => rfl
    | errProto => rfl
    | ok h =>
      dsimp only
      generalize (if h.masked then wsUnmask (((bufData rx).drop h.headerLen).take h.payloadLen) h.maskKey
        else ((bufData rx).drop h.headerLen).take h.payloadLen) = payload
      simp only [↓reduceIte]
      split_ifs
      · rfl
      · rw [sinkFrames_busy, ← List.singleton_append, answered_append, Option.getD_none, sinkPings_busy]
        rfl
      · rfl
      · exact ih _

/-! ## The slot along a list of PINGs -/

/-- the PONG of the last PING that was answered -/
def lastAnswer (l : List PingSeen) : Option Bytes := (answered l).getLast?.map PingSeen.answer

/-- every PING found the slot empty, or the PONG of the last one answered in it -/
inductive Served : List PingSeen → Prop where
  | nil : Served []
  | snoc (l : List PingSeen) (x : PingSeen) : Served l → x.slot = none ∨ x.slot = lastAnswer l → Served (l ++ [x])

theorem lastAnswer_free (l : List PingSeen) (payload : Bytes) :
    lastAnswer (l ++ [⟨payload, none⟩]) = some (frameNew opPong payload) := by
  unfold lastAnswer
  rw [answered_append, show answered [⟨payload, none⟩] = [⟨payload, none⟩] from rfl, List.getLast?_concat]
  rfl

theorem lastAnswer_busy (l : List PingSeen) (payload b : Bytes) :
    lastAnswer (l ++ [⟨payload, some b⟩]) = lastAnswer l := by
  unfold lastAnswer
  rw [answered_append, show answered [⟨payload, some b⟩] = [] from rfl, List.append_nil]

theorem Served.read {l : List PingSeen} (h : Served l) (fuel : ℕ) {slot : Option Bytes}
    (hslot : slot = none ∨ slot = lastAnswer l) (rx : Buf) : Served (l ++ sinkPings fuel slot rx) := by
  induction fuel generalizing l slot rx with
  | zero => rw [sinkPings, List.append_nil]; exact h
  | succ fuel ih =>
    unfold sinkPings
    cases wsParseHeader (bufData rx) with
    | needMore => dsimp only; rw [List.append_nil]; exact h
    | errProto => dsimp only; rw [List.append_nil]; exact h
    | ok hd =>
      dsimp only
      generalize (if hd.masked then wsUnmask (((bufData rx).drop hd.headerLen).take hd.payloadLen) hd.maskKey
        else ((bufData rx).drop hd.headerLen).take hd.payloadLen) = payload
      split_ifs
      · rw [List.append_nil]; exact h
      · rw [← List.singleton_append, ← List.append_assoc]
        refine ih (.snoc l ⟨payload, slot⟩ h hslot) (.inr ?_) _
        cases slot with
        | none => exact (lastAnswer_free l payload).symm
        | some b =>
          rw [lastAnswer_busy, Option.getD_some]
          exact hslot.resolve_left nofun
      · rw [List.append_nil]; exact h
      · exact ih h hslot _

/-- the last PING answered, and those behind it -/
theorem Served.last {l : List PingSeen} (h : Served l) : l = [] ∨ ∃ a x b, l = a ++ x :: b ∧ x.slot = none ∧
    (∀ y ∈ b, y.slot = some x.answer) ∧ answered l = answered a ++ [x] := by
  induction h with
  | nil => exact .inl rfl
  | snoc l x _ hx ih =>
    refine .inr ?_
    rcases hx with hx | hx
    · refine ⟨l, x, [], rfl, hx, nofun, ?_⟩
      rw [answered_append]
      exact congrArg (answered l ++ ·) (List.filter_eq_self.2 fun y hy => by rw [List.mem_singleton.1 hy, hx]; rfl)
    · rcases ih with rfl | ⟨a, z, b, rfl, hz, hb, hans⟩
      · refine ⟨[], x, [], rfl, hx, nofun, List.filter_eq_self.2 fun y hy => ?_⟩
        rw [List.mem_singleton.1 hy, hx]
        rfl
      · have hslot : x.slot = some z.answer := by
          rw [hx, lastAnswer, hans, List.getLast?_concat]
          rfl
        refine ⟨a, z, b ++ [x], by simp, hz, fun y hy => ?_, ?_⟩
        · rcases List.mem_append.1 hy with hy | hy
          · exact hb y hy
          · rw [List.mem_singleton.1 hy, hslot]
        · rw [answered_append, hans]
          have hno : answered [x] = [] := List.filter_eq_nil_iff.2 fun y hy => by
            rw [List.mem_singleton.1 hy, hslot]
            exact nofun
          rw [hno, List.append_nil]

/-- a PING that was left out found the PONG of an earlier one in the slot -/
theorem Served.left {l : List PingSeen} (h : Served l) {a b : List PingSeen} {y : PingSeen} (hl : l = a ++ y :: b)
    (hy : y.slot ≠ none) : ∃ c x d, a = c ++ x :: d ∧ x.slot = none ∧ y.slot = some x.answer := by
  induction h generalizing b with
  | nil => cases a <;> cases hl
  | snoc l x hserved hx ih =>
    rcases b.eq_nil_or_concat with rfl | ⟨b, z, rfl⟩
    · obtain ⟨rfl, hxy⟩ := List.append_inj' hl rfl
      obtain rfl := (List.cons.inj hxy).1
      have hlast := hx.resolve_left hy
      rcases hserved.last with rfl | ⟨c, z, d, rfl, hz, -, hans⟩
      · exact absurd hlast hy
      · refine ⟨c, z, d, rfl, hz, ?_⟩
        rw [hlast, lastAnswer, hans, List.getLast?_concat]
        rfl
    · have hsplit : l ++ [x] = (a ++ y :: b) ++ [z] := by rw [hl, List.concat_eq_append]; simp
      exact ih (List.append_inj' hsplit rfl).1

/-! ## The machine -/

/-- the PINGs the thread comes to in a step -/
def AggSys.pings (s : AggSys) : AggAct → List PingSeen
  | .agg e =>
    match s.pc with
    | .events (.conn c false true :: _) =>
      if s.agg.sink = some c then
        let rx := (sinkRecv e.sizes (s.conn c)).1.rx
        sinkPings (bufLen rx + 1) (s.agg.pendingCtrl.map Packet.body) rx
      else []
    | _ => []
  | .others _ _ _ _ => []

structure PingSys where
  sys : AggSys
  /-- the PINGs of the present sink -/
  pings : List PingSeen

def pingStep (conf : ServerConfig) (p : PingSys) (a : AggAct) : Option PingSys :=
  (aggSysStep conf p.sys a).map fun t =>
    ⟨t, if t.past.length = p.sys.past.length then p.pings ++ p.sys.pings a else []⟩

def isPong (body : Bytes) : Bool := body.head? = some 0x8A

/-- the bytes of PONGs the present sink was sent -/
def AggSys.pongBytes (s : AggSys) : Bytes := s.sender.heard isPong

/-- the opcode tells -/
theorem isPong_frame (op : ℕ) (payload : Bytes) :
    isPong (frameNew op payload) = decide (some (UInt8.ofNat (0x80 ||| (op &&& 0x0F))) = some 0x8A) := rfl

theorem isPong_message {m : Msg} {body : Bytes} (h : IsFrameOf m body) : isPong body = false := by
  obtain ⟨seq, rfl⟩ := h
  rw [isPong_frame]
  rcases encodeMsg_opcode seq m with hop | hop
  · rw [hop]; decide
  · rw [hop]; decide

/-! ## What one step does -/

variable {conf : ServerConfig} {s t : AggSys} {e : AggEnv}

/-- the thread is about to read from the sink -/
def AggSys.reads (s : AggSys) (c : ℕ) : Prop := (∃ evs, s.pc = .events (.conn c false true :: evs)) ∧ s.agg.sink = some c

/-- a step that does not read makes no PONG -/
theorem FrameMove.silent (h : ∀ c, ¬ s.reads c) {u : Sender UInt8 Msg} {m : Move UInt8 Msg} (hm : FrameMove s e u m) :
    silent isPong u m := by
  cases m with
  | reply body =>
    obtain ⟨-, c, evs, payload, hpc, hsink, -⟩ := hm
    exact h c ⟨⟨evs, hpc⟩, hsink⟩
  | load m body => exact isPong_message hm.1.2
  | drain m body n => exact isPong_message hm.1.2.2.2.2
  | _ => trivial

theorem AggSys.pings_of_not_reads (h : ∀ c, ¬ s.reads c) : s.pings (.agg e) = [] := by
  unfold AggSys.pings
  dsimp only
  split
  · next c evs hpc =>
    rw [if_neg fun hsink => h c ⟨⟨evs, hpc⟩, hsink⟩]
  · rfl

theorem AggSys.pings_of_reads {c : ℕ} (h : s.reads c) : s.pings (.agg e) =
    sinkPings (bufLen (sinkRecv e.sizes (s.conn c)).1.rx + 1) (s.agg.pendingCtrl.map Packet.body)
      (sinkRecv e.sizes (s.conn c)).1.rx := by
  obtain ⟨⟨evs, hpc⟩, hsink⟩ := h
  unfold AggSys.pings
  simp only [hpc]
  rw [if_pos hsink]

/-- what holds next to the thread -/
structure PingInv (s : AggSys) (l : List PingSeen) : Prop where
  agg : AggInv s
  voices : Voices isPong s.sender
  said : s.sender.said isPong = (answered l).flatMap PingSeen.answer
  slot : s.agg.pendingCtrl = none ∨ s.agg.pendingCtrl.map Packet.body = lastAnswer l
  served : Served l

/-- silent moves, or the end of the sink -/
theorem PingInv.quiet {l : List PingSeen} (h : PingInv s l) (ht : AggInv t) (hk : SaidKept isPong s.sender t.sender) :
    PingInv t (if t.past.length = s.past.length then l else []) := by
  have hpasts : t.sender.past = t.past ∧ s.sender.past = s.past := ⟨rfl, rfl⟩
  rcases hk.said with ⟨hpast, hsaid⟩ | ⟨hpast, hsaid⟩
  · rw [hpasts.1, hpasts.2] at hpast
    rw [if_pos hpast]
    refine ⟨ht, hk.voices, hsaid.trans h.said, ?_, h.served⟩
    rcases hk.urgent with hu | ⟨-, hu⟩
    · exact .inl hu
    · rw [show t.agg.pendingCtrl = s.agg.pendingCtrl from hu]
      exact h.slot
  · rw [hpasts.1, hpasts.2] at hpast
    rw [if_neg hpast.ne']
    refine ⟨ht, hk.voices, hsaid, .inl ?_, .nil⟩
    rcases hk.urgent with hu | ⟨he, -⟩
    · exact hu
    · rw [hpasts.1, hpasts.2] at he
      exact absurd he hpast.ne'

theorem sinkTaken_sender (s : AggSys) (e : AggEnv) (c : ℕ) : (sinkTaken s e c).sender =
    (sinkScan s e.sizes c).pong.elim s.sender fun payload => s.sender.move (.reply (frameNew opPong payload)) := by
  unfold sinkTaken
  dsimp only
  cases (sinkScan s e.sizes c).pong with
  | none => rfl
  | some payload => rfl

/-- the sink's bytes are read -/
theorem PingInv.taken {l : List PingSeen} (h : PingInv s l) {c : ℕ} (hc : s.reads c) :
    Voices isPong (sinkTaken s e c).sender ∧ (sinkTaken s e c).past = s.past ∧
      (sinkTaken s e c).sender.said isPong = (answered (l ++ s.pings (.agg e))).flatMap PingSeen.answer ∧
      ((sinkTaken s e c).agg.pendingCtrl = none ∨
        (sinkTaken s e c).agg.pendingCtrl.map Packet.body = lastAnswer (l ++ s.pings (.agg e))) ∧
      Served (l ++ s.pings (.agg e)) := by
  have hpings := s.pings_of_reads (e := e) hc
  have hserved : Served (l ++ s.pings (.agg e)) := by
    rw [hpings]
    exact h.served.read _ (h.slot.imp_left fun hn => by rw [hn]; rfl) _
  rw [answered_append, List.flatMap_append, ← h.said]
  cases hslot : s.agg.pendingCtrl with
  | some f =>
    have hpong : (sinkScan s e.sizes c).pong = none := by
      unfold sinkScan
      rw [hslot]
      exact sinkFrames_busy _ _ _
    have hsender : (sinkTaken s e c).sender = s.sender := by rw [sinkTaken_sender, hpong]; rfl
    have hnone : answered (s.pings (.agg e)) = [] := by rw [hpings, hslot]; exact sinkPings_busy _ _ _
    rw [hsender, hnone]
    refine ⟨h.voices, congrArg Sender.past hsender, (List.append_nil _).symm, .inr ?_, hserved⟩
    rw [show (sinkTaken s e c).agg.pendingCtrl = s.agg.pendingCtrl from congrArg Sender.urgent hsender, lastAnswer,
      answered_append, hnone, List.append_nil]
    exact h.slot.resolve_left (by rw [hslot]; nofun)
  | none =>
    have hans : (answered (s.pings (.agg e))).map PingSeen.payload = (sinkScan s e.sizes c).pong.toList := by
      unfold sinkScan
      rw [hpings, hslot]
      exact sinkPings_answered _ _
    cases hpong : (sinkScan s e.sizes c).pong with
    | none =>
      have hsender : (sinkTaken s e c).sender = s.sender := by rw [sinkTaken_sender, hpong]; rfl
      rw [hpong] at hans
      rw [hsender, List.map_eq_nil_iff.1 hans]
      exact ⟨h.voices, congrArg Sender.past hsender, (List.append_nil _).symm,
        .inl ((congrArg Sender.urgent hsender).trans hslot), hserved⟩
    | some payload =>
      have hsender : (sinkTaken s e c).sender = s.sender.move (.reply (frameNew opPong payload)) := by
        rw [sinkTaken_sender, hpong]
        rfl
      rw [hpong] at hans
      obtain ⟨x, hx, hpayload⟩ := List.map_eq_singleton_iff.1 hans
      have hanswer : x.answer = frameNew opPong payload := congrArg (frameNew opPong) hpayload
      rw [hsender, hx, Sender.said_reply h.agg.slots hslot]
      refine ⟨⟨fun f hf => ?_, h.voices.data⟩, congrArg Sender.past hsender, ?_, .inr ?_, hserved⟩
      · obtain rfl := Option.some.inj hf
        show isPong (frameNew opPong payload) = true
        rw [isPong_frame]
        decide
      · rw [List.flatMap_singleton, hanswer]
      · rw [show (sinkTaken s e c).agg.pendingCtrl = some (s.newFrame opPong payload) from congrArg Sender.urgent hsender,
          lastAnswer, answered_append, hx, List.getLast?_concat, Option.map_some, Option.map_some, hanswer]
        rfl

theorem PingInv.agg_step {l : List PingSeen} (h : PingInv s l) (hs : aggStep conf s e = some t) :
    PingInv t (if t.past.length = s.past.length then l ++ s.pings (.agg e) else []) := by
  have ht := h.agg.step hs
  by_cases hread : ∃ c, s.reads c
  · obtain ⟨c, hc⟩ := hread
    obtain ⟨hvoices, hpast, hsaid, hslot, hserved⟩ := h.taken (e := e) hc
    obtain ⟨⟨evs, hpc⟩, hsink⟩ := hc
    simp only [aggStep, hpc, handleEvent, Bool.false_eq_true, if_false, if_true, hsink, ne_eq, not_true_eq_false,
      Option.some.injEq] at hs
    obtain ⟨-, htaken, -⟩ := sinkTaken_moves (Q := fun _ _ => True) e hsink fun _ _ _ => trivial
    rw [sinkReadAndHandle_eq] at hs
    have hclosed : ∀ u : AggSys, u.agg.sink = some c → u.past = s.past → t.sender = (closeSink u).sender →
        PingInv t (if t.past.length = s.past.length then l ++ s.pings (.agg e) else []) := by
      intro u hu hup htu
      rw [closeSink_sender hu] at htu
      have hgrow : t.past = s.past ++ [u.wire] := hup ▸ congrArg Sender.past htu
      rw [if_neg (by rw [hgrow, List.length_append, List.length_singleton]; omega)]
      refine ⟨ht, ?_, ?_, .inl (congrArg Sender.urgent htu), .nil⟩
      · rw [htu]; exact .of_detach _
      · rw [htu]; rfl
    split at hs
    · rename_i code _
      simp only [Bool.false_eq_true, if_false] at hs
      generalize hu : sendCloseBestEffort (sinkTaken s e c) e.sends code = u at hs
      exact hclosed u (hu ▸ htaken) (hu ▸ hpast) (by rw [← hs]; rfl)
    · dsimp only at hs
      split_ifs at hs
      · subst hs
        rw [if_pos (congrArg List.length hpast)]
        exact ⟨ht, hvoices, hsaid, hslot, hserved⟩
      · exact hclosed (sinkTaken s e c) htaken hpast (by rw [← hs]; rfl)
  · have hno : ∀ c, ¬ s.reads c := fun c hc => hread ⟨c, hc⟩
    rw [s.pings_of_not_reads hno, List.append_nil]
    have hmoves := (aggStep_frameMoves h.agg.slots h.agg.at_pc hs).1
    exact h.quiet ht (hmoves.said_kept (fun _ _ hm => hm.silent hno) h.agg.slots h.voices)

/-- **What was said to the sink**, written or still in the slot, are the PONGs of the PINGs that found the slot free. -/
theorem PingInv.step {p q : PingSys} {a : AggAct} (h : PingInv p.sys p.pings) (hs : pingStep conf p a = some q) :
    PingInv q.sys q.pings := by
  unfold pingStep at hs
  rw [Option.map_eq_some_iff] at hs
  obtain ⟨t, ht, rfl⟩ := hs
  cases a with
  | agg e => exact h.agg_step ht
  | others conn dq cq park =>
    have hagg := h.agg.act ht
    simp only [aggSysStep, Option.some.injEq] at ht
    subst ht
    dsimp only
    rw [if_pos rfl, show p.sys.pings (.others conn dq cq park) = [] from rfl, List.append_nil]
    exact ⟨hagg, h.voices, h.said, h.slot, h.served⟩

def PingSys.start (conn : ℕ → Conn) (dataQueue ctrlQueue : Queue Msg) (park : List ℕ) : PingSys :=
  ⟨.start conn dataQueue ctrlQueue park, []⟩

theorem PingInv.start (conn : ℕ → Conn) (dataQueue ctrlQueue : Queue Msg) (park : List ℕ) :
    PingInv (AggSys.start conn dataQueue ctrlQueue park) [] :=
  ⟨.start conn dataQueue ctrlQueue park, ⟨nofun, nofun⟩, rfl, .inl rfl, .nil⟩

/-- **The PONGs a sink gets.** In every run of the thread among the others, whenever the control slot is empty the PONGs
written to the sink are those of the PINGs that found the slot free. If there was a PING, the last PONG is that of the
last of these, and every PING that was left out found an earlier one's PONG in the slot. -/
theorem pongs_last (conf : ServerConfig) (conn : ℕ → Conn) (dataQueue ctrlQueue : Queue Msg) (park : List ℕ)
    (p : PingSys) (h : Reachable (pingStep conf) (PingSys.start conn dataQueue ctrlQueue park) p)
    (hidle : p.sys.agg.pendingCtrl = none) :
    p.sys.pongBytes = (answered p.pings).flatMap PingSeen.answer ∧
      (p.pings ≠ [] → ∃ a x b w, p.pings = a ++ x :: b ∧ x.slot = none ∧ (∀ y ∈ b, y.slot = some x.answer) ∧
        p.sys.pongBytes = w ++ x.answer) ∧
      ∀ a y b, p.pings = a ++ y :: b → y.slot ≠ none →
        ∃ c x d, a = c ++ x :: d ∧ x.slot = none ∧ y.slot = some x.answer := by
  have hinv : PingInv p.sys p.pings := h.invariant (P := fun p => PingInv p.sys p.pings)
    (.start conn dataQueue ctrlQueue park) fun _ _ _ hi _ hs => hi.step hs
  have hbytes : p.sys.pongBytes = (answered p.pings).flatMap PingSeen.answer := by
    have howed : p.sys.sender.owed = [] := by
      unfold Sender.owed
      rw [show p.sys.sender.urgent = none from hidle]
      rfl
    rw [← hinv.said, Sender.said, howed, List.append_nil]
    rfl
  refine ⟨hbytes, fun hne => ?_, fun a y b hl hy => hinv.served.left hl hy⟩
  obtain ⟨a, x, b, hl, hx, hb, hans⟩ := hinv.served.last.resolve_left hne
  refine ⟨a, x, b, (answered a).flatMap PingSeen.answer, hl, hx, hb, ?_⟩
  rw [hbytes, hans, List.flatMap_append, List.flatMap_singleton]

/-! ### Two PINGs in one read -/

/-- sink 7 is handed over with the bytes of two PINGs in its socket -/
def twoPings : PingSys :=
  .start (fun c => { freshConn c with sock := ⟨[0x89, 0x81, 1, 2, 3, 4, 0x40, 0x89, 0x81, 1, 2, 3, 4, 0x43], .open⟩ })
    ⟨[], false⟩ ⟨[msgNewSinkAdd 7], false⟩ []

/-- the sink is read, and the PONG goes out in two pieces -/
def twoPingsRun : List AggAct := List.replicate 22 (.agg ⟨[.sent 2, .again], [], .events [.conn 7 false true]⟩)

theorem pongs_last_twoPings : ∃ p, exec (pingStep smallConf) twoPings twoPingsRun = some p ∧
    p.pings = [⟨[0x41], none⟩, ⟨[0x42], some [0x8A, 1, 0x41]⟩] ∧
    ∃ a x b w, p.pings = a ++ x :: b ∧ x.slot = none ∧ (∀ y ∈ b, y.slot = some x.answer) ∧
      p.sys.pongBytes = w ++ x.answer := by
  have hrun : (exec (pingStep smallConf) twoPings twoPingsRun).map (fun p => (p.pings, p.sys.agg.pendingCtrl)) =
      some ([⟨[0x41], none⟩, ⟨[0x42], some [0x8A, 1, 0x41]⟩], none) := by decide +kernel
  rw [Option.map_eq_some_iff] at hrun
  obtain ⟨p, hp, hpair⟩ := hrun
  obtain ⟨hpings, hidle⟩ := Prod.mk.inj hpair
  have hreach : Reachable (pingStep smallConf) twoPings p := .of_exec (allOk_true _ _) hp
  have hne : p.pings ≠ [] := by
    rw [hpings]
    nofun
  exact ⟨p, hp, hpings, (pongs_last smallConf _ _ _ _ p hreach hidle).2.1 hne⟩

/-- **The second PING is not answered.** The control slot is empty again, and the last PONG written is not that of the
last PING. -/
theorem second_ping_unanswered : ∃ p, Reachable (pingStep smallConf) twoPings p ∧ p.sys.agg.pendingCtrl = none ∧
    ∃ a x, p.pings = a ++ [x] ∧ p.sys.pongBytes ≠ [] ∧ ¬ ∃ w, p.sys.pongBytes = w ++ x.answer := by
  have hrun : (exec (pingStep smallConf) twoPings twoPingsRun).map
      (fun p => (p.pings, p.sys.agg.pendingCtrl, p.sys.pongBytes)) =
      some ([⟨[0x41], none⟩, ⟨[0x42], some [0x8A, 1, 0x41]⟩], none, [0x8A, 1, 0x41]) := by decide +kernel
  rw [Option.map_eq_some_iff] at hrun
  obtain ⟨p, hp, htriple⟩ := hrun
  obtain ⟨hpings, hpair⟩ := Prod.mk.inj htriple
  obtain ⟨hidle, hbytes⟩ := Prod.mk.inj hpair
  refine ⟨p, .of_exec (allOk_true _ _) hp, hidle, [⟨[0x41], none⟩], _, hpings, by rw [hbytes]; nofun, ?_⟩
  rintro ⟨w, hw⟩
  have hlast := congrArg List.getLast? (hbytes.symm.trans hw)
  rw [show (⟨[0x42], some [0x8A, 1, 0x41]⟩ : PingSeen).answer = [0x8A, 1] ++ [0x42] from rfl, ← List.append_assoc,
    List.getLast?_concat] at hlast
  exact absurd hlast (by decide)

end WsServer
