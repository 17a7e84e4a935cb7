/-
`aggPump` of `src/agg.c` on its own: no other thread runs while it does, and the sink takes every byte.

`Agg/Agg.lean` cuts the function into steps of the thread; here it is one loop, for any low watermark, and
`aggPump_steps` says that the steps of the thread are those of the loop.

- `Accepts`: every `send` takes something, and there are enough of them.
- `pumpTurn_moves_on`: one turn of the loop takes one message and at most one connection.
- `aggPump_drains`: the loop ends with everything sent and every parked connection resumed.
-/
import Mathlib
import WsServer.Core.Machine
import WsServer.Agg.Steps

namespace WsServer

open Ws Packets Machine

/-! ## The function -/

/-- `none` where the connection holds no message and NULL would be pushed -/
def resumeParked (s : AggSys) (c : ℕ) : Option AggSys :=
  (s.conn c).pendingMsg.map fun m =>
    let s := { s with dataQueue := push s.dataQueue m }
    let s := { s with conn := Function.update s.conn c { s.conn c with pendingMsg := none } }
    { s with conn := Function.update s.conn c (epollAdd (s.conn c)) }

/-- the part of a turn between the flush and the `trypop`: the connections resumed, and the state -/
def pumpResume (low : ℕ) (s : AggSys) : Option (List ℕ × AggSys) :=
  if queueSize s.dataQueue ≤ low then
    match s.park with
    | [] => some ([], s)
    | c :: park => (resumeParked { s with park := park } c).map fun s => ([c], s)
  else some ([], s)

/-- `aggPump`, as many turns as `fuel` allows: the connections resumed, in order, and the state it returns in -/
def aggPump (low : ℕ) : ℕ → (ℕ → AggSys → List SendRes) → AggSys → Option (List ℕ × AggSys)
  | 0, _, _ => none
  | fuel + 1, env, s =>
    if s.agg.sink = none then some ([], s)
    else
      let r := sinkFlush s (env 0 s)
      if r.1 < 0 then some ([], closeSink r.2)
      else if r.1 = 0 then some ([], r.2)
      else
        match pumpResume low r.2 with
        | none => none
        | some (resumed, s1) =>
          match trypop s1.dataQueue with
          | none => some (resumed, s1)
          | some (m, q) =>
            (aggPump low fuel (fun i => env (i + 1)) (takeMessage { s1 with dataQueue := q } m)).map fun r =>
              (resumed ++ r.1, r.2)

/-! ## A sink that takes every byte -/

/-- what is left of a frame -/
def rest (slot : Option Frame) (off : ℕ) : Log UInt8 := slot.elim [] fun f => f.mark.drop off

/-- every call takes something, and there are calls for every byte left -/
def Accepts (s : AggSys) (sends : List SendRes) : Prop :=
  (∀ r ∈ sends, ∃ n, r = .sent n) ∧
    (rest s.agg.pendingCtrl s.agg.pendingCtrlOff).length + (rest s.agg.pending s.agg.pendingOff).length ≤ sends.length

theorem sendFrom_accepts {sends : List SendRes} (hsent : ∀ r ∈ sends, ∃ n, r = .sent n) (len off : ℕ)
    (hlen : len - off ≤ sends.length) :
    ∃ left, sendFrom sends len off = (1, max len off, left) ∧ (∀ r ∈ left, ∃ n, r = .sent n) ∧
      sends.length ≤ left.length + (len - off) := by
  induction sends generalizing off with
  | nil =>
    have hle : len ≤ off := Nat.le_of_sub_eq_zero (Nat.le_zero.1 hlen)
    rw [sendFrom_le _ hle, max_eq_right hle]
    exact ⟨[], rfl, hsent, Nat.zero_le _⟩
  | cons r rs ih =>
    rcases Nat.lt_or_ge off len with hlt | hle
    · obtain ⟨n, rfl⟩ := hsent r List.mem_cons_self
      rw [sendFrom_cons _ _ hlt]
      rw [List.length_cons] at hlen
      obtain ⟨left, heq, hleft, hrest⟩ := ih (fun r hr => hsent r (List.mem_cons_of_mem _ hr))
        (off + min (max 1 n) (len - off)) (by omega)
      have hmax : max len (off + min (max 1 n) (len - off)) = max len off := by omega
      refine ⟨left, hmax ▸ heq, hleft, ?_⟩
      rw [List.length_cons]
      omega
    · rw [sendFrom_le _ hle, max_eq_right hle]
      exact ⟨r :: rs, rfl, hsent, Nat.le_add_right _ _⟩

/-- the flush that ends with both slots empty -/
structure Flushed (s t : AggSys) : Prop where
  wire : t.wire = s.wire ++ rest s.agg.pendingCtrl s.agg.pendingCtrlOff ++ rest s.agg.pending s.agg.pendingOff
  sink : t.agg.sink = s.agg.sink
  src : t.agg.src = s.agg.src
  pending : t.agg.pending = none
  pendingCtrl : t.agg.pendingCtrl = none
  conn : t.conn = s.conn
  dataQueue : t.dataQueue = s.dataQueue
  park : t.park = s.park
  encoded : t.encoded = s.encoded

theorem write_rest (s : AggSys) (f : Frame) (off : ℕ) :
    (s.write f off (max f.body.length off)).wire = s.wire ++ rest (some f) off := by
  have hall : (f.mark.drop off).take (max f.body.length off - off) = f.mark.drop off := by
    apply List.take_of_length_le
    rw [List.length_drop, length_mark]
    omega
  exact congrArg (s.wire ++ ·) hall

theorem length_rest (f : Frame) (off : ℕ) : (rest (some f) off).length = f.body.length - off := by
  show (f.mark.drop off).length = _
  rw [List.length_drop, length_mark]

/-- **A sink that takes every byte takes both frames.** -/
theorem sinkFlush_accepts {s : AggSys} {sends : List SendRes} (h : Accepts s sends) :
    (sinkFlush s sends).1 = 1 ∧ Flushed s (sinkFlush s sends).2 := by
  obtain ⟨hsent, hlen⟩ := h
  have hctrl : ∃ t left, sinkFlushCtrl s sends = (1, t, left) ∧ (∀ r ∈ left, ∃ n, r = .sent n) ∧
      (rest s.agg.pending s.agg.pendingOff).length ≤ left.length ∧
      t = { s with
        wire := s.wire ++ rest s.agg.pendingCtrl s.agg.pendingCtrlOff
        agg := t.agg } ∧ t.agg.pendingCtrl = none ∧ t.agg.pending = s.agg.pending ∧ t.agg.pendingOff = s.agg.pendingOff ∧
      t.agg.sink = s.agg.sink ∧ t.agg.src = s.agg.src := by
    unfold sinkFlushCtrl
    cases hf : s.agg.pendingCtrl with
    | none =>
      rw [hf] at hlen
      refine ⟨s, sends, rfl, hsent, (Nat.le_add_left _ _).trans hlen, ?_, hf, rfl, rfl, rfl, rfl⟩
      rw [show rest none s.agg.pendingCtrlOff = [] from rfl, List.append_nil]
    | some f =>
      rw [hf, length_rest] at hlen
      obtain ⟨left, heq, hleft, hmore⟩ := sendFrom_accepts hsent f.body.length s.agg.pendingCtrlOff (by omega)
      dsimp only
      rw [heq, if_pos rfl]
      refine ⟨_, left, rfl, hleft, by omega, ?_, rfl, rfl, rfl, rfl, rfl⟩
      rw [← write_rest]
      rfl
  obtain ⟨t, left, heq, hleft, hroom, ht, hfree, hpend, hoff, hsink, hsrc⟩ := hctrl
  unfold sinkFlush
  rw [heq]
  dsimp only
  rw [if_neg (by decide)]
  unfold sinkFlushData
  cases hf : t.agg.pending with
  | none =>
    rw [hpend] at hf
    refine ⟨rfl, ⟨?_, hsink, hsrc, hpend.trans hf, hfree, ?_, ?_, ?_, ?_⟩⟩
    · rw [hf, ht]
      exact (List.append_nil _).symm
    all_goals rw [ht]
  | some f =>
    rw [hpend] at hf
    rw [hf, length_rest] at hroom
    obtain ⟨left', heq', -⟩ := sendFrom_accepts hleft f.body.length s.agg.pendingOff hroom
    dsimp only
    rw [hoff, heq', if_pos rfl]
    refine ⟨rfl, ⟨?_, hsink, hsrc, rfl, hfree, ?_, ?_, ?_, ?_⟩⟩
    · show (t.write f s.agg.pendingOff (max f.body.length s.agg.pendingOff)).wire = _
      rw [write_rest, hf, ht]
    all_goals
      rw [ht]
      rfl

/-! ## One turn -/

/-- a connection after it is resumed -/
def resumed (c : Conn) : Conn := epollAdd { c with pendingMsg := none }

theorem resumeParked_spec {s : AggSys} {c : ℕ} {m : Msg} (hm : (s.conn c).pendingMsg = some m) :
    resumeParked s c = some { s with
      dataQueue := push s.dataQueue m
      conn := Function.update s.conn c (resumed (s.conn c)) } := by
  unfold resumeParked resumed
  rw [hm]
  simp only [Option.map_some, Function.update_self, Function.update_idem]

/-- the messages the connections `cs` hold, in order -/
def heldBy (conn : ℕ → Conn) (cs : List ℕ) : List Msg := cs.filterMap fun c => (conn c).pendingMsg

/-- between flush and `trypop`: at most the first parked connection is resumed, and none is left where nothing is queued -/
structure Fed (s : AggSys) (rs : List ℕ) (t : AggSys) : Prop where
  park : s.park = rs ++ t.park
  items : t.dataQueue.items = s.dataQueue.items ++ heldBy s.conn rs
  conn : ∀ x, t.conn x = if x ∈ rs then resumed (s.conn x) else s.conn x
  same : t = { s with dataQueue := t.dataQueue, conn := t.conn, park := t.park }
  one : (heldBy s.conn rs).length = rs.length
  none_left : t.dataQueue.items = [] → t.park = []

theorem pumpResume_spec (low : ℕ) {s : AggSys} (hheld : ∀ c ∈ s.park, (s.conn c).pendingMsg.isSome) :
    ∃ rs t, pumpResume low s = some (rs, t) ∧ Fed s rs t := by
  unfold pumpResume
  by_cases hlow : queueSize s.dataQueue ≤ low
  · rw [if_pos hlow]
    cases hpark : s.park with
    | nil =>
      refine ⟨[], s, rfl, ⟨rfl, (List.append_nil _).symm, fun x => ?_, rfl, rfl, fun _ => hpark⟩⟩
      rw [if_neg List.not_mem_nil]
    | cons c park =>
      obtain ⟨m, hm⟩ := Option.isSome_iff_exists.1 (hheld c (hpark ▸ List.mem_cons_self))
      dsimp only
      have hspec := @resumeParked_spec { s with park := park } c m hm
      rw [hspec]
      have hone : heldBy s.conn [c] = [m] := by
        unfold heldBy
        rw [List.filterMap_cons, hm, List.filterMap_nil]
      refine ⟨[c], _, rfl, ⟨hpark, ?_, fun x => ?_, rfl, ?_, fun hnil => ?_⟩⟩
      · rw [hone]
        rfl
      · dsimp only
        by_cases hx : x = c
        · subst hx
          rw [Function.update_self, if_pos List.mem_cons_self]
        · rw [Function.update_of_ne hx, if_neg (by simpa using hx)]
      · rw [hone]
        rfl
      · exact absurd hnil (List.append_ne_nil_of_right_ne_nil _ (List.cons_ne_nil m []))
  · rw [if_neg hlow]
    refine ⟨[], s, rfl, ⟨rfl, (List.append_nil _).symm, fun x => ?_, rfl, rfl, fun hnil => ?_⟩⟩
    · rw [if_neg List.not_mem_nil]
    · -- above the low watermark something is queued
      have hzero : queueSize s.dataQueue = 0 := congrArg List.length hnil
      omega

/-- a message taken: its frame is the pending one, from its first byte on -/
theorem takeMessage_fields (s : AggSys) (m : Msg) :
    ∃ f, IsFrameOf m f.body ∧ (takeMessage s m).encoded = s.encoded ++ [(m, f)] ∧
      (takeMessage s m).agg.pending = some f ∧ (takeMessage s m).agg.pendingOff = 0 ∧
      (takeMessage s m).agg.pendingCtrl = s.agg.pendingCtrl ∧ (takeMessage s m).agg.sink = s.agg.sink ∧
      (takeMessage s m).conn = s.conn ∧ (takeMessage s m).dataQueue = s.dataQueue ∧ (takeMessage s m).park = s.park ∧
      (takeMessage s m).wire = s.wire :=
  ⟨_, ⟨_, rfl⟩, rfl, rfl, rfl, rfl, rfl, rfl, rfl, rfl, rfl⟩

/-! ## The whole loop -/

/-- what `aggPump` leaves: nothing queued, nothing parked, nothing pending; behind what was left of the two frames, one
frame for each queued message and then for each parked one; every parked connection resumed, and no other touched -/
structure Pumped (s t : AggSys) (es : List (Msg × Frame)) : Prop where
  items : t.dataQueue.items = []
  park : t.park = []
  pending : t.agg.pending = none
  pendingCtrl : t.agg.pendingCtrl = none
  sink : t.agg.sink = s.agg.sink
  order : es.map Prod.fst = s.dataQueue.items ++ heldBy s.conn s.park
  frames : ∀ p ∈ es, IsFrameOf p.1 p.2.body
  encoded : t.encoded = s.encoded ++ es
  wire : t.wire = s.wire ++ rest s.agg.pendingCtrl s.agg.pendingCtrlOff ++ rest s.agg.pending s.agg.pendingOff ++
    es.flatMap fun p => p.2.mark
  conn : ∀ x, t.conn x = if x ∈ s.park then resumed (s.conn x) else s.conn x

variable {low : ℕ} {s t : AggSys}

/-- a turn that finds nothing queued is the last -/
theorem Pumped.last {u : AggSys} {rs : List ℕ} (hflush : Flushed s u) (hfed : Fed u rs t)
    (hnil : t.dataQueue.items = []) : rs = [] ∧ s.park = [] ∧ Pumped s t [] := by
  have hitems := hfed.items
  rw [hnil] at hitems
  obtain ⟨hu, hrs⟩ := List.append_eq_nil_iff.1 hitems.symm
  have hempty : rs = [] := by
    rw [← List.length_eq_zero_iff, ← hfed.one, hrs]
    rfl
  subst hempty
  have hpark : s.park = [] := by
    rw [← hflush.park, hfed.park, hfed.none_left hnil]
    rfl
  have hsame := hfed.same
  refine ⟨rfl, hpark, ⟨hnil, hfed.none_left hnil, ?_, ?_, ?_, ?_, List.forall_mem_nil _, ?_, ?_, fun x => ?_⟩⟩
  · rw [hsame]
    exact hflush.pending
  · rw [hsame]
    exact hflush.pendingCtrl
  · rw [hsame]
    exact hflush.sink
  · rw [hpark, ← hflush.dataQueue, hu]
    rfl
  · rw [hsame, List.append_nil]
    exact hflush.encoded
  · rw [hsame]
    exact hflush.wire.trans (List.append_nil _).symm
  · rw [hfed.conn, if_neg List.not_mem_nil, hpark, if_neg List.not_mem_nil, hflush.conn]

theorem heldBy_congr {conn conn' : ℕ → Conn} {cs : List ℕ} (h : ∀ c ∈ cs, conn' c = conn c) : heldBy conn' cs = heldBy conn cs :=
  List.filterMap_congr fun c hc => by rw [h c hc]

/-- a turn that takes a message, and the turns behind it -/
theorem Pumped.turn {u v : AggSys} {rs : List ℕ} {m : Msg} {q : Queue Msg} (hnodup : s.park.Nodup) (hflush : Flushed s u)
    (hfed : Fed u rs v) (hq : trypop v.dataQueue = some (m, q)) {es : List (Msg × Frame)}
    (hgo : Pumped (takeMessage { v with dataQueue := q } m) t es) : ∃ f, Pumped s t ((m, f) :: es) := by
  obtain ⟨f, hf, hencoded, hpending, hoff, hctrl, hsink, hconn, hqueue, hpark, hwire⟩ :=
    takeMessage_fields { v with dataQueue := q } m
  dsimp only at hencoded hctrl hsink hconn hqueue hpark hwire
  have hsame := hfed.same
  have hparks : s.park = rs ++ v.park := hflush.park ▸ hfed.park
  rw [hparks] at hnodup
  obtain ⟨-, -, hapart⟩ := List.nodup_append.1 hnodup
  have hconnv : ∀ x, v.conn x = if x ∈ rs then resumed (s.conn x) else s.conn x := by
    intro x
    rw [hfed.conn, hflush.conn]
  have hout : ∀ c ∈ v.park, c ∉ rs := fun c hc hr => hapart c hr c hc rfl
  refine ⟨f, ⟨hgo.items, hgo.park, hgo.pending, hgo.pendingCtrl, ?_, ?_, ?_, ?_, ?_, ?_⟩⟩
  · rw [hgo.sink, hsink, hsame]
    exact hflush.sink
  · have horder := hgo.order
    rw [hqueue, hpark, hconn] at horder
    have hheld : heldBy v.conn v.park = heldBy s.conn v.park := by
      apply heldBy_congr
      intro c hc
      rw [hconnv, if_neg (hout c hc)]
    have hitems : m :: q.items = s.dataQueue.items ++ heldBy s.conn rs := by
      rw [← (trypop_eq_some.1 hq).1, hfed.items, hflush.dataQueue, hflush.conn]
    rw [List.map_cons, horder, hheld, hparks]
    unfold heldBy at *
    rw [List.filterMap_append, ← List.append_assoc, ← hitems, List.cons_append]
  · exact List.forall_mem_cons.2 ⟨hf, hgo.frames⟩
  · rw [hgo.encoded, hencoded, List.append_assoc, hsame]
    exact congrArg (· ++ _) hflush.encoded
  · have hw := hgo.wire
    have hfree : v.agg.pendingCtrl = none := by
      rw [hsame]
      exact hflush.pendingCtrl
    have hwirev : v.wire = u.wire := by rw [hsame]
    have hnone : rest (none : Option Frame) (takeMessage { v with dataQueue := q } m).agg.pendingCtrlOff = [] := rfl
    have hall : rest (some f) 0 = f.mark := rfl
    rw [hwire, hpending, hoff, hctrl, hfree, hnone, hall, hwirev, List.append_nil, hflush.wire] at hw
    rw [hw, List.flatMap_cons, List.append_assoc]
  · intro x
    rw [hgo.conn, hpark, hconn, hparks]
    by_cases hx : x ∈ v.park
    · rw [if_pos hx, if_pos (List.mem_append_right _ hx), hconnv, if_neg (hout x hx)]
    · rw [if_neg hx, hconnv]
      simp only [List.mem_append, hx, or_false]

/-- the induction: every turn but the last takes one message of those queued and parked -/
theorem aggPump_run {env : ℕ → AggSys → List SendRes} (henv : ∀ i s, Accepts s (env i s)) {n : ℕ}
    (hn : s.dataQueue.items.length + s.park.length = n) (hsink : s.agg.sink.isSome) (hnodup : s.park.Nodup)
    (hheld : ∀ c ∈ s.park, (s.conn c).pendingMsg.isSome) :
    ∃ t es, (∀ fuel, n < fuel → aggPump low fuel env s = some (s.park, t)) ∧ Pumped s t es := by
  induction n using Nat.strong_induction_on generalizing s env with
  | _ n ih =>
  obtain ⟨hrc, hflush⟩ := sinkFlush_accepts (henv 0 s)
  have hheldu : ∀ c ∈ (sinkFlush s (env 0 s)).2.park, ((sinkFlush s (env 0 s)).2.conn c).pendingMsg.isSome := by
    rw [hflush.park, hflush.conn]
    exact hheld
  obtain ⟨rs, v, hresume, hfed⟩ := pumpResume_spec low hheldu
  have hturn : ∀ fuel, aggPump low (fuel + 1) env s = match trypop v.dataQueue with
      | none => some (rs, v)
      | some (m, q) =>
        (aggPump low fuel (fun i => env (i + 1)) (takeMessage { v with dataQueue := q } m)).map fun r => (rs ++ r.1, r.2) := by
    intro fuel
    rw [aggPump]
    dsimp only
    rw [if_neg (Option.isSome_iff_ne_none.1 hsink), hrc, if_neg (by decide), if_neg (by decide), hresume]
  have hparks : s.park = rs ++ v.park := hflush.park ▸ hfed.park
  cases hq : trypop v.dataQueue with
  | none =>
    obtain ⟨hrs, hpark, hlast⟩ := Pumped.last hflush hfed (trypop_eq_none.1 hq)
    refine ⟨v, [], fun fuel hfuel => ?_, hlast⟩
    obtain ⟨fuel, rfl⟩ := Nat.exists_eq_succ_of_ne_zero (Nat.ne_of_gt (Nat.zero_lt_of_lt hfuel))
    rw [hturn, hq, hrs, hpark]
  | some mq =>
    obtain ⟨m, q⟩ := mq
    obtain ⟨f, -, -, -, -, -, hsink', hconn', hqueue', hpark', -⟩ := takeMessage_fields { v with dataQueue := q } m
    dsimp only at hsink' hconn' hqueue' hpark'
    have hless : q.items.length + v.park.length < n := by
      have hitems := congrArg List.length hfed.items
      have hparks' := congrArg List.length hparks
      rw [(trypop_eq_some.1 hq).1, List.length_cons, List.length_append, hfed.one, hflush.dataQueue] at hitems
      rw [List.length_append] at hparks'
      omega
    have hnodup' := hnodup
    rw [hparks] at hnodup'
    obtain ⟨-, hnodupv, hapart⟩ := List.nodup_append.1 hnodup'
    obtain ⟨t, es, hrun, hpumped⟩ := @ih _ hless (takeMessage { v with dataQueue := q } m) (fun i => env (i + 1))
      (fun i s => henv (i + 1) s) (by rw [hqueue', hpark'])
      (by rw [hsink', hfed.same, hflush.sink]; exact hsink) (by rw [hpark']; exact hnodupv) (fun c hc => by
        rw [hpark'] at hc
        rw [hconn', hfed.conn, hflush.conn, if_neg fun hr => hapart c hr c hc rfl]
        exact hheld c (hparks ▸ List.mem_append_right rs hc))
    obtain ⟨f, hall⟩ := Pumped.turn hnodup hflush hfed hq hpumped
    refine ⟨t, _, fun fuel hfuel => ?_, hall⟩
    obtain ⟨fuel, rfl⟩ := Nat.exists_eq_succ_of_ne_zero (Nat.ne_of_gt (Nat.zero_lt_of_lt hfuel))
    rw [hturn, hq]
    dsimp only
    rw [hrun fuel (by omega), hpark', hparks]
    rfl

/-- **The pump drains.** With a sink that takes every byte and no other thread at work, `aggPump` returns, after one turn
more than there are messages queued and parked; it resumed the parked connections in their order, each once, and left
what `Pumped` says. -/
theorem aggPump_drains (low : ℕ) (s : AggSys) (env : ℕ → AggSys → List SendRes) (henv : ∀ i s, Accepts s (env i s))
    (hsink : s.agg.sink.isSome) (hnodup : s.park.Nodup) (hheld : ∀ c ∈ s.park, (s.conn c).pendingMsg.isSome) :
    ∃ t es, (∀ fuel, s.dataQueue.items.length + s.park.length < fuel → aggPump low fuel env s = some (s.park, t)) ∧
      Pumped s t es :=
  aggPump_run henv rfl hsink hnodup hheld

/-- two connections parked behind one message, and a sink that takes byte by byte -/
def parkedSys : AggSys :=
  let conn := fun id => { freshConn id with reg := .absent, pendingMsg := some (msgNewData id opText ⟨0, 0⟩ [0x61]) }
  let s := AggSys.start conn (push createQueue (msgNewData 1 opBin ⟨0, 0⟩ [0x62])) createQueue [7, 9]
  { s with agg := { s.agg with sink := some 3 } }

def byteByByte (s : AggSys) : List SendRes :=
  List.replicate ((rest s.agg.pendingCtrl s.agg.pendingCtrlOff).length + (rest s.agg.pending s.agg.pendingOff).length)
    (.sent 1)

theorem byteByByte_accepts (s : AggSys) : Accepts s (byteByByte s) := by
  unfold byteByByte
  refine ⟨fun r hr => ⟨1, List.eq_of_mem_replicate hr⟩, ?_⟩
  rw [List.length_replicate]

theorem aggPump_drains_parked :
    ∃ t es, (∀ fuel, 1 + 2 < fuel → aggPump 0 fuel (fun _ => byteByByte) parkedSys = some ([7, 9], t)) ∧
      Pumped parkedSys t es :=
  aggPump_drains 0 parkedSys (fun _ => byteByByte) (fun _ => byteByByte_accepts) (by decide) (by decide)
    (fun _ _ => rfl)

/-! ## The steps of the thread -/

variable {conf : ServerConfig} {s0 : AggSys}

/-- a step of the thread where `epoll_wait` and `recv` are not called -/
def sending (sends : List SendRes) : AggEnv := ⟨sends, [], .interrupted⟩

theorem aggStep_pump (hpc : s.pc = .pump) (sends : List SendRes) :
    aggStep conf s (sending sends) =
      if s.agg.sink = none then some { s with pc := .exitData }
      else if (sinkFlush s sends).1 < 0 then some { closeSink (sinkFlush s sends).2 with pc := .exitData }
      else if (sinkFlush s sends).1 = 0 then some { (sinkFlush s sends).2 with pc := .exitData }
      else some { (sinkFlush s sends).2 with pc := .mark } := by
  unfold aggStep
  rw [hpc]
  rfl

theorem pumpResume_steps {rs : List ℕ} (h : Reachable (aggStep conf) s0 { s with pc := .mark })
    (hres : pumpResume conf.lowWatermark s = some (rs, t)) : Reachable (aggStep conf) s0 { t with pc := .take } := by
  unfold pumpResume at hres
  by_cases hlow : queueSize s.dataQueue ≤ conf.lowWatermark
  · rw [if_pos hlow] at hres
    have hmark : aggStep conf { s with pc := .mark } (sending []) = some { s with pc := .unpark } := by
      simp only [aggStep, if_pos hlow]
    have hunpark := h.step (sending []) trivial hmark
    cases hpark : s.park with
    | nil =>
      rw [hpark] at hres
      obtain ⟨-, rfl⟩ := Prod.mk.inj (Option.some.inj hres)
      exact hunpark.step (sending []) trivial (by simp only [aggStep, hpark])
    | cons c park =>
      rw [hpark] at hres
      obtain ⟨t', ht', heq⟩ := Option.map_eq_some_iff.1 hres
      obtain ⟨-, rfl⟩ := Prod.mk.inj heq
      obtain ⟨m, hm, rfl⟩ := Option.map_eq_some_iff.1 ht'
      have hpush := hunpark.step (t := { s with park := park, pc := .rpush c }) (sending []) trivial (by
        simp only [aggStep, hpark])
      have hclear := hpush.step (t := { s with park := park, dataQueue := push s.dataQueue m, pc := .rclear c })
        (sending []) trivial (by
          have hm' : (s.conn c).pendingMsg = some m := hm
          simp only [aggStep, hm', Option.map_some])
      exact (hclear.step (sending []) trivial rfl).step (sending []) trivial rfl
  · rw [if_neg hlow] at hres
    obtain ⟨-, rfl⟩ := Prod.mk.inj (Option.some.inj hres)
    exact h.step (sending []) trivial (by simp only [aggStep, if_neg hlow])

/-- **The loop is what the thread does** from the top of `aggPump` to its end. -/
theorem aggPump_steps {fuel : ℕ} {env : ℕ → AggSys → List SendRes} {rs : List ℕ} (hpc : s.pc = .pump)
    (h : Reachable (aggStep conf) s0 s) (hpump : aggPump conf.lowWatermark fuel env s = some (rs, t)) :
    Reachable (aggStep conf) s0 { t with pc := .exitData } := by
  induction fuel generalizing s env rs with
  | zero => cases hpump
  | succ fuel ih =>
    rw [aggPump] at hpump
    dsimp only at hpump
    by_cases hsink : s.agg.sink = none
    · rw [if_pos hsink] at hpump
      obtain ⟨-, rfl⟩ := Prod.mk.inj (Option.some.inj hpump)
      exact h.step (sending []) trivial (by rw [aggStep_pump hpc, if_pos hsink])
    rw [if_neg hsink] at hpump
    by_cases hneg : (sinkFlush s (env 0 s)).1 < 0
    · rw [if_pos hneg] at hpump
      obtain ⟨-, rfl⟩ := Prod.mk.inj (Option.some.inj hpump)
      exact h.step (sending (env 0 s)) trivial (by rw [aggStep_pump hpc, if_neg hsink, if_pos hneg])
    rw [if_neg hneg] at hpump
    by_cases hzero : (sinkFlush s (env 0 s)).1 = 0
    · rw [if_pos hzero] at hpump
      obtain ⟨-, rfl⟩ := Prod.mk.inj (Option.some.inj hpump)
      exact h.step (sending (env 0 s)) trivial (by
        rw [aggStep_pump hpc, if_neg hsink, if_neg hneg, if_pos hzero])
    rw [if_neg hzero] at hpump
    have hflush : Reachable (aggStep conf) s0 { (sinkFlush s (env 0 s)).2 with pc := .mark } :=
      h.step (sending (env 0 s)) trivial (by
        rw [aggStep_pump hpc, if_neg hsink, if_neg hneg, if_neg hzero])
    cases hres : pumpResume conf.lowWatermark (sinkFlush s (env 0 s)).2 with
    | none =>
      rw [hres] at hpump
      cases hpump
    | some r =>
      obtain ⟨resumed, v⟩ := r
      rw [hres] at hpump
      dsimp only at hpump
      have htake := pumpResume_steps hflush hres
      cases hq : trypop v.dataQueue with
      | none =>
        rw [hq] at hpump
        obtain ⟨-, rfl⟩ := Prod.mk.inj (Option.some.inj hpump)
        exact htake.step (sending []) trivial (by simp only [aggStep, hq])
      | some mq =>
        rw [hq] at hpump
        obtain ⟨r, hr, heq⟩ := Option.map_eq_some_iff.1 hpump
        obtain ⟨-, rfl⟩ := Prod.mk.inj heq
        have hloop := htake.step (t := takeMessage { v with dataQueue := mq.2 } mq.1) (sending []) trivial (by
          simp only [aggStep, hq]
          rfl)
        exact ih rfl hloop hr

end WsServer
