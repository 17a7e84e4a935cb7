/-
The end of the aggregator thread: what is left behind when it leaves its loop.

The state `s0` is the one in which both queues are shut down; from there on only the thread and the network move
(`Stopped`). `todo s0` are the messages that still have to reach the sink: the one whose frame is in the data slot, those
in dataQueue, the one in the thread's hands, those held by parked connections.

- `left_written`: if the thread leaves its loop only with an empty slot and an empty park list (`LeaveOk`), then with a
  sink that stays connected every message of `todo s0` is written to it in full.
- `exit_drops_pending`: the code looks at the sizes of the two queues only. A slow sink that blocks after dataQueue is
  empty loses the rest of the frame in the slot.
-/
import Mathlib
import WsServer.Agg.Wire

namespace WsServer

open Ws Packets Machine

variable {conf : ServerConfig} {s t u s0 : AggSys}

/-! ## What an operation does to the present sink -/

/-- the sink stays, and what was finished since is whole on its stream -/
def Kept (s t : AggSys) : Prop :=
  t.past = s.past ∧ t.agg.sink = s.agg.sink ∧ ∃ n, t.fates = s.fates ++ List.replicate n ⟨s.past.length, true⟩

/-- the sink is gone -/
def Closed (s t : AggSys) : Prop := s.agg.sink.isSome ∧ t.agg.sink = none ∧ s.past.length < t.past.length

theorem Kept.refl (s : AggSys) : Kept s s := ⟨rfl, rfl, 0, by simp⟩

theorem Kept.trans (h : Kept s t) (h' : Kept t u) : Kept s u := by
  obtain ⟨hp, hs, n, hf⟩ := h
  obtain ⟨hp', hs', n', hf'⟩ := h'
  refine ⟨hp'.trans hp, hs'.trans hs, n + n', ?_⟩
  rw [hf', hf, hp, List.append_assoc, List.replicate_add]

theorem Kept.closed (h : Kept s t) (h' : Closed t u) : Closed s u :=
  ⟨h.2.1 ▸ h'.1, h'.2.1, h.1 ▸ h'.2.2⟩

theorem closeSink_closed (h : s.agg.sink.isSome) : Closed s (closeSink s) := by
  obtain ⟨k, hk⟩ := Option.isSome_iff_exists.1 h
  refine ⟨h, closeSink_sink s, ?_⟩
  have hpast := congrArg Sender.past (closeSink_sender hk)
  rw [show (closeSink s).past = s.past ++ [s.wire] from hpast]
  simp

theorem freeSink_closed (h : s.agg.sink.isSome) (sends : List SendRes) : Closed s (freeSink s sends) := by
  unfold freeSink
  rw [if_pos h]
  exact closeSink_closed (s := sendCloseBestEffort s sends 1001) h

theorem freeSink_none (h : s.agg.sink = none) (sends : List SendRes) : freeSink s sends = s := by
  unfold freeSink
  simp [h]

theorem sinkFlushCtrl_kept (s : AggSys) (sends : List SendRes) : Kept s (sinkFlushCtrl s sends).2.1 := by
  unfold sinkFlushCtrl
  split
  · exact .refl s
  · dsimp only
    split_ifs
    · exact ⟨rfl, rfl, 0, by simp [AggSys.write]⟩
    · exact ⟨rfl, rfl, 0, by simp [AggSys.write]⟩

theorem sinkFlushData_kept (s : AggSys) (sends : List SendRes) : Kept s (sinkFlushData s sends).2 := by
  unfold sinkFlushData
  split
  · exact .refl s
  · dsimp only
    split_ifs
    · exact ⟨rfl, rfl, 1, rfl⟩
    · exact ⟨rfl, rfl, 0, by simp [AggSys.write]⟩

theorem sinkFlush_kept (s : AggSys) (sends : List SendRes) : Kept s (sinkFlush s sends).2 := by
  unfold sinkFlush
  dsimp only
  split_ifs
  · exact sinkFlushCtrl_kept s sends
  · exact (sinkFlushCtrl_kept s sends).trans (sinkFlushData_kept _ _)

theorem sinkTaken_kept (s : AggSys) (e : AggEnv) (k : ℕ) : Kept s (sinkTaken s e k) := by
  unfold sinkTaken
  dsimp only
  split
  · exact ⟨rfl, rfl, 0, by simp [AggSys.queuePong]⟩
  · exact ⟨rfl, rfl, 0, by simp⟩

theorem handleEvent_kept (s : AggSys) (e : AggEnv) (ev : AggEvent) :
    Kept s (handleEvent s e ev) ∨ Closed s (handleEvent s e ev) := by
  cases ev with
  | wake => exact .inl (.refl s)
  | timer => exact .inl (.refl s)
  | conn c hup inn =>
    simp only [handleEvent]
    split_ifs with hk hhup hinn hr
    · exact .inl (.refl s)
    · exact .inr (closeSink_closed (by rw [not_not.1 hk]; rfl))
    · have htaken := sinkTaken_kept s e c
      rw [sinkReadAndHandle_eq] at *
      split at *
      · contradiction
      · exact .inl htaken
    · have htaken := sinkTaken_kept s e c
      have hsink : (sinkTaken s e c).agg.sink.isSome := by rw [htaken.2.1, not_not.1 hk]; rfl
      rw [sinkReadAndHandle_eq]
      split
      · exact .inr (htaken.closed (closeSink_closed (s := sendCloseBestEffort _ _ _) hsink))
      · exact .inr (htaken.closed (closeSink_closed hsink))
    · exact .inl (.refl s)

/-! ## What has to be written -/

/-- the message in the thread's hands -/
def held (s : AggSys) : List Msg :=
  match s.pc with
  | .rpush c => (s.conn c).pendingMsg.toList
  | _ => []

/-- the messages in front of the data slot -/
def waiting (s : AggSys) : List Msg :=
  s.dataQueue.items ++ held s ++ s.park.filterMap fun c => (s.conn c).pendingMsg

/-- the messages that still have to reach the sink -/
def todo (s : AggSys) : List Msg := (s.encoded.drop s.fates.length).map Prod.fst ++ waiting s

/-- what the rest of the program guarantees when both queues are shut down: a connection is parked once, it is no sink
and will not become one, and only data messages are in dataQueue and held by connections -/
structure AtShutdown (s : AggSys) : Prop where
  data_shut : s.dataQueue.shutdown = true
  ctrl_shut : s.ctrlQueue.shutdown = true
  inside : s.pc ≠ .final ∧ s.pc ≠ .done
  exit_seen : s.pc = .exitCtrl true → s.dataQueue.items = []
  nodup : s.park.Nodup
  in_hand : ∀ c, s.pc.hand = some c → c ∉ s.park
  no_sink : ∀ c, c ∈ s.park ∨ s.pc.hand = some c → s.agg.sink ≠ some c ∧ ∀ m ∈ s.ctrlQueue.items, ¬ m.adds c
  data_only : ∀ m ∈ waiting s, m.kind = .MSG_DATA

/-- workers and reactor are stopped: only the thread and the network go on -/
def Stopped (s : AggSys) : AggAct → Prop
  | .agg _ => True
  | .others conn dataQueue ctrlQueue park =>
    dataQueue = s.dataQueue ∧ ctrlQueue = s.ctrlQueue ∧ park = s.park ∧
      ∀ c, conn c = { s.conn c with sock := (conn c).sock }

/-- the ways out of the loop while a sink is connected: nothing is left in the data slot or the park list -/
def LeaveOk (s : AggSys) : AggAct → Prop
  | .agg e =>
    s.agg.sink.isSome →
      match s.pc with
      | .exitCtrl true => s.ctrlQueue.items = [] → s.agg.pending = none ∧ s.park = []
      | .wait => e.wait = .failed → s.agg.pending = none ∧ s.dataQueue.items = [] ∧ s.park = []
      | .drainData =>
        match trypop s.dataQueue with
        | none => s.park = []
        | some (m, q) =>
          let f := (aggOnMessage { s with dataQueue := q, popped := s.popped ++ [m] } m).1
          (sendFrom e.sends f.body.length 0).1 = 1
      | _ => True
  | .others _ _ _ _ => True

/-! ## Nothing is lost on the way -/

/-- the run since `s0`, with the sink that will be there at the end -/
structure Left (s0 s : AggSys) : Prop where
  inv : AggInv s
  shut : s.dataQueue.shutdown = true ∧ s.ctrlQueue.shutdown = true
  nodup : s.park.Nodup
  in_hand : ∀ c, s.pc.hand = some c → c ∉ s.park
  no_sink : ∀ c, c ∈ s.park ∨ s.pc.hand = some c → s.agg.sink ≠ some c ∧ ∀ m ∈ s.ctrlQueue.items, ¬ m.adds c
  data_only : ∀ m ∈ waiting s, m.kind = .MSG_DATA
  exit_seen : s.pc = .exitCtrl true → s.dataQueue.items = []
  base : s0.fates.length ≤ s.fates.length
  conserve : (todo s0).Perm ((s.encoded.drop s0.fates.length).map Prod.fst ++ waiting s)
  whole : ∀ a ∈ s.fates.drop s0.fates.length, a = ⟨s.past.length, true⟩
  stay : s0.agg.sink.isSome → s.past.length = s0.past.length
  unsent : s0.agg.sink = none → s.ctrlQueue.items ≠ [] → s.encoded.length = s0.fates.length
  settled : s0.agg.sink = none → s.agg.sink.isSome → s.pc ≠ .ctrl → s.pc ≠ .drainCtrl → s.ctrlQueue.items = []
  final : s.pc = .final → s.agg.sink.isSome → s.agg.pending = none ∧ waiting s = []

/-- no sink will be there at the end, or not the one of `s0` -/
def Doomed (s0 s : AggSys) : Prop :=
  s.pc = .done ∨ s.agg.sink = none ∧ (s.ctrlQueue.items = [] ∨ s.pc.last) ∨
    s0.agg.sink.isSome ∧ s0.past.length < s.past.length

theorem AtShutdown.left (h : AtShutdown s0) (hi : AggInv s0) : Left s0 s0 where
  inv := hi
  shut := ⟨h.data_shut, h.ctrl_shut⟩
  nodup := h.nodup
  in_hand := h.in_hand
  no_sink := h.no_sink
  data_only := h.data_only
  exit_seen := h.exit_seen
  base := le_rfl
  conserve := .refl _
  whole := by simp
  stay _ := rfl
  unsent hn _ := hi.accounted.idle (hi.slots.idle hn).2.1
  settled hn hs := by rw [hn] at hs; cases hs
  final hf := absurd hf h.inside.1

/-- the thread goes on to `p`, after an operation on the sink -/
theorem Left.goto {r : AggSys} (h : Left s0 s) (p : AggPc) (hi : AggInv { r with pc := p })
    (honly : SinkOnly (fun _ => False) s r) (hk : Kept s r) (hhand : p.hand = none) (hhand' : s.pc.hand = none)
    (hexit : p = .exitCtrl true → s.dataQueue.items = [])
    (hsettled : s.pc = .ctrl ∨ s.pc = .drainCtrl → p = .ctrl ∨ p = .drainCtrl ∨ s.ctrlQueue.items = [])
    (hfinal : p = .final → r.agg.sink.isSome → r.agg.pending = none ∧ waiting s = []) :
    Left s0 { r with pc := p } := by
  obtain ⟨hpast, hsink, n, hfates⟩ := hk
  have hheld : ∀ q : AggSys, q.pc.hand = none → held q = [] := fun q hq => by
    unfold held
    split
    · next hpc => rw [hpc] at hq; cases hq
    · rfl
  have hmsg : r.park.filterMap (fun c => (r.conn c).pendingMsg) = s.park.filterMap fun c => (s.conn c).pendingMsg := by
    rw [honly.park]
    refine List.filterMap_congr fun c hc => ?_
    rw [honly.conn c (h.no_sink c (.inl hc)).1 id]
  have hwait : waiting { r with pc := p } = waiting s := by
    unfold waiting
    rw [hheld _ hhand, hheld _ hhand']
    simp only [honly.dataQueue, hmsg]
  refine ⟨hi, ?_, ?_, ?_, ?_, ?_, ?_, ?_, ?_, ?_, ?_, ?_, ?_, ?_⟩
  · simp only [honly.dataQueue, honly.ctrlQueue]; exact h.shut
  · simp only [honly.park]; exact h.nodup
  · intro c hc; rw [hhand] at hc; cases hc
  · intro c hc
    simp only [honly.park, honly.ctrlQueue, hsink, hhand] at hc ⊢
    exact h.no_sink c (.inl (hc.resolve_right nofun))
  · rw [hwait]; exact h.data_only
  · intro hp; simp only [honly.dataQueue]; exact hexit hp
  · have := h.base; simp only [hfates, List.length_append]; omega
  · rw [hwait]; simp only [honly.encoded]; exact h.conserve
  · intro a ha
    simp only [hfates, hpast] at ha ⊢
    rw [List.drop_append_of_le_length h.base] at ha
    rcases List.mem_append.1 ha with ha | ha
    · exact h.whole a ha
    · exact List.eq_of_mem_replicate ha
  · simp only [hpast]; exact h.stay
  · simp only [honly.ctrlQueue, honly.encoded]; exact h.unsent
  · intro hn hs h1 h2
    simp only [honly.ctrlQueue, hsink] at hs ⊢
    by_cases hpc : s.pc = .ctrl ∨ s.pc = .drainCtrl
    · rcases hsettled hpc with h' | h' | h'
      · exact absurd h' h1
      · exact absurd h' h2
      · exact h'
    · push Not at hpc
      exact h.settled hn hs hpc.1 hpc.2
  · rw [hwait]; exact hfinal

/-- the sink is closed outside the handling of control messages -/
theorem Left.closed (h : Left s0 s) (hc : Closed s t) (hq : t.ctrlQueue = s.ctrlQueue) (h1 : s.pc ≠ .ctrl)
    (h2 : s.pc ≠ .drainCtrl) : Doomed s0 t := by
  obtain ⟨hs, hnone, hpast⟩ := hc
  cases h0 : s0.agg.sink with
  | none => exact .inr (.inl ⟨hnone, .inl (hq ▸ h.settled h0 hs h1 h2)⟩)
  | some k =>
    have hstay := h.stay (by rw [h0]; rfl)
    exact .inr (.inr ⟨by rw [h0]; rfl, by omega⟩)

theorem held_of_hand (h : s.pc.hand = none) : held s = [] := by
  unfold held
  split
  · next hpc => rw [hpc] at h; cases h
  · rfl

/-- the messages in front of the slot change hands; the sender is left alone -/
theorem Left.hands (h : Left s0 s) (hi : AggInv t) (hsender : t.sender = s.sender) (hc : t.ctrlQueue = s.ctrlQueue)
    (hd : t.dataQueue.shutdown = s.dataQueue.shutdown) (hnodup : t.park.Nodup)
    (hin : ∀ c, t.pc.hand = some c → c ∉ t.park)
    (hsub : ∀ c, c ∈ t.park ∨ t.pc.hand = some c → c ∈ s.park ∨ s.pc.hand = some c)
    (hw : (waiting t).Perm (waiting s))
    (hpc : t.pc = s.pc ∧ t.dataQueue = s.dataQueue ∨ s.pc.pumped ∧ t.pc.pumped) : Left s0 t := by
  have hsink : t.agg.sink = s.agg.sink := congrArg Sender.peer hsender
  have hpend : t.agg.pending = s.agg.pending := congrArg Sender.data hsender
  have hfates : t.fates = s.fates := congrArg Sender.fates hsender
  have henc : t.encoded = s.encoded := congrArg Sender.sent hsender
  have hpast : t.past = s.past := congrArg Sender.past hsender
  refine ⟨hi, ?_, hnodup, hin, ?_, ?_, ?_, ?_, ?_, ?_, ?_, ?_, ?_, ?_⟩
  · rw [hd, hc]; exact h.shut
  · intro c hcp; rw [hsink, hc]; exact h.no_sink c (hsub c hcp)
  · intro m hm; exact h.data_only m (hw.mem_iff.1 hm)
  · intro hp
    rcases hpc with ⟨hpc, hq⟩ | ⟨-, hpc⟩
    · rw [hq]; exact h.exit_seen (hpc ▸ hp)
    · rw [hp] at hpc; cases hpc
  · rw [hfates]; exact h.base
  · rw [henc]; exact h.conserve.trans (hw.symm.append_left _)
  · rw [hfates, hpast]; exact h.whole
  · rw [hpast]; exact h.stay
  · rw [hc, henc]; exact h.unsent
  · intro hn hs h1 h2
    rw [hc]
    rw [hsink] at hs
    rcases hpc with ⟨hpc, -⟩ | ⟨hpc, -⟩
    · exact h.settled hn hs (hpc ▸ h1) (hpc ▸ h2)
    · refine h.settled hn hs ?_ ?_
      · intro h'; rw [h'] at hpc; cases hpc
      · intro h'; rw [h'] at hpc; cases hpc
  · intro hf hs
    rcases hpc with ⟨hpc, -⟩ | ⟨-, hpc⟩
    · obtain ⟨h1, h2⟩ := h.final (hpc ▸ hf) (hsink ▸ hs)
      exact ⟨hpend.trans h1, List.Perm.eq_nil (h2 ▸ hw)⟩
    · rw [hf] at hpc; cases hpc

/-- a message of dataQueue gets its frame, and what was finished since `s0` is whole -/
theorem Left.encode (h : Left s0 s) (hi : AggInv t) {m : Msg} {q : Queue Msg} {f : Frame}
    (hq : trypop s.dataQueue = some (m, q)) (hsink : s.agg.sink.isSome) (hpc : s.pc = .take ∨ s.pc = .drainData)
    (hdq : t.dataQueue = q) (hcq : t.ctrlQueue = s.ctrlQueue) (hpark : t.park = s.park) (hconn : t.conn = s.conn)
    (henc : t.encoded = s.encoded ++ [(m, f)]) (hk : Kept s t)
    (hpc' : t.pc = .pump ∨ t.pc = .drainData) : Left s0 t := by
  obtain ⟨hpast, hsink', n, hfates⟩ := hk
  obtain ⟨hitems, hshut⟩ := trypop_eq_some.1 hq
  have hhand : s.pc.hand = none := by rcases hpc with hpc | hpc <;> rw [hpc] <;> rfl
  have hhand' : t.pc.hand = none := by rcases hpc' with hpc | hpc <;> rw [hpc] <;> rfl
  have hwait : waiting s = m :: waiting t := by
    unfold waiting
    rw [held_of_hand hhand, held_of_hand hhand', hitems, hdq, hpark, hconn]
    rfl
  have hle : s0.fates.length ≤ s.encoded.length := h.base.trans h.inv.accounted.fates_le
  refine ⟨hi, ?_, ?_, ?_, ?_, ?_, ?_, ?_, ?_, ?_, ?_, ?_, ?_, ?_⟩
  · rw [hdq, hcq, hshut]; exact h.shut
  · rw [hpark]; exact h.nodup
  · intro c hc; rw [hhand'] at hc; cases hc
  · intro c hc
    rw [hsink', hcq]
    rw [hpark, hhand'] at hc
    exact h.no_sink c (.inl (hc.resolve_right nofun))
  · intro x hx; exact h.data_only x (hwait ▸ List.mem_cons_of_mem _ hx)
  · intro hp; rw [hp] at hpc'; rcases hpc' with hpc' | hpc' <;> cases hpc'
  · have := h.base; rw [hfates, List.length_append]; omega
  · have hc := h.conserve
    rw [hwait] at hc
    rw [henc, List.drop_append_of_le_length hle, List.map_append, List.append_assoc]
    exact hc
  · intro a ha
    rw [hfates, List.drop_append_of_le_length h.base] at ha
    rw [hpast]
    rcases List.mem_append.1 ha with ha | ha
    · exact h.whole a ha
    · exact List.eq_of_mem_replicate ha
  · rw [hpast]; exact h.stay
  · intro hn hne
    rw [hcq] at hne
    refine absurd (h.settled hn hsink ?_ ?_) hne
    · intro h'; rw [h'] at hpc; rcases hpc with hpc | hpc <;> cases hpc
    · intro h'; rw [h'] at hpc; rcases hpc with hpc | hpc <;> cases hpc
  · intro hn hs _ _
    rw [hcq]
    refine h.settled hn hsink ?_ ?_
    · intro h'; rw [h'] at hpc; rcases hpc with hpc | hpc <;> cases hpc
    · intro h'; rw [h'] at hpc; rcases hpc with hpc | hpc <;> cases hpc
  · intro hp; rw [hp] at hpc'; rcases hpc' with hpc' | hpc' <;> cases hpc'

/-- what a control message does to the streams -/
theorem handleCtrl_kept (s : AggSys) (sends : List SendRes) (m : Msg) :
    (handleCtrl s sends m).past = s.past ∧ (handleCtrl s sends m).fates = s.fates ∨
      s.agg.sink.isSome ∧ s.past.length < (handleCtrl s sends m).past.length ∧
        (s.agg.pending = none → (handleCtrl s sends m).fates = s.fates) := by
  unfold handleCtrl
  split
  · rw [adoptSink_eq]
    cases hs : s.agg.sink with
    | none => rw [freeSink_none hs]; exact .inl ⟨rfl, rfl⟩
    | some k =>
      have hclosed := freeSink_closed (s := s) (by rw [hs]; rfl) sends
      refine .inr ⟨rfl, hclosed.2.2, fun hp => ?_⟩
      show (freeSink s sends).fates = s.fates
      unfold freeSink
      rw [if_pos (by rw [hs]; rfl)]
      have hsent : (sendCloseBestEffort s sends 1001).agg.sink = some k := hs
      have hf := congrArg Sender.fates (closeSink_sender hsent)
      have hnone : (sendCloseBestEffort s sends 1001).sender.data = none := hp
      simp only [Sender.detach, hnone, Option.isSome_none, Bool.false_eq_true, if_false] at hf
      exact hf
  · exact .inl ⟨rfl, rfl⟩
  · exact .inl ⟨rfl, rfl⟩

/-- a control message: the sink is the one of `s0`, or nothing was sent since -/
theorem Left.ctrl (h : Left s0 s) {m : Msg} {q : Queue Msg} (sends : List SendRes)
    (hi : AggInv (handleCtrl { s with ctrlQueue := q } sends m)) (hpc : s.pc = .ctrl ∨ s.pc = .drainCtrl)
    (hq : trypop s.ctrlQueue = some (m, q)) :
    Left s0 (handleCtrl { s with ctrlQueue := q } sends m) ∨ Doomed s0 (handleCtrl { s with ctrlQueue := q } sends m) := by
  obtain ⟨hitems, hshut⟩ := trypop_eq_some.1 hq
  have hm : m ∈ s.ctrlQueue.items := hitems ▸ List.mem_cons_self
  have honly := handleCtrl_only { s with ctrlQueue := q } sends m
  have hkept := handleCtrl_kept { s with ctrlQueue := q } sends m
  revert hi honly hkept
  generalize handleCtrl { s with ctrlQueue := q } sends m = t
  intro hi honly hkept
  by_cases hgone : s0.agg.sink.isSome ∧ s.past.length < t.past.length
  · exact .inr (.inr (.inr ⟨hgone.1, by have := h.stay hgone.1; omega⟩))
  have hhand : s.pc.hand = none := by rcases hpc with hpc | hpc <;> rw [hpc] <;> rfl
  have hhand' : t.pc.hand = none := honly.pc ▸ hhand
  have hconn : ∀ c ∈ s.park, t.conn c = s.conn c := fun c hc =>
    honly.conn c (h.no_sink c (.inl hc)).1 ((h.no_sink c (.inl hc)).2 m hm)
  have hwait : waiting t = waiting s := by
    unfold waiting
    rw [held_of_hand hhand, held_of_hand hhand', honly.dataQueue, honly.park]
    congr 1
    exact List.filterMap_congr fun c hc => by rw [hconn c hc]
  -- a sink was replaced and nothing is lost: `s0` had none, and nothing was sent
  have hfates : t.fates = s.fates ∧ (t.past = s.past ∨ s0.agg.sink = none ∧ s.fates.length = s0.fates.length) := by
    rcases hkept with ⟨hp, hf⟩ | ⟨hs, hp, hf⟩
    · exact ⟨hf, .inl hp⟩
    · have hn : s0.agg.sink = none := by
        by_contra hne
        exact hgone ⟨Option.isSome_iff_ne_none.2 hne, hp⟩
      have hlen := h.unsent hn (by rw [hitems]; simp)
      have hle := h.inv.accounted.fates_le
      have hbase := h.base
      have hle' : s.fates.length ≤ s.encoded.length := hle
      have hfl : s.fates.length = s0.fates.length := by omega
      have hpend : s.agg.pending = none := by
        by_contra hne
        obtain ⟨f, hf'⟩ := Option.ne_none_iff_exists'.1 hne
        obtain ⟨_, -, hl⟩ := h.inv.accounted.waiting f hf'
        have hl' : s.encoded.length = s.fates.length + 1 := hl
        omega
      exact ⟨hf hpend, .inr ⟨hn, hfl⟩⟩
  refine .inl ⟨hi, ?_, ?_, ?_, ?_, ?_, ?_, ?_, ?_, ?_, ?_, ?_, ?_, ?_⟩
  · rw [honly.dataQueue, honly.ctrlQueue]; exact ⟨h.shut.1, hshut.trans h.shut.2⟩
  · rw [honly.park]; exact h.nodup
  · intro c hc; rw [hhand'] at hc; cases hc
  · intro c hc
    rw [honly.park, hhand'] at hc
    obtain ⟨h1, h2⟩ := h.no_sink c (.inl (hc.resolve_right nofun))
    refine ⟨?_, fun m' hm' => h2 m' ?_⟩
    · rcases honly.sink with hs | hs | ⟨d, hd, hs⟩
      · rw [hs]; exact h1
      · rw [hs]; exact nofun
      · rw [hs]
        intro he
        exact h2 m hm (Option.some.inj he ▸ hd)
    · rw [honly.ctrlQueue] at hm'
      rw [hitems]
      exact List.mem_cons_of_mem _ hm'
  · rw [hwait]; exact h.data_only
  · intro hp; rw [honly.pc] at hp; rcases hpc with hpc | hpc <;> exact absurd (hpc.symm.trans hp) (by simp)
  · rw [hfates.1]; exact h.base
  · rw [hwait, honly.encoded]; exact h.conserve
  · rw [hfates.1]
    rcases hfates.2 with hp | ⟨-, hl⟩
    · rw [hp]; exact h.whole
    · rw [← hl, List.drop_length]; exact nofun
  · intro hs
    rcases hfates.2 with hp | ⟨hn, -⟩
    · rw [hp]; exact h.stay hs
    · rw [hn] at hs; cases hs
  · intro hn _
    rw [honly.encoded]
    exact h.unsent hn (by rw [hitems]; simp)
  · intro _ _ h1 h2
    rw [honly.pc] at h1 h2
    rcases hpc with hpc | hpc
    · exact absurd hpc h1
    · exact absurd hpc h2
  · intro hp; rw [honly.pc] at hp; rcases hpc with hpc | hpc <;> exact absurd (hpc.symm.trans hp) (by simp)

/-- a queued message is taken or drained with a sink there: its frame is whole in the end, or still in the slot -/
theorem drainMessage_kept {sends : List SendRes} {m : Msg} (hk : m.kind = .MSG_DATA) (hs : s.agg.sink.isSome)
    (hall : (sendFrom sends (aggOnMessage s m).1.body.length 0).1 = 1) : Kept s (drainMessage s sends m) := by
  unfold drainMessage
  rw [if_pos ⟨hk, hs⟩]
  exact ⟨rfl, rfl, 1, congrArg (fun b => s.fates ++ [⟨s.past.length, b⟩]) (decide_eq_true hall)⟩

theorem drainMessage_encoded {sends : List SendRes} {m : Msg} (hk : m.kind = .MSG_DATA) (hs : s.agg.sink.isSome) :
    (drainMessage s sends m).encoded = s.encoded ++ [(m, (aggOnMessage s m).1)] := by
  unfold drainMessage
  rw [if_pos ⟨hk, hs⟩]
  rfl

/-- what is doomed stays doomed -/
theorem Doomed.step {e : AggEnv} (hd : Doomed s0 s) (hi : AggInv s) (h : aggStep conf s e = some t) : Doomed s0 t := by
  rcases hd with hd | ⟨hs, hq⟩ | ⟨h0, hp⟩
  · simp [aggStep, hd] at h
  · have hnone : s.agg.sink.isSome = false := by rw [hs]; rfl
    unfold aggStep at h
    cases hpc : s.pc with
    | ctrl =>
      have hq' : s.ctrlQueue.items = [] := hq.resolve_right (by simp [hpc, AggPc.last])
      simp only [hpc, trypop_eq_none.2 hq', Option.some.injEq] at h
      subst h
      exact .inr (.inl ⟨hs, .inl hq'⟩)
    | drainCtrl =>
      have hq' : s.ctrlQueue.items = [] := hq.resolve_right (by simp [hpc, AggPc.last])
      simp only [hpc, trypop_eq_none.2 hq', Option.some.injEq] at h
      subst h
      exact .inr (.inl ⟨hs, .inl hq'⟩)
    | drainData =>
      simp only [hpc] at h
      cases hdq : trypop s.dataQueue with
      | none =>
        simp only [hdq, Option.some.injEq] at h
        subst h
        exact .inr (.inl ⟨hs, .inr rfl⟩)
      | some mq =>
        simp only [hdq, Option.some.injEq] at h
        subst h
        rw [drainMessage_other _ (by simp [hs])]
        exact .inr (.inl ⟨hs, .inr rfl⟩)
    | final =>
      simp only [hpc, Option.some.injEq] at h
      subst h
      exact .inl rfl
    | done => simp [hpc] at h
    | events evs =>
      have hq' : s.ctrlQueue.items = [] := hq.resolve_right (by simp [hpc, AggPc.last])
      cases evs with
      | nil =>
        simp only [hpc, Option.some.injEq] at h
        subst h
        exact .inr (.inl ⟨hs, .inl hq'⟩)
      | cons ev evs =>
        simp only [hpc, Option.some.injEq] at h
        subst h
        have honly := handleEvent_only (fun _ => False) s e ev
        refine .inr (.inl ⟨?_, .inl (honly.ctrlQueue ▸ hq')⟩)
        rcases honly.sink with h' | h' | ⟨_, h', -⟩
        · exact h'.trans hs
        · exact h'
        · exact h'.elim
    | pump =>
      have hq' : s.ctrlQueue.items = [] := hq.resolve_right (by simp [hpc, AggPc.last])
      simp only [hpc, hs, if_true, Option.some.injEq] at h
      subst h
      exact .inr (.inl ⟨hs, .inl hq'⟩)
    | rpush c =>
      have hq' : s.ctrlQueue.items = [] := hq.resolve_right (by simp [hpc, AggPc.last])
      simp only [hpc, Option.map_eq_some_iff] at h
      obtain ⟨m, -, rfl⟩ := h
      exact .inr (.inl ⟨hs, .inl hq'⟩)
    | _ =>
      -- neither the sink nor ctrlQueue is touched
      have hq' : s.ctrlQueue.items = [] := hq.resolve_right (by simp [hpc, AggPc.last])
      simp only [hpc] at h
      first
        | (obtain rfl := Option.some.inj h; exact .inr (.inl ⟨hs, .inl hq'⟩))
        | (split at h <;> (obtain rfl := Option.some.inj h; exact .inr (.inl ⟨hs, .inl hq'⟩)))
  · refine .inr (.inr ⟨h0, hp.trans_le ?_⟩)
    exact (aggStep_moves hi.slots hi.at_pc h).1.past_le

/-- a step that only looks -/
theorem Left.look (h : Left s0 s) (p : AggPc) (hi : AggInv { s with pc := p }) (hhand : p.hand = none)
    (hhand' : s.pc.hand = none) (hexit : p = .exitCtrl true → s.dataQueue.items = [])
    (hsettled : s.pc = .ctrl ∨ s.pc = .drainCtrl → s.ctrlQueue.items = [])
    (hfinal : p = .final → s.agg.sink.isSome → s.agg.pending = none ∧ waiting s = []) :
    Left s0 { s with pc := p } :=
  h.goto p hi (.refl _ s) (.refl s) hhand hhand' hexit (fun hc => .inr (.inr (hsettled hc))) hfinal

/-- nothing waits when dataQueue and park list are empty and the thread holds nothing -/
theorem waiting_nil (hq : s.dataQueue.items = []) (hhand : s.pc.hand = none) (hp : s.park = []) : waiting s = [] := by
  unfold waiting
  rw [hq, held_of_hand hhand, hp]
  rfl

theorem Left.pump {e : AggEnv} (h : Left s0 s) (hi : ∀ t, aggStep conf s e = some t → AggInv t) (hpc : s.pc = .pump)
    (hs : aggStep conf s e = some t) : Left s0 t ∨ Doomed s0 t := by
  have hi' := hi t hs
  have hstep := hs
  unfold aggStep at hs
  simp only [hpc] at hs
  have honly := sinkFlush_only (fun _ => False) s e.sends
  have hkept := sinkFlush_kept s e.sends
  have hhand : s.pc.hand = none := by rw [hpc]; rfl
  have hne : s.pc ≠ .ctrl ∧ s.pc ≠ .drainCtrl := by rw [hpc]; exact ⟨nofun, nofun⟩
  split_ifs at hs with hnone hneg hzero
  all_goals obtain rfl := Option.some.inj hs
  · exact .inl (h.look _ hi' rfl hhand nofun (by rw [hpc]; simp) nofun)
  · right
    have hclosed : Closed s (closeSink (sinkFlush s e.sends).2) :=
      hkept.closed (closeSink_closed (by rw [hkept.2.1]; exact Option.isSome_iff_ne_none.2 hnone))
    refine h.closed (t := { closeSink (sinkFlush s e.sends).2 with pc := .exitData }) hclosed ?_ hne.1 hne.2
    exact (honly.trans (closeSink_only _ _)).ctrlQueue
  · exact .inl (h.goto _ hi' honly hkept rfl hhand nofun (by rw [hpc]; simp) nofun)
  · exact .inl (h.goto _ hi' honly hkept rfl hhand nofun (by rw [hpc]; simp) nofun)

/-- the parts of `resumeParked`: the message of a parked connection moves to dataQueue -/
theorem Left.resume {e : AggEnv} (h : Left s0 s) (hi : AggInv t)
    (hpc : s.pc = .mark ∨ s.pc = .unpark ∨ s.pc.hand.isSome) (hs : aggStep conf s e = some t) : Left s0 t := by
  unfold aggStep at hs
  cases hp : s.pc with
  | mark =>
    simp only [hp] at hs
    obtain rfl := Option.some.inj hs
    have hhand : ∀ q : Prop, ∀ _ : Decidable q, (if q then AggPc.unpark else .take).hand = none := by
      intro q _; split_ifs <;> rfl
    refine h.hands hi rfl rfl rfl h.nodup ?_ ?_ ?_ (.inr ⟨by rw [hp]; rfl, ?_⟩)
    · intro c hc; rw [hhand] at hc; cases hc
    · intro c hc; rw [hhand] at hc; exact .inl (hc.resolve_right nofun)
    · unfold waiting
      rw [held_of_hand (hhand _ _), held_of_hand (by rw [hp]; rfl)]
    · dsimp only; split_ifs <;> rfl
  | unpark =>
    simp only [hp] at hs
    split at hs
    · next hpark =>
      obtain rfl := Option.some.inj hs
      refine h.hands hi rfl rfl rfl h.nodup nofun ?_ ?_ (.inr ⟨by rw [hp]; rfl, rfl⟩)
      · intro c hc; exact .inl (hc.resolve_right nofun)
      · unfold waiting
        rw [held_of_hand rfl, held_of_hand (by rw [hp]; rfl)]
    · next c park hpark =>
      obtain rfl := Option.some.inj hs
      have hnodup := h.nodup
      rw [hpark] at hnodup
      refine h.hands hi rfl rfl rfl hnodup.of_cons ?_ ?_ ?_ (.inr ⟨by rw [hp]; rfl, rfl⟩)
      · intro d hd
        obtain rfl := Option.some.inj hd
        exact (List.nodup_cons.1 hnodup).1
      · intro d hd
        rw [hpark]
        rcases hd with hd | hd
        · exact .inl (List.mem_cons_of_mem _ hd)
        · obtain rfl := Option.some.inj hd
          exact .inl List.mem_cons_self
      · unfold waiting
        rw [held_of_hand (s := s) (by rw [hp]; rfl), hpark, List.filterMap_cons]
        cases hm : (s.conn c).pendingMsg with
        | none => simp [held, hm]
        | some m => simp [held, hm]
  | rpush c =>
    simp only [hp, Option.map_eq_some_iff] at hs
    obtain ⟨m, hm, rfl⟩ := hs
    refine h.hands hi rfl rfl rfl h.nodup ?_ ?_ ?_ (.inr ⟨by rw [hp]; rfl, rfl⟩)
    · intro d hd; exact h.in_hand d (by rw [hp]; exact hd)
    · intro d hd; rw [hp]; exact hd
    · unfold waiting
      have hheld : held s = [m] := by unfold held; rw [hp]; simp [hm]
      rw [hheld]
      simp [held]
  | rclear c =>
    simp only [hp] at hs
    obtain rfl := Option.some.inj hs
    have hc : c ∉ s.park := h.in_hand c (by rw [hp]; rfl)
    refine h.hands hi rfl rfl rfl h.nodup ?_ ?_ ?_ (.inr ⟨by rw [hp]; rfl, rfl⟩)
    · intro d hd; exact h.in_hand d (by rw [hp]; exact hd)
    · intro d hd; rw [hp]; exact hd
    · unfold waiting
      have hheld : held s = [] := by unfold held; rw [hp]
      rw [hheld]
      have hpark : s.park.filterMap (fun d => ((Function.update s.conn c { s.conn c with pendingMsg := none }) d).pendingMsg) =
          s.park.filterMap fun d => (s.conn d).pendingMsg :=
        List.filterMap_congr fun d hd => by rw [Function.update_of_ne (by rintro rfl; exact hc hd)]
      simp only [hpark, held]
      exact .refl _
  | radd c =>
    simp only [hp] at hs
    obtain rfl := Option.some.inj hs
    have hc : c ∉ s.park := h.in_hand c (by rw [hp]; rfl)
    refine h.hands hi rfl rfl rfl h.nodup nofun ?_ ?_ (.inr ⟨by rw [hp]; rfl, rfl⟩)
    · intro d hd; exact .inl (hd.resolve_right nofun)
    · unfold waiting
      have hheld : held s = [] := by unfold held; rw [hp]
      rw [hheld, held_of_hand rfl]
      have hpark : s.park.filterMap (fun d => ((Function.update s.conn c (epollAdd (s.conn c))) d).pendingMsg) =
          s.park.filterMap fun d => (s.conn d).pendingMsg :=
        List.filterMap_congr fun d hd => by rw [Function.update_of_ne (by rintro rfl; exact hc hd)]
      simp only [hpark]
      exact .refl _
  | _ => simp [hp, AggPc.hand] at hpc

theorem takeMessage_kept (s : AggSys) (m : Msg) :
    Kept s (takeMessage s m) ∧ ∃ f, (takeMessage s m).encoded = s.encoded ++ [(m, f)] :=
  ⟨⟨rfl, rfl, 0, by simp [takeMessage, aggOnMessage]⟩, _, rfl⟩

/-- **A step loses nothing** as long as the loop is left with nothing behind. -/
theorem Left.step {e : AggEnv} (h : Left s0 s) (hok : LeaveOk s (.agg e)) (hs : aggStep conf s e = some t) :
    Left s0 t ∨ Doomed s0 t := by
  have hi := h.inv.step hs
  have hs' := hs
  unfold aggStep at hs
  cases hpc : s.pc with
  | ctrl =>
    simp only [hpc] at hs
    cases hq : trypop s.ctrlQueue with
    | none =>
      simp only [hq] at hs
      obtain rfl := Option.some.inj hs
      exact .inl (h.look _ hi rfl (by rw [hpc]; rfl) nofun (fun _ => trypop_eq_none.1 hq) nofun)
    | some mq =>
      simp only [hq] at hs
      obtain rfl := Option.some.inj hs
      rw [← hpc] at hi ⊢
      exact h.ctrl e.sends hi (.inl hpc) hq
  | pump => exact h.pump (fun _ => h.inv.step) hpc hs'
  | mark => exact .inl (h.resume hi (.inl hpc) hs')
  | unpark => exact .inl (h.resume hi (.inr (.inl hpc)) hs')
  | rpush c => exact .inl (h.resume hi (.inr (.inr (by rw [hpc]; rfl))) hs')
  | rclear c => exact .inl (h.resume hi (.inr (.inr (by rw [hpc]; rfl))) hs')
  | radd c => exact .inl (h.resume hi (.inr (.inr (by rw [hpc]; rfl))) hs')
  | take =>
    have hsink := (h.inv.at_pc.pumped (by rw [hpc]; rfl)).1
    simp only [hpc] at hs
    cases hq : trypop s.dataQueue with
    | none =>
      simp only [hq] at hs
      obtain rfl := Option.some.inj hs
      exact .inl (h.look _ hi rfl (by rw [hpc]; rfl) nofun (by rw [hpc]; simp) nofun)
    | some mq =>
      obtain ⟨m, q⟩ := mq
      simp only [hq] at hs
      obtain rfl := Option.some.inj hs
      rw [← hpc] at hi ⊢
      obtain ⟨hkept, f, henc⟩ := takeMessage_kept { s with dataQueue := q } m
      exact .inl (h.encode hi hq hsink (.inl hpc) rfl rfl rfl rfl henc hkept (.inl rfl))
  | exitData =>
    simp only [hpc] at hs
    obtain rfl := Option.some.inj hs
    refine .inl (h.look _ hi rfl (by rw [hpc]; rfl) (fun hp => ?_) (by rw [hpc]; simp) nofun)
    simp only [AggPc.exitCtrl.injEq, decide_eq_true_eq] at hp
    exact List.length_eq_zero_iff.1 hp.2
  | exitCtrl d =>
    simp only [hpc] at hs
    split_ifs at hs with hleave
    all_goals obtain rfl := Option.some.inj hs
    · obtain ⟨hd, -, hlen⟩ := hleave
      refine .inl (h.look _ hi rfl (by rw [hpc]; rfl) nofun (by rw [hpc]; simp) fun _ hsink => ?_)
      have hpc' : s.pc = .exitCtrl true := by rw [hpc, show d = true from hd]
      have hleft := hok hsink
      rw [hpc'] at hleft
      obtain ⟨hpend, hpark⟩ := hleft (List.length_eq_zero_iff.1 hlen)
      exact ⟨hpend, waiting_nil (h.exit_seen hpc') (by rw [hpc]; rfl) hpark⟩
    · exact .inl (h.look _ hi rfl (by rw [hpc]; rfl) nofun (by rw [hpc]; simp) nofun)
  | exitDrain =>
    simp only [hpc] at hs
    split_ifs at hs
    all_goals
      obtain rfl := Option.some.inj hs
      exact .inl (h.look _ hi rfl (by rw [hpc]; rfl) nofun (by rw [hpc]; simp) nofun)
  | wait =>
    simp only [hpc] at hs
    split at hs
    · obtain rfl := Option.some.inj hs
      exact .inl (h.look _ hi rfl (by rw [hpc]; rfl) nofun (by rw [hpc]; simp) nofun)
    · next hfail =>
      obtain rfl := Option.some.inj hs
      refine .inl (h.look _ hi rfl (by rw [hpc]; rfl) nofun (by rw [hpc]; simp) fun _ hsink => ?_)
      have hleft := hok hsink
      rw [hpc] at hleft
      obtain ⟨hpend, hdq, hpark⟩ := hleft hfail
      exact ⟨hpend, waiting_nil hdq (by rw [hpc]; rfl) hpark⟩
    · obtain rfl := Option.some.inj hs
      exact .inl (h.look _ hi rfl (by rw [hpc]; rfl) nofun (by rw [hpc]; simp) nofun)
  | events evs =>
    cases evs with
    | nil =>
      simp only [hpc] at hs
      obtain rfl := Option.some.inj hs
      exact .inl (h.look _ hi rfl (by rw [hpc]; rfl) nofun (by rw [hpc]; simp) nofun)
    | cons ev evs =>
      simp only [hpc] at hs
      obtain rfl := Option.some.inj hs
      have honly := handleEvent_only (fun _ => False) s e ev
      rcases handleEvent_kept s e ev with hk | hc
      · exact .inl (h.goto _ hi honly hk rfl (by rw [hpc]; rfl) nofun (by rw [hpc]; simp) nofun)
      · refine .inr (h.closed (t := { handleEvent s e ev with pc := .events evs }) hc honly.ctrlQueue ?_ ?_)
        · rw [hpc]; exact nofun
        · rw [hpc]; exact nofun
  | drainCtrl =>
    simp only [hpc] at hs
    cases hq : trypop s.ctrlQueue with
    | none =>
      simp only [hq] at hs
      obtain rfl := Option.some.inj hs
      exact .inl (h.look _ hi rfl (by rw [hpc]; rfl) nofun (fun _ => trypop_eq_none.1 hq) nofun)
    | some mq =>
      simp only [hq] at hs
      obtain rfl := Option.some.inj hs
      rw [← hpc] at hi ⊢
      exact h.ctrl e.sends hi (.inr hpc) hq
  | drainData =>
    simp only [hpc] at hs
    cases hsink : s.agg.sink with
    | none => exact .inr (Doomed.step (.inr (.inl ⟨hsink, .inr (by rw [hpc]; rfl)⟩)) h.inv hs')
    | some k =>
      have hsome : s.agg.sink.isSome := by rw [hsink]; rfl
      have hleft := hok hsome
      rw [hpc] at hleft
      cases hq : trypop s.dataQueue with
      | none =>
        simp only [hq] at hs hleft
        obtain rfl := Option.some.inj hs
        refine .inl (h.look _ hi rfl (by rw [hpc]; rfl) nofun (by rw [hpc]; simp) fun _ _ => ?_)
        exact ⟨(h.inv.at_pc.draining (by rw [hpc]; rfl)).1,
          waiting_nil (trypop_eq_none.1 hq) (by rw [hpc]; rfl) hleft⟩
      | some mq =>
        obtain ⟨m, q⟩ := mq
        simp only [hq] at hs hleft
        obtain rfl := Option.some.inj hs
        rw [← hpc] at hi ⊢
        have hk : m.kind = .MSG_DATA := by
          refine h.data_only m ?_
          unfold waiting
          rw [(trypop_eq_some.1 hq).1]
          simp
        have hdrain := drainMessage_same { s with dataQueue := q, popped := s.popped ++ [m] } e.sends m
        refine .inl (h.encode hi hq hsome (.inr hpc) ?_ ?_ ?_ ?_ (drainMessage_encoded hk hsome)
          (drainMessage_kept hk hsome hleft) (.inr (hdrain.1.trans hpc)))
        all_goals
          unfold drainMessage
          rw [if_pos ⟨hk, hsome⟩]
          rfl
  | final =>
    simp only [hpc] at hs
    obtain rfl := Option.some.inj hs
    exact .inr (.inl rfl)
  | done => simp [hpc] at hs

/-- the network delivers: nothing that counts changes -/
theorem Left.others {conn : ℕ → Conn} {dq cq : Queue Msg} {park : List ℕ} (h : Left s0 s)
    (hst : Stopped s (.others conn dq cq park)) (hs : aggSysStep conf s (.others conn dq cq park) = some t) :
    Left s0 t := by
  have hi := h.inv.act hs
  obtain ⟨rfl, rfl, rfl, hconn⟩ := hst
  simp only [aggSysStep, Option.some.injEq] at hs
  subst hs
  have hmsg : ∀ c, (conn c).pendingMsg = (s.conn c).pendingMsg := fun c => by rw [hconn c]
  refine h.hands hi rfl rfl rfl h.nodup h.in_hand (fun _ hc => hc) ?_ (.inl ⟨rfl, rfl⟩)
  unfold waiting held
  simp only [hmsg]
  exact .refl _

theorem Doomed.others {conn : ℕ → Conn} {dq cq : Queue Msg} {park : List ℕ} (h : Doomed s0 s)
    (hst : Stopped s (.others conn dq cq park)) (hs : aggSysStep conf s (.others conn dq cq park) = some t) :
    Doomed s0 t := by
  obtain ⟨rfl, rfl, rfl, -⟩ := hst
  simp only [aggSysStep, Option.some.injEq] at hs
  subst hs
  exact h

/-- **Nothing is left behind.** From the shutdown of both queues on, in every run that leaves the loop with an empty
slot and an empty park list: when the thread is behind its loop with a sink still connected (the one of `s0`, if there
was one), the messages encoded since are exactly those that had to be written, each in a frame of its own that is on the
sink's stream in full. -/
theorem left_written (conf : ServerConfig) (conn : ℕ → Conn) (dataQueue ctrlQueue : Queue Msg) (park : List ℕ)
    (s0 s : AggSys) (hr : Reachable (aggSysStep conf) (AggSys.start conn dataQueue ctrlQueue park) s0)
    (hshut : AtShutdown s0) (h : Reach (aggSysStep conf) (fun s a => Stopped s a ∧ LeaveOk s a) s0 s)
    (hpc : s.pc = .final) (hsink : s.agg.sink.isSome)
    (hstay : s0.agg.sink.isSome → s.past.length = s0.past.length) :
    (todo s0).Perm ((s.encoded.drop s0.fates.length).map Prod.fst) ∧
      ∀ e ∈ s.encoded.drop s0.fates.length, IsFrameOf e.1 e.2.body ∧ part e.2.id s.wire = e.2.body := by
  have hi0 : AggInv s0 := hr.invariant (.start conn dataQueue ctrlQueue park) fun s a t hi _ hs => hi.act hs
  have hleft : AggInv s ∧ (Left s0 s ∨ Doomed s0 s) := by
    refine h.invariant (P := fun s => AggInv s ∧ (Left s0 s ∨ Doomed s0 s)) ⟨hi0, .inl (hshut.left hi0)⟩ ?_
    rintro s a t ⟨hi, hl | hd⟩ ⟨hst, hok⟩ hs
    · refine ⟨hi.act hs, ?_⟩
      cases a with
      | agg e => exact hl.step hok hs
      | others conn dq cq park => exact .inl (hl.others hst hs)
    · refine ⟨hi.act hs, .inr ?_⟩
      cases a with
      | agg e => exact hd.step hi hs
      | others conn dq cq park => exact hd.others hst hs
  rcases hleft.2 with hl | hd | ⟨hnone, -⟩ | ⟨h0, hlt⟩
  · obtain ⟨hpend, hwait⟩ := hl.final hpc hsink
    have hlen : s.encoded.length = s.fates.length := hl.inv.accounted.idle hpend
    refine ⟨by simpa [hwait] using hl.conserve, fun e he => ?_⟩
    obtain ⟨i, hi, rfl⟩ := List.mem_iff_getElem.1 he
    rw [List.length_drop] at hi
    rw [List.getElem_drop]
    have hiE : s0.fates.length + i < s.encoded.length := by omega
    have hiF : s0.fates.length + i < s.fates.length := by omega
    refine ⟨hl.inv.messages _ (List.getElem_mem hiE), ?_⟩
    -- its fate is to be whole on the present stream
    have hfate : s.fates[s0.fates.length + i] = ⟨s.past.length, true⟩ := by
      refine hl.whole _ (List.mem_iff_getElem.2 ⟨i, by rw [List.length_drop]; omega, ?_⟩)
      rw [List.getElem_drop]
    obtain ⟨-, n, -, hwhole, hparts⟩ := hl.inv.accounted.settled _ _ _ (List.getElem?_eq_getElem hiE)
      (List.getElem?_eq_getElem hiF)
    rw [hfate] at hwhole hparts
    have hpart := hparts s.past.length s.wire (by rw [Sender.logs]; exact List.getElem?_concat_length)
    rw [if_pos rfl, hwhole.1 rfl, List.take_length] at hpart
    exact hpart
  · rw [hd] at hpc; cases hpc
  · rw [hnone] at hsink; cases hsink
  · have := hstay h0; omega

/-! ### A slow sink at the end -/

/-- the condition, one line for each place it speaks of -/
theorem leaveOk_iff (s : AggSys) (e : AggEnv) : LeaveOk s (.agg e) ↔ (s.agg.sink.isSome →
    (s.pc = .exitCtrl true → s.ctrlQueue.items = [] → s.agg.pending = none ∧ s.park = []) ∧
    (s.pc = .wait → e.wait = .failed → s.agg.pending = none ∧ s.dataQueue.items = [] ∧ s.park = []) ∧
    (s.pc = .drainData → (trypop s.dataQueue = none → s.park = []) ∧ ∀ mq ∈ trypop s.dataQueue,
      (sendFrom e.sends (aggOnMessage { s with dataQueue := mq.2, popped := s.popped ++ [mq.1] } mq.1).1.body.length 0).1 =
        1)) := by
  unfold LeaveOk
  refine imp_congr_right fun _ => ?_
  cases hpc : s.pc with
  | exitCtrl dataDone => cases dataDone <;> simp
  | drainData => cases hq : trypop s.dataQueue <;> simp
  | _ => simp

instance (s : AggSys) (e : AggEnv) : Decidable (LeaveOk s (.agg e)) := decidable_of_iff _ (leaveOk_iff s e).symm

instance (s : AggSys) (e : AggEnv) : Decidable (Stopped s (.agg e)) := .isTrue trivial

/-- a run of the thread alone -/
theorem Reach.thread {ok : AggSys → AggAct → Prop} {es : List AggEnv}
    (hok : allOk (aggStep conf) (fun s e => ok s (.agg e)) s es) (he : exec (aggStep conf) s es = some t) :
    Reach (aggSysStep conf) ok s t := by
  have hgo : ∀ {u : AggSys}, Reach (aggSysStep conf) ok s u → ∀ es : List AggEnv,
      allOk (aggStep conf) (fun s e => ok s (.agg e)) u es → exec (aggStep conf) u es = some t →
      Reach (aggSysStep conf) ok s t := by
    intro u hu es
    induction es generalizing u with
    | nil =>
      intro _ he
      obtain rfl := Option.some.inj he
      exact hu
    | cons e es ih =>
      intro hok he
      simp only [exec, Option.bind_eq_some_iff] at he
      obtain ⟨v, hv, he⟩ := he
      simp only [allOk, hv] at hok
      exact ih (.step (.agg e) hu hok.1 hv) hok.2 he
  exact hgo .start es hok he

/-- the thread has put the frame of the one message into the slot when both queues are shut down -/
def loadRun : List AggAct :=
  List.replicate 6 (AggAct.agg calm) ++ [AggAct.others pingStart.conn ⟨[], true⟩ ⟨[], true⟩ []]

def loadedState : AggSys := (exec (aggSysStep smallConf) pingStart loadRun).getD pingStart

theorem loadedState_spec : (exec (aggSysStep smallConf) pingStart loadRun).isSome ∧
    (loadedState.dataQueue.shutdown = true ∧ loadedState.ctrlQueue.shutdown = true) ∧
    ((loadedState.pc ≠ .final ∧ loadedState.pc ≠ .done) ∧ loadedState.pc.hand = none ∧
      (loadedState.pc = .exitCtrl true → loadedState.dataQueue.items = [])) ∧
    loadedState.park = [] ∧ waiting loadedState = [] := by
  decide +kernel

theorem loadedState_reachable : Reachable (aggSysStep smallConf) pingStart loadedState := by
  obtain ⟨s, hs⟩ := Option.isSome_iff_exists.1 loadedState_spec.1
  have heq : loadedState = s := by unfold loadedState; rw [hs]; rfl
  rw [heq]
  exact .of_exec (allOk_true _ _) hs

theorem loadedState_atShutdown : AtShutdown loadedState := by
  obtain ⟨-, ⟨hdata, hctrl⟩, ⟨hinside, hhand, hexit⟩, hpark, hwait⟩ := loadedState_spec
  refine ⟨hdata, hctrl, hinside, hexit, ?_, ?_, ?_, ?_⟩
  · rw [hpark]; exact List.nodup_nil
  · intro c hc; rw [hhand] at hc; cases hc
  · intro c hc
    rw [hpark, hhand] at hc
    rcases hc with hc | hc <;> cases hc
  · rw [hwait]; exact nofun

/-- the kernel takes the whole frame: it is on the stream when the thread leaves its loop -/
theorem left_written_loaded : ∃ s, exec (aggStep smallConf) loadedState
      (⟨[.sent 2, .sent 100], [], .interrupted⟩ :: List.replicate 5 calm) = some s ∧ s.pc = .final ∧
    (todo loadedState).Perm ((s.encoded.drop loadedState.fates.length).map Prod.fst) ∧
    ∀ e ∈ s.encoded.drop loadedState.fates.length, IsFrameOf e.1 e.2.body ∧ part e.2.id s.wire = e.2.body := by
  have hrun : (exec (aggStep smallConf) loadedState (⟨[.sent 2, .sent 100], [], .interrupted⟩ :: List.replicate 5 calm)).map
      (fun s => decide (s.pc = .final ∧ s.agg.sink.isSome ∧ s.past.length = loadedState.past.length)) = some true := by
    decide +kernel
  rw [Option.map_eq_some_iff] at hrun
  obtain ⟨s, hs, hend⟩ := hrun
  obtain ⟨hpc, hsink, hpast⟩ := of_decide_eq_true hend
  refine ⟨s, hs, hpc, left_written smallConf _ _ _ _ loadedState s loadedState_reachable loadedState_atShutdown
    (Reach.thread ?_ hs) hpc hsink fun _ => hpast⟩
  show allOk _ (fun s e => Stopped s (.agg e) ∧ LeaveOk s (.agg e)) _ _
  decide +kernel

/-- **The exit test overlooks the data slot.** The sink takes two bytes of the frame and blocks; both queues are empty,
so the thread leaves its loop. -/
theorem exit_drops_pending : ∃ s0 s, Reachable (aggSysStep smallConf) pingStart s0 ∧ AtShutdown s0 ∧
    Reach (aggSysStep smallConf) Stopped s0 s ∧ s.pc = .final ∧ s.agg.sink.isSome ∧
    s.past.length = s0.past.length ∧ todo s0 = [msgNewData 3 opBin ⟨0, 0⟩ [1, 2, 3]] ∧
    s.wire.map Prod.snd = [0x82, 3] ∧
    ¬ ∀ e ∈ s.encoded.drop s0.fates.length, part e.2.id s.wire = e.2.body := by
  have hrun : (exec (aggStep smallConf) loadedState (⟨[.sent 2, .again], [], .interrupted⟩ :: List.replicate 2 calm)).map
      (fun s => decide (s.pc = .final ∧ s.agg.sink.isSome ∧ s.past.length = loadedState.past.length ∧
        todo loadedState = [msgNewData 3 opBin ⟨0, 0⟩ [1, 2, 3]] ∧ s.wire.map Prod.snd = [0x82, 3] ∧
        ¬ ∀ e ∈ s.encoded.drop loadedState.fates.length, part e.2.id s.wire = e.2.body)) = some true := by decide +kernel
  rw [Option.map_eq_some_iff] at hrun
  obtain ⟨s, hs, hend⟩ := hrun
  obtain ⟨h1, h2, h3, h4, h5, h6⟩ := of_decide_eq_true hend
  refine ⟨loadedState, s, loadedState_reachable, loadedState_atShutdown, Reach.thread ?_ hs, h1, h2, h3, h4,
    h5, h6⟩
  exact allOk_true _ _

end WsServer
