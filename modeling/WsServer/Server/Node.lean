/-
The whole program: the server and the upstream reactor, with dataQueue between them.

`Node` puts the two machines together. A label is a step of the server (a listener, one of the `W` workers, the
aggregator, the network) or a step of the reactor thread; both push to the one dataQueue. The last two fields are a
record and never read: the bytes the workers wrote to the socket of each connection, and how many reached it.

- `Node.up`, `Node.agg`: each part seen alone is its own machine among the others, so what was proved of the reactor and
  of the aggregator holds here (`nodeReach_up`, `nodeReach_agg`).
- `node_good`: every connection is in one place at most, here too.
- `dataQueue_bounded`: a thread tests the watermark in one step and pushes in another. Each of the `W + 2` threads that
  push has tested once at most when it pushes, so dataQueue stays below the high watermark and one message for each of
  them; and a connection or client holds one message at most that is not in dataQueue yet.
-/
import Mathlib
import WsServer.Agg.Conns
import WsServer.Agg.Wire
import WsServer.Core.Tickets
import WsServer.Server.Resume
import WsServer.Upstream.Account

namespace WsServer

open Ws Machine Tickets Places

structure Node where
  srv : Srv
  reactor : Reactor
  -- the record
  sent : ℕ → Bytes
  got : ℕ → ℕ

inductive NodeAct where
  | srv (a : Act)
  | up (e : UpEnv)

/-- the workers are numbered below `W` -/
def Act.Within (W : ℕ) : Act → Prop
  | .worker w _ => w < W
  | _ => True

instance (W : ℕ) (a : Act) : Decidable (a.Within W) := by
  unfold Act.Within; split <;> infer_instance

/-- what a step of a worker writes to the socket of connection `c` -/
def Srv.writes (s : Srv) (a : Act) (c : ℕ) : Bytes :=
  match a with
  | .worker w e => match s.workers w with
    | .hsSend d => if d = c then (flushTx e.sends (s.conn d)).2.2 else []
    | .flush d eof => if d = c then (wsOpenFlush e.sends eof (s.conn d)).2.2 else []
    | _ => []
  | _ => []

/-- how many bytes reach the socket of connection `c` -/
def Act.arrives (a : Act) (c : ℕ) : ℕ :=
  match a with
  | .deliver d bytes _ => if d = c then bytes.length else 0
  | _ => 0

def Srv.withData (s : Srv) (q : Queue Msg) : Srv := { s with sys := { s.sys with dataQueue := q } }

def nodeStep (conf : ServerConfig) (W : ℕ) (n : Node) : NodeAct → Option Node
  | .srv a =>
    if a.Within W then
      (srvStep conf n.srv a).map fun s =>
        { n with
          srv := s
          sent := fun c => n.sent c ++ n.srv.writes a c
          got := fun c => n.got c + a.arrives c }
    else none
  | .up e =>
    (reactorStep conf n.srv.sys.dataQueue n.reactor e).map fun r => { n with srv := n.srv.withData r.1, reactor := r.2 }

/-- nothing is accepted yet, and the reactor has the clients `main` added -/
def Node.start (client : ℕ → UpstreamClient) (count : ℕ) : Node :=
  ⟨.start, ⟨client, count, .top⟩, fun _ => [], fun _ => 0⟩

variable {conf : ServerConfig} {W : ℕ} {n m : Node} {a : NodeAct}

/-- what a step is a step of -/
theorem nodeStep_cases (h : nodeStep conf W n a = some m) :
    (∃ b s, a = .srv b ∧ b.Within W ∧ srvStep conf n.srv b = some s ∧
      m = { n with
        srv := s
        sent := fun c => n.sent c ++ n.srv.writes b c
        got := fun c => n.got c + b.arrives c }) ∨
    ∃ e r, a = .up e ∧ reactorStep conf n.srv.sys.dataQueue n.reactor e = some r ∧
      m = { n with srv := n.srv.withData r.1, reactor := r.2 } := by
  cases a with
  | srv b =>
    unfold nodeStep at h
    dsimp only at h
    split_ifs at h with hb
    obtain ⟨s, hs, rfl⟩ := Option.map_eq_some_iff.1 h
    exact Or.inl ⟨b, s, rfl, hb, hs, rfl⟩
  | up e =>
    obtain ⟨r, hr, rfl⟩ := Option.map_eq_some_iff.1 h
    exact Or.inr ⟨e, r, rfl, hr, rfl⟩

/-! ## The parts alone -/

/-- the reactor and the queue it shares -/
def Node.up (n : Node) : UpSys := ⟨n.srv.sys.dataQueue, n.reactor⟩

/-- what a condition on the reactor asks of a step of the program -/
def NodeMeets (cond : Condition) (n : Node) : NodeAct → Prop
  | .srv _ => True
  | .up e => Meets cond n.up (.step e)

instance {cond : Condition} [∀ e k h c, Decidable (cond e k h c)] (n : Node) (a : NodeAct) :
    Decidable (NodeMeets cond n a) :=
  match a with
  | .srv _ => .isTrue trivial
  | .up e => inferInstanceAs (Decidable (Meets cond n.up (.step e)))

variable {client : ℕ → UpstreamClient} {count : ℕ} {cond : Condition}

theorem nodeReach_any {n0 : Node} (h : Reachable (nodeStep conf W) n0 n) :
    Reach (nodeStep conf W) (NodeMeets fun _ _ _ _ => True) n0 n := by
  apply h.mono
  intro n a _
  cases a with
  | srv b => trivial
  | up e => exact fun _ _ => trivial

/-- **The reactor alone**: the rest of the program are the others, who change dataQueue. -/
theorem nodeReach_upFrom {n0 : Node} (h : Reach (nodeStep conf W) (NodeMeets cond) n0 n) :
    Reach (upStep conf) (Meets cond) n0.up n.up := by
  induction h with
  | start => exact .start
  | step a _ hok hstep ih =>
    rcases nodeStep_cases hstep with ⟨b, s, rfl, -, -, rfl⟩ | ⟨e, r, rfl, hr, rfl⟩
    · exact .step (.others s.sys.dataQueue) ih trivial rfl
    · refine .step (.step e) ih hok ?_
      unfold upStep
      rw [Option.map_eq_some_iff]
      exact ⟨r, hr, rfl⟩

theorem nodeReach_up (h : Reach (nodeStep conf W) (NodeMeets cond) (.start client count) n) :
    Reach (upStep conf) (Meets cond) (UpSys.start client count) n.up :=
  nodeReach_upFrom h

/-- the aggregator, with what it shares -/
def Node.agg (n : Node) : AggSys := n.srv.sys

/-- **The aggregator alone**: the rest of the program are the others. -/
theorem nodeStep_agg (h : nodeStep conf W n a = some m) : ∃ b, aggSysStep conf n.agg b = some m.agg := by
  rcases nodeStep_cases h with ⟨b, s, rfl, -, hs, rfl⟩ | ⟨e, r, rfl, -, rfl⟩
  · by_cases hb : ∃ e, b = .agg e
    · obtain ⟨e, rfl⟩ := hb
      obtain ⟨u, hu, rfl⟩ := Option.map_eq_some_iff.1 hs
      exact ⟨.agg e, hu⟩
    · refine ⟨.others s.sys.conn s.sys.dataQueue s.sys.ctrlQueue s.sys.park, ?_⟩
      exact congrArg some (srvStep_others hs fun e he => hb ⟨e, he⟩).symm
  · exact ⟨.others n.srv.sys.conn r.1 n.srv.sys.ctrlQueue n.srv.sys.park, rfl⟩

theorem nodeReach_agg {ok : Node → NodeAct → Prop} (h : Reach (nodeStep conf W) ok (.start client count) n) :
    Reachable (aggSysStep conf) (Node.start client count).agg n.agg := by
  induction h with
  | start => exact .start
  | step a _ _ hstep ih =>
    obtain ⟨b, hb⟩ := nodeStep_agg hstep
    exact .step b ih trivial hb

/-- more workers can do what fewer can -/
theorem nodeReach_workers {W' : ℕ} {n0 : Node} (hle : W ≤ W') (h : Reachable (nodeStep conf W) n0 n) :
    Reachable (nodeStep conf W') n0 n := by
  induction h with
  | start => exact .start
  | @step u v a _ _ hstep ih =>
    refine .step a ih trivial ?_
    cases a with
    | up e => exact hstep
    | srv b =>
      unfold nodeStep at hstep ⊢
      dsimp only at hstep ⊢
      split_ifs at hstep with hb
      have hb' : b.Within W' := by
        cases b with
        | worker w e => exact lt_of_lt_of_le (show w < W from hb) hle
        | _ => trivial
      rw [if_pos hb']
      exact hstep

/-- **The server alone** is the program with a reactor that stands still. -/
theorem srvReach_node {s : Srv} (client : ℕ → UpstreamClient) (h : Reachable (srvStep conf) .start s) :
    ∃ W n, Reachable (nodeStep conf W) (.start client 0) n ∧ n.srv = s := by
  induction h with
  | start => exact ⟨0, _, .start, rfl⟩
  | @step u v b _ _ hstep ih =>
    obtain ⟨W, n, hn, rfl⟩ := ih
    have hmax : ∃ W', W ≤ W' ∧ b.Within W' := by
      cases b with
      | worker w e => exact ⟨max W (w + 1), le_max_left _ _, lt_of_lt_of_le (Nat.lt_succ_self w) (le_max_right _ _)⟩
      | _ => exact ⟨W, le_rfl, trivial⟩
    obtain ⟨W', hle, hb⟩ := hmax
    have hnode : nodeStep conf W' n (.srv b) = some { n with
        srv := v
        sent := fun c => n.sent c ++ n.srv.writes b c
        got := fun c => n.got c + b.arrives c } := by
      unfold nodeStep
      dsimp only
      rw [if_pos hb, hstep]
      rfl
    exact ⟨W', _, .step (.srv b) (nodeReach_workers hle hn) trivial hnode, rfl⟩

/-! ## The places -/

/-- what the others do to dataQueue moves no connection -/
theorem withData_good {s : Srv} {q : Queue Msg} (hg : Good s) (hq : q.shutdown = s.sys.dataQueue.shutdown) :
    Good (s.withData q) := by
  have hcell : (s.withData q).cell = s.cell := by funext p; cases p <;> rfl
  exact hg.frame (hcell ▸ hg.excl) (fun d => .refl _) (fun p d hd => hcell ▸ hd) rfl rfl hq hg.draining

theorem pushed_shutdown (q : Queue Msg) (o : Option Msg) : (o.elim q (push q)).shutdown = q.shutdown := by
  cases o <;> rfl

theorem nodeStep_good (hg : Good n.srv) (h : nodeStep conf W n a = some m) : Good m.srv := by
  rcases nodeStep_cases h with ⟨b, s, rfl, -, hs, rfl⟩ | ⟨e, r, rfl, hr, rfl⟩
  · exact srvStep_good hg hs
  · apply withData_good hg
    rw [reactorStep_queue hr]
    exact pushed_shutdown _ _

/-- **Every connection is in one place at most**, whatever the reactor does. -/
theorem node_good {ok : Node → NodeAct → Prop} (h : Reach (nodeStep conf W) ok (.start client count) n) : Good n.srv :=
  h.invariant (P := fun n => Good n.srv) start_good fun _ _ _ hg _ hstep => nodeStep_good hg hstep

/-! ## The threads that push -/

/-- the threads that push to dataQueue -/
inductive Thread where
  | worker (w : ℕ)
  | reactor
  | agg
deriving DecidableEq, Repr

def threads (W : ℕ) : Finset Thread := insert .reactor (insert .agg ((Finset.range W).image .worker))

theorem card_threads (W : ℕ) : (threads W).card = W + 2 := by
  have hworkers : ((Finset.range W).image Thread.worker).card = W := by
    rw [Finset.card_image_of_injective _ fun _ _ => Thread.worker.inj, Finset.card_range]
  unfold threads
  rw [Finset.card_insert_of_notMem (by simp), Finset.card_insert_of_notMem (by simp), hworkers]

/-- a place behind a test of the watermark, with the push still to come -/
def WPc.tested : WPc → Bool
  | .push _ _ _ => true
  | _ => false

def AggPc.tested : AggPc → Bool
  | .unpark => true
  | .rpush _ => true
  | _ => false

def Hand.tested : Hand → Bool
  | .pushing _ _ => true
  | .resuming => true
  | _ => false

def UpPc.tested : UpPc → Bool
  | .busy _ h _ => h.tested
  | _ => false

def Node.tested (n : Node) : Thread → Bool
  | .worker w => (n.srv.workers w).tested
  | .reactor => n.reactor.pc.tested
  | .agg => n.srv.sys.pc.tested

/-- below the high watermark -/
theorem below_high {k : ℕ} (h : k < conf.highWatermark) : k ≤ conf.highWatermark - 1 := by omega

theorem works_tested {p : WPc} {c : ℕ} (h : p.works = some c) : p.tested = false := by
  cases p with
  | push => cases h
  | _ => rfl

/-- a worker tests in one step and pushes in another -/
theorem workerStep_turn {s t : Srv} {w : ℕ} {e : WorkEnv} (h : workerStep conf s w e = some t) :
    Turn (conf.highWatermark - 1) (queueSize s.sys.dataQueue) (s.workers w).tested (queueSize t.sys.dataQueue)
      (t.workers w).tested := by
  have hpc : ∀ (u : Srv) (p : WPc), ((u.goto w p).workers w).tested = p.tested := by
    intro u p
    show (Function.update u.workers w p w).tested = p.tested
    rw [Function.update_self]
  have hstep := h
  cases workerStep_shift h with
  | decide c eof m p hw hp =>
    rw [hpc]
    unfold workerStep at hstep
    simp only [hw] at hstep
    have hgo := congrFun (congrArg Srv.workers (Option.some.inj hstep)) w
    simp only [Srv.goto, Function.update_self] at hgo
    split_ifs at hgo with hfull
    · rw [← hgo]
      exact .rest le_rfl fun h => absurd h Bool.false_ne_true
    · exact .test (below_high (not_le.1 hfull))
  | push c eof m hw =>
    rw [hpc, hw]
    simp only [queueSize, Srv.goto, push_items, List.length_append, List.length_singleton]
    exact .use
  | think c v p hw hp =>
    rw [hpc, works_tested hp]
    exact .rest le_rfl fun h => absurd h Bool.false_ne_true
  | take | complete | parkStore | parkPush | parkDel | handoffDel | handoffPush | apply =>
    rw [hpc]
    exact .rest le_rfl fun h => absurd h Bool.false_ne_true

/-- the aggregator comes to `parkListPop` behind its test only -/
theorem aggStep_unpark {s t : AggSys} {e : AggEnv} (h : aggStep conf s e = some t) (ht : t.pc = .unpark) :
    queueSize s.dataQueue ≤ conf.lowWatermark ∧ t.dataQueue = s.dataQueue := by
  have hctrl : ∀ (u : AggSys) (m : Msg), (handleCtrl u e.sends m).pc = u.pc := fun u m => (handleCtrl_only u e.sends m).pc
  unfold aggStep at h
  cases hpc : s.pc with
  | mark =>
    simp only [hpc] at h
    obtain rfl := Option.some.inj h
    dsimp only at ht
    split_ifs at ht with hlow
    exact ⟨hlow, rfl⟩
  | ctrl =>
    simp only [hpc] at h
    split at h <;> obtain rfl := Option.some.inj h
    · cases ht
    · rw [hctrl] at ht
      cases ht
  | drainCtrl =>
    simp only [hpc] at h
    split at h <;> obtain rfl := Option.some.inj h
    · cases ht
    · rw [hctrl] at ht
      cases ht
  | pump => simp only [hpc] at h; split_ifs at h <;> obtain rfl := Option.some.inj h <;> cases ht
  | unpark => simp only [hpc] at h; split at h <;> obtain rfl := Option.some.inj h <;> cases ht
  | rpush c =>
    simp only [hpc] at h
    obtain ⟨x, -, rfl⟩ := Option.map_eq_some_iff.1 h
    cases ht
  | rclear c => simp only [hpc] at h; obtain rfl := Option.some.inj h; cases ht
  | radd c => simp only [hpc] at h; obtain rfl := Option.some.inj h; cases ht
  | take => simp only [hpc] at h; split at h <;> obtain rfl := Option.some.inj h <;> cases ht
  | exitData => simp only [hpc] at h; obtain rfl := Option.some.inj h; cases ht
  | exitCtrl d => simp only [hpc] at h; split_ifs at h <;> obtain rfl := Option.some.inj h <;> cases ht
  | exitDrain => simp only [hpc] at h; split_ifs at h <;> obtain rfl := Option.some.inj h <;> cases ht
  | wait => simp only [hpc] at h; split at h <;> obtain rfl := Option.some.inj h <;> cases ht
  | events evs => cases evs <;> simp only [hpc] at h <;> obtain rfl := Option.some.inj h <;> cases ht
  | drainData =>
    simp only [hpc] at h
    split at h <;> obtain rfl := Option.some.inj h
    · cases ht
    · rw [(drainMessage_same _ _ _).1] at ht
      cases ht
  | final => simp only [hpc] at h; obtain rfl := Option.some.inj h; cases ht
  | done => simp only [hpc] at h; cases h

/-- the aggregator tests the low watermark, and pushes what the parked connection holds -/
theorem aggStep_turn {s t : AggSys} {e : AggEnv} (hq : s.dataQueue.shutdown = false) (hp : s.pc.draining = false)
    (h : aggStep conf s e = some t) :
    Turn (conf.highWatermark - 1) (queueSize s.dataQueue) s.pc.tested (queueSize t.dataQueue) t.pc.tested := by
  by_cases ht : t.pc = .unpark
  · obtain ⟨hlow, hsame⟩ := aggStep_unpark h ht
    rw [hsame]
    exact .test (below_high (lt_of_le_of_lt hlow conf.low_lt_high))
  have hquiet : ∀ {u : AggSys}, u.pc.hand = none → u.pc ≠ .unpark → u.pc.tested = false := by
    intro u h1 h2
    cases hu : u.pc <;> rw [hu] at h1 h2 <;> first | rfl | exact absurd rfl h2 | cases h1
  cases aggStep_shift hq hp h with
  | look r p honly _ hhand =>
    have hsize : queueSize r.dataQueue = queueSize s.dataQueue := congrArg queueSize honly.dataQueue
    refine .rest hsize.le fun hb => ?_
    rw [hquiet hhand ht] at hb
    cases hb
  | ctrl m q _ _ hpc honly =>
    have hsize : queueSize t.dataQueue = queueSize s.dataQueue := congrArg queueSize honly.dataQueue
    have hrest : t.pc = .ctrl := honly.pc.trans hpc
    rw [hrest]
    exact .rest hsize.le nofun
  | unpark c park hpc => rw [hpc]; exact .rest le_rfl fun _ => rfl
  | rpush c m hpc =>
    rw [hpc]
    simp only [queueSize, push_items, List.length_append, List.length_singleton]
    exact .use
  | rclear | radd => exact .rest le_rfl nofun
  | take m q _ htake =>
    have hitems := (trypop_eq_some.1 htake).1
    refine .rest ?_ nofun
    show q.items.length ≤ s.dataQueue.items.length
    rw [hitems]
    exact Nat.le_succ _
  | final r _ honly =>
    have hsize : queueSize r.dataQueue = queueSize s.dataQueue := congrArg queueSize honly.dataQueue
    exact .rest hsize.le nofun

theorem after_tested (k : Caller) (c : UpstreamClient) : (k.after c).tested = false := by
  unfold Caller.after
  cases k with
  | resume => rfl
  | read hup => dsimp only; split_ifs <;> rfl

/-- the reactor comes to the push of a message behind the test of `publishReactorMessage` only -/
theorem handStep_tested {e : UpEnv} {size : ℕ} {h : Hand} {c : UpstreamClient}
    (ht : (handStep conf e size h c).1.tested = true) : size < conf.highWatermark ∧ ∃ k x, h = .publishing k x := by
  have hno : ∀ {g : Hand}, g.tested = false → g.tested = true → False := fun h1 h2 => by rw [h1] at h2; cases h2
  unfold handStep at ht
  cases h with
  | rest => cases ht
  | reported fl =>
    dsimp only [upstreamEventHead] at ht
    split_ifs at ht <;> cases ht
  | shaking fl =>
    unfold upstreamEventRead at ht
    dsimp only at ht
    split_ifs at ht <;> cases ht
  | receiving hup => dsimp only at ht; split at ht <;> cases ht
  | leaving hup => cases ht
  | processing k =>
    dsimp only at ht
    split at ht
    · exact (hno (after_tested k _) ht).elim
    all_goals cases ht
  | publishing k x =>
    unfold publishReactorMessage at ht
    dsimp only at ht
    by_cases hfull : conf.highWatermark ≤ size
    · rw [if_pos hfull] at ht
      rcases updateEvents_cases e { c with pendingMsg := some x, readPaused := true } with hu | hu
      · simp only [hu] at ht
        exact (hno (after_tested k _) ht).elim
      · simp only [hu] at ht
        cases ht
    · exact ⟨not_le.1 hfull, k, x, rfl⟩
  | pushing k x => cases ht
  | resuming => dsimp only at ht; split_ifs at ht <;> cases ht

/-- the reactor tests in `publishReactorMessage` and `resumePausedClients`, and pushes in the next step -/
theorem reactorStep_turn {q : Queue Msg} {r : Reactor} {e : UpEnv} {t : Queue Msg × Reactor}
    (h : reactorStep conf q r e = some t) :
    Turn (conf.highWatermark - 1) (queueSize q) r.pc.tested (queueSize t.1) t.2.pc.tested := by
  unfold reactorStep at h
  cases hpc : r.pc with
  | top => simp only [hpc] at h; obtain rfl := Option.some.inj h; cases e.shutdown <;> exact .rest le_rfl nofun
  | reconnect i now => simp only [hpc] at h; split_ifs at h <;> obtain rfl := Option.some.inj h <;> exact .rest le_rfl nofun
  | resume =>
    simp only [hpc] at h
    obtain rfl := Option.some.inj h
    refine .rest le_rfl fun hb => ?_
    dsimp only at hb
    split_ifs at hb <;> cases hb
  | resumeAt i =>
    simp only [hpc] at h
    split_ifs at h with h1 h2 h3 <;> obtain rfl := Option.some.inj h
    · exact .rest le_rfl nofun
    · exact .rest le_rfl nofun
    · exact .test (below_high (not_le.1 h3))
    · exact .rest le_rfl nofun
  | wait =>
    simp only [hpc] at h
    split at h
    · obtain rfl := Option.some.inj h; exact .rest le_rfl nofun
    · obtain rfl := Option.some.inj h; exact .rest le_rfl nofun
    · split_ifs at h; obtain rfl := Option.some.inj h; exact .rest le_rfl nofun
  | events evs => cases evs <;> simp only [hpc] at h <;> obtain rfl := Option.some.inj h <;> exact .rest le_rfl nofun
  | busy i hd back =>
    simp only [hpc] at h
    obtain rfl := Option.some.inj h
    dsimp only
    have hnext : (if (handStep conf e (queueSize q) hd (r.client i)).1 = .rest then back.pc i
        else .busy i (handStep conf e (queueSize q) hd (r.client i)).1 back : UpPc).tested =
        (handStep conf e (queueSize q) hd (r.client i)).1.tested := by
      split_ifs with hrest
      · rw [hrest]
        cases back <;> rfl
      · rfl
    rw [hnext]
    show Turn _ _ hd.tested _ _
    cases ht : (handStep conf e (queueSize q) hd (r.client i)).1.tested with
    | true =>
      obtain ⟨hlt, k, x, rfl⟩ := handStep_tested ht
      exact .test (below_high hlt)
    | false =>
      cases hpush : hd.pushes (r.client i) with
      | none => exact .rest le_rfl nofun
      | some x =>
        -- it pushes where it tested before
        have htested : hd.tested = true := by
          cases hd with
          | pushing | resuming => rfl
          | _ => cases hpush
        rw [htested]
        simp only [Option.elim_some, queueSize, push_items, List.length_append, List.length_singleton]
        exact .use
  | done => simp only [hpc] at h; cases h

/-! ## The bound -/

/-- dataQueue and the threads that have tested and not pushed yet -/
def Node.Covered (conf : ServerConfig) (W : ℕ) (n : Node) : Prop :=
  Tickets.Covered (threads W) (conf.highWatermark - 1) (queueSize n.srv.sys.dataQueue) n.tested

/-- a step of the server that is no thread's that pushes -/
theorem srvStep_quiet {s t : Srv} {b : Act} (h : srvStep conf s b = some t) (hw : ∀ w e, b ≠ .worker w e)
    (hagg : ∀ e, b ≠ .agg e) :
    t.sys.dataQueue = s.sys.dataQueue ∧ t.workers = s.workers ∧ t.sys.pc = s.sys.pc := by
  cases b with
  | accept => obtain rfl := Option.some.inj h; exact ⟨rfl, rfl, rfl⟩
  | deliver => simp only [srvStep] at h; split_ifs at h; obtain rfl := Option.some.inj h; exact ⟨rfl, rfl, rfl⟩
  | fetch => simp only [srvStep] at h; split_ifs at h; obtain rfl := Option.some.inj h; exact ⟨rfl, rfl, rfl⟩
  | enqueue => simp only [srvStep] at h; split_ifs at h; obtain rfl := Option.some.inj h; exact ⟨rfl, rfl, rfl⟩
  | worker w e => exact absurd rfl (hw w e)
  | agg e => exact absurd rfl (hagg e)

/-- **Every step keeps dataQueue covered.** -/
theorem nodeStep_covered (hg : Good n.srv) (hc : n.Covered conf W) (h : nodeStep conf W n a = some m) :
    m.Covered conf W := by
  rcases nodeStep_cases h with ⟨b, s, rfl, hb, hs, rfl⟩ | ⟨e, r, rfl, hr, rfl⟩
  · cases b with
    | worker w e =>
      refine hc.turn (t := Thread.worker w) ?_ (workerStep_turn hs) ?_
      · have hlt : w < W := hb
        simp [threads, hlt]
      · have hsys : s.sys.pc = n.srv.sys.pc := by cases workerStep_shift hs <;> rfl
        intro u hu
        cases u with
        | worker w' =>
          have hne : w' ≠ w := fun h => hu (congrArg Thread.worker h)
          exact congrArg WPc.tested (srvStep_workers hs fun e he => hne (Act.worker.inj he).1.symm)
        | reactor => rfl
        | agg => exact congrArg AggPc.tested hsys
    | agg e =>
      obtain ⟨u, hu, rfl⟩ := Option.map_eq_some_iff.1 hs
      refine hc.turn (t := Thread.agg) (by simp [threads]) (aggStep_turn hg.dataQueue hg.draining hu) ?_
      intro v hv
      cases v with
      | agg => exact absurd rfl hv
      | _ => rfl
    | accept | deliver | fetch | enqueue =>
      obtain ⟨h1, h2, h3⟩ := srvStep_quiet hs nofun nofun
      apply hc.mono
      · exact le_of_eq (congrArg queueSize h1)
      · intro v hv
        cases v with
        | worker w => rw [← hv]; exact (congrArg WPc.tested (congrFun h2 w)).symm
        | reactor => exact hv
        | agg => rw [← hv]; exact (congrArg AggPc.tested h3).symm
  · refine hc.turn (t := Thread.reactor) (by simp [threads]) (reactorStep_turn hr) ?_
    intro v hv
    cases v with
    | reactor => exact absurd rfl hv
    | _ => rfl

theorem node_covered {ok : Node → NodeAct → Prop} (h : Reach (nodeStep conf W) ok (.start client count) n) :
    n.Covered conf W := by
  refine h.invariant_of (P := fun n => Good n.srv) (fun n hn => node_good hn) (.test (Nat.zero_le _) _) ?_
  intro n a m hg hc _ hstep
  exact nodeStep_covered hg hc hstep

/-! ## What a connection holds -/

/-- the connection is on its way through the park list -/
def Srv.Parked (s : Srv) (c : ℕ) : Prop :=
  (∃ w, s.workers w = .parkPush c) ∨ c ∈ s.sys.park ∨ s.sys.pc.hand = some c

/-- a message is stored with a parked connection only, and behind the push it is cleared -/
structure Stored (s : Srv) : Prop where
  parked : ∀ c, (s.conn c).pendingMsg ≠ none → s.Parked c
  cleared : ∀ c, s.sys.pc = .radd c → (s.conn c).pendingMsg = none

variable {s t : Srv} {w : ℕ}

/-- a worker that stands elsewhere moves, and the park list may grow -/
theorem Srv.Parked.mono {c : ℕ} (h : s.Parked c) (hw : s.workers w ≠ .parkPush c)
    (hrest : ∀ w', w' ≠ w → t.workers w' = s.workers w') (hpark : c ∈ s.sys.park → c ∈ t.sys.park)
    (hpc : t.sys.pc = s.sys.pc) : t.Parked c := by
  rcases h with ⟨w', hw'⟩ | h | h
  · have hne : w' ≠ w := by rintro rfl; exact hw hw'
    exact .inl ⟨w', (hrest w' hne).trans hw'⟩
  · exact .inr (.inl (hpark h))
  · exact .inr (.inr (hpc ▸ h))

theorem update_rest {f : ℕ → WPc} {p : WPc} (w' : ℕ) (hne : w' ≠ w) : Function.update f w p w' = f w' :=
  Function.update_of_ne hne _ _

/-- no worker has the connection the aggregator adds to epoll -/
theorem Good.hand_alone (hg : Good s) {c : ℕ} (hpc : s.sys.pc = .radd c) : (s.workers w).holds ≠ some c := by
  intro hw
  have hhand : c ∈ s.cell .hand := by simp [Srv.cell, hpc, AggPc.hand]
  cases hg.excl.only _ _ c (mem_worker.2 hw) hhand

/-- a step of a worker stores a message on the way to the park list only -/
theorem WShift.stored (hg : Good s) (hs : Stored s) (h : WShift conf s w t) : Stored t := by
  -- what a worker does to one connection, when it stores nothing
  have hkeep : ∀ (c : ℕ) (v : Conn) (u : Srv) (p : WPc), (∀ d, s.workers w ≠ .parkPush d) → u.sys.park = s.sys.park →
      u.sys.pc = s.sys.pc → (∀ d, u.conn d = Function.update s.conn c v d) → u.workers = s.workers →
      (v.pendingMsg = (s.conn c).pendingMsg ∨ v.pendingMsg = none) → Stored (u.goto w p) := by
    intro c v u p hw hpark hpc hconn hworkers hv
    have hsub : ∀ d, (s.conn d).pendingMsg = none → (u.conn d).pendingMsg = none := by
      intro d hd
      rw [hconn d]
      by_cases hdc : d = c
      · subst hdc
        rw [Function.update_self]
        rcases hv with hv | hv
        · exact hv.trans hd
        · exact hv
      · rwa [Function.update_of_ne hdc]
    refine ⟨fun d hd => ?_, fun d hd => hsub d (hs.cleared d (hpc ▸ hd))⟩
    refine Srv.Parked.mono (w := w) (hs.parked d fun h => hd (hsub d h)) (hw d) ?_ (fun h => hpark ▸ h) hpc
    intro w' hne
    exact (update_rest w' hne).trans (congrFun hworkers w')
  have hself : ∀ d, s.conn d = Function.update s.conn 0 (s.conn 0) d := fun d => by rw [Function.update_eq_self]
  have hset : ∀ (c : ℕ) (v : Conn) (d : ℕ), (s.setConn c v).conn d = Function.update s.conn c v d := fun _ _ _ => rfl
  cases h with
  | take c q hw => exact hkeep 0 (s.conn 0) _ _ (by rw [hw]; rintro _ ⟨⟩) rfl rfl hself rfl (.inl rfl)
  | think c v p hw _ htouch =>
    exact hkeep c v _ _ (fun d => ((WPc.works_spec hw).2.2.2 d).1) rfl rfl (hset c v) rfl (.inl htouch.pendingMsg)
  | complete c eof m v hw htouch =>
    exact hkeep c v { s.setConn c v with completed := _ } _ (by rw [hw]; rintro _ ⟨⟩) rfl rfl (hset c v) rfl
      (.inl htouch.pendingMsg)
  | decide c eof m p hw => exact hkeep 0 (s.conn 0) s p (by rw [hw]; rintro _ ⟨⟩) rfl rfl hself rfl (.inl rfl)
  | push c eof m hw => exact hkeep 0 (s.conn 0) _ _ (by rw [hw]; rintro _ ⟨⟩) rfl rfl hself rfl (.inl rfl)
  | handoffPush c hw => exact hkeep 0 (s.conn 0) _ _ (by rw [hw]; rintro _ ⟨⟩) rfl rfl hself rfl (.inl rfl)
  | handoffDel c hw => exact hkeep c _ _ _ (by rw [hw]; rintro _ ⟨⟩) rfl rfl (hset c _) rfl (.inl rfl)
  | parkDel c hw => exact hkeep c _ _ _ (by rw [hw]; rintro _ ⟨⟩) rfl rfl (hset c _) rfl (.inl rfl)
  | apply c disp hw =>
    refine hkeep c _ _ _ (by rw [hw]; rintro _ ⟨⟩) rfl rfl (hset c _) rfl ?_
    cases disp with
    | DISP_CLOSE => exact .inr rfl
    | DISP_REARM_IN | DISP_REARM_OUT | DISP_REARM_INOUT =>
      left
      simp only [applyDisposition, rearmEpoll]
      split_ifs <;> rfl
    | DISP_PARKED | DISP_HANDOFF => exact .inl rfl
  | parkStore c m hw =>
    have hheld : (s.workers w).holds = some c := by rw [hw]; rfl
    refine ⟨fun d hd => ?_, fun d hd => ?_⟩
    · by_cases hdc : d = c
      · subst hdc
        exact .inl ⟨w, Function.update_self _ _ _⟩
      · rw [show ((s.setConn c _).goto w (.parkPush c)).conn d = s.conn d from setConn_conn_of_ne _ hdc] at hd
        exact (hs.parked d hd).mono (w := w) (by rw [hw]; rintro ⟨⟩) (fun w' hne => update_rest w' hne) id rfl
    · have hne : d ≠ c := by
        rintro rfl
        exact hg.hand_alone hd hheld
      rw [show ((s.setConn c _).goto w (.parkPush c)).conn d = s.conn d from setConn_conn_of_ne _ hne]
      exact hs.cleared d hd
  | parkPush c hw =>
    refine ⟨fun d hd => ?_, hs.cleared⟩
    by_cases hdc : d = c
    · subst hdc
      exact .inr (.inl (List.mem_append_right _ (List.mem_singleton_self _)))
    · refine (hs.parked d hd).mono (w := w) ?_ (fun w' hne => update_rest w' hne) (List.mem_append_left _) rfl
      rw [hw]
      exact fun h => hdc (WPc.parkPush.inj h).symm

/-- a step of the aggregator stores nothing, and clears what it pushed -/
theorem aggStep_stored {u : AggSys} {e : AggEnv} (hg : Good s) (hs : Stored s) (h : aggStep conf s.sys e = some u) :
    Stored { s with sys := u } := by
  have hsub : ∀ d, (u.conn d).pendingMsg ≠ none → (s.conn d).pendingMsg ≠ none := by
    intro d hd hnone
    rcases (aggStep_touch d h).pendingMsg with h1 | h1
    · exact hd (h1.trans hnone)
    · exact hd h1
  have hworker : ∀ {d : ℕ}, (∃ w, s.workers w = .parkPush d) → ({ s with sys := u } : Srv).Parked d := Or.inl
  cases aggStep_shift hg.dataQueue hg.draining h with
  | look r p honly hhand hp =>
    refine ⟨fun d hd => ?_, fun d hd => ?_⟩
    · rcases hs.parked d (hsub d hd) with h1 | h1 | h1
      · exact hworker h1
      · exact .inr (.inl (show d ∈ r.park by rw [honly.park]; exact h1))
      · rw [hhand] at h1; cases h1
    · rw [show p = .radd d from hd] at hp; cases hp
  | ctrl m q _ _ hpc honly =>
    have hpc' : u.pc = .ctrl := honly.pc.trans hpc
    refine ⟨fun d hd => ?_, fun d hd => ?_⟩
    · rcases hs.parked d (hsub d hd) with h1 | h1 | h1
      · exact hworker h1
      · exact .inr (.inl (show d ∈ u.park by rw [honly.park]; exact h1))
      · rw [hpc] at h1; cases h1
    · rw [show u.pc = .radd d from hd] at hpc'; cases hpc'
  | unpark c park hpc hpark =>
    refine ⟨fun d hd => ?_, nofun⟩
    rcases hs.parked d hd with h1 | h1 | h1
    · exact hworker h1
    · rw [hpark] at h1
      rcases List.mem_cons.1 h1 with rfl | h1
      · exact .inr (.inr rfl)
      · exact .inr (.inl h1)
    · rw [hpc] at h1; cases h1
  | rpush c m hpc =>
    refine ⟨fun d hd => ?_, nofun⟩
    rcases hs.parked d hd with h1 | h1 | h1
    · exact hworker h1
    · exact .inr (.inl h1)
    · rw [hpc] at h1; exact .inr (.inr h1)
  | rclear c hpc =>
    refine ⟨fun d hd => ?_, fun d hd => ?_⟩
    · rcases hs.parked d (hsub d hd) with h1 | h1 | h1
      · exact hworker h1
      · exact .inr (.inl h1)
      · rw [hpc] at h1; exact .inr (.inr h1)
    · obtain rfl := AggPc.radd.inj hd
      show (Function.update s.sys.conn c { s.sys.conn c with pendingMsg := none } c).pendingMsg = none
      rw [Function.update_self]
  | radd c hpc =>
    refine ⟨fun d hd => ?_, nofun⟩
    rcases hs.parked d (hsub d hd) with h1 | h1 | h1
    · exact hworker h1
    · exact .inr (.inl h1)
    · rw [hpc] at h1
      obtain rfl := Option.some.inj h1
      exact absurd (hs.cleared _ hpc) (hsub _ hd)
  | take m q hpc =>
    refine ⟨fun d hd => ?_, nofun⟩
    rcases hs.parked d hd with h1 | h1 | h1
    · exact hworker h1
    · exact .inr (.inl h1)
    · rw [hpc] at h1; cases h1
  | final r hpc honly =>
    refine ⟨fun d hd => ?_, nofun⟩
    rcases hs.parked d (hsub d hd) with h1 | h1 | h1
    · exact hworker h1
    · -- what was parked is freed
      have hmem : d ∈ r.park := by rw [honly.park]; exact h1
      refine absurd ?_ hd
      show (if d ∈ r.park then { r.conn d with pendingMsg := none } else r.conn d).pendingMsg = none
      rw [if_pos hmem]
    · rw [hpc] at h1; cases h1

theorem srvStep_stored {b : Act} (hg : Good s) (hs : Stored s) (h : srvStep conf s b = some t) : Stored t := by
  have hframe : ∀ {u : Srv}, (∀ d, (u.conn d).pendingMsg ≠ none → (s.conn d).pendingMsg ≠ none) →
      u.workers = s.workers → u.sys.park = s.sys.park → u.sys.pc = s.sys.pc → Stored u := by
    intro u hsub hworkers hpark hpc
    refine ⟨fun d hd => ?_, fun d hd => ?_⟩
    · have h1 := hs.parked d (hsub d hd)
      unfold Srv.Parked at h1 ⊢
      rwa [hworkers, hpark, hpc]
    · by_contra hne
      exact hsub d hne (hs.cleared d (hpc ▸ hd))
  have hset : ∀ {c : ℕ} {v : Conn}, (v.pendingMsg ≠ none → (s.conn c).pendingMsg ≠ none) →
      ∀ d, ((s.setConn c v).conn d).pendingMsg ≠ none → (s.conn d).pendingMsg ≠ none := by
    intro c v hv d hd
    by_cases hdc : d = c
    · subst hdc
      rw [setConn_conn_self] at hd
      exact hv hd
    · rwa [setConn_conn_of_ne _ hdc] at hd
  cases b with
  | accept =>
    obtain rfl := Option.some.inj h
    exact hframe (hset fun hd => absurd rfl hd) rfl rfl rfl
  | deliver c bytes fin =>
    simp only [srvStep] at h
    split_ifs at h
    obtain rfl := Option.some.inj h
    exact hframe (hset id) rfl rfl rfl
  | fetch c =>
    simp only [srvStep] at h
    split_ifs at h
    obtain rfl := Option.some.inj h
    exact hframe (hset id) rfl rfl rfl
  | enqueue c =>
    simp only [srvStep] at h
    split_ifs at h
    obtain rfl := Option.some.inj h
    exact hframe (fun _ => id) rfl rfl rfl
  | worker w e => exact (workerStep_shift h).stored hg hs
  | agg e =>
    obtain ⟨u, hu, rfl⟩ := Option.map_eq_some_iff.1 h
    exact aggStep_stored hg hs hu

theorem node_stored {ok : Node → NodeAct → Prop} (h : Reach (nodeStep conf W) ok (.start client count) n) : Stored n.srv := by
  refine h.invariant_of (P := fun n => Good n.srv) (Q := fun n => Stored n.srv) (fun n hn => node_good hn) ?_ ?_
  · exact ⟨fun c hc => absurd rfl hc, nofun⟩
  · intro n a m hg hs _ hstep
    rcases nodeStep_cases hstep with ⟨b, s, rfl, -, hb, rfl⟩ | ⟨e, r, rfl, -, rfl⟩
    · exact srvStep_stored hg hs hb
    · exact ⟨hs.parked, hs.cleared⟩

/-- how many messages connection `c` has completed that are not in dataQueue yet: with a worker, and its pendingMsg -/
def Srv.heldCount (W : ℕ) (s : Srv) (c : ℕ) : ℕ :=
  ((Finset.range W).filter fun w => (s.workers w).holds = some c ∧ (s.workers w).carries ≠ none).card +
    (s.conn c).pendingMsg.toList.length

/-- the same for client `i` of the reactor -/
def Reactor.heldCount (r : Reactor) (i : ℕ) : ℕ :=
  (r.pc.hand i).message.toList.length + (r.client i).pendingMsg.toList.length

/-- who works on a message of a connection does it alone, and nothing is stored with the connection -/
theorem Stored.heldCount_le (hg : Good s) (hs : Stored s) (W c : ℕ) : s.heldCount W c ≤ 1 := by
  unfold Srv.heldCount
  by_cases hp : (s.conn c).pendingMsg = none
  · rw [hp, Option.toList_none, List.length_nil, Nat.add_zero, Finset.card_le_one]
    intro w hw w' hw'
    have h1 := mem_worker.2 (Finset.mem_filter.1 hw).2.1
    have h2 := mem_worker.2 (Finset.mem_filter.1 hw').2.1
    exact Place.worker.inj (hg.excl.only _ _ c h1 h2)
  · have hnone : (Finset.range W).filter (fun w => (s.workers w).holds = some c ∧ (s.workers w).carries ≠ none) = ∅ := by
      rw [Finset.filter_eq_empty_iff]
      rintro w - ⟨hw, hcarry⟩
      have hmem := mem_worker.2 hw
      rcases hs.parked c hp with ⟨w', hw'⟩ | h1 | h1
      · have hmem' : c ∈ s.cell (.worker w') := mem_worker.2 (by rw [hw']; rfl)
        obtain rfl := Place.worker.inj (hg.excl.only _ _ c hmem hmem')
        rw [hw'] at hcarry
        exact hcarry rfl
      · exact nomatch hg.excl.only (.worker w) .park c hmem h1
      · exact nomatch hg.excl.only (.worker w) .hand c hmem (by simp [Srv.cell, h1])
    obtain ⟨x, hx⟩ := Option.ne_none_iff_exists'.1 hp
    rw [hnone, hx]
    rfl

/-- the thread has a message of a client in its hands while the client reads, and stores it when it stops -/
theorem Steady.held_le {r : Reactor} {i : ℕ} (h : Steady conf True (r.pc.hand i) (r.client i)) : r.heldCount i ≤ 1 := by
  unfold Reactor.heldCount
  obtain ⟨hw, hheld⟩ := h
  cases hh : r.pc.hand i with
  | publishing k x =>
    rw [hh] at hheld
    rw [Reading.pending hheld.1 hw.toSane]
    rfl
  | pushing k x =>
    rw [hh] at hheld
    rw [Reading.pending hheld.1 hw.toSane]
    rfl
  | _ =>
    show 0 + _ ≤ 1
    cases (r.client i).pendingMsg <;> simp

/-- **dataQueue is bounded.** However the `W` workers, the reactor and the aggregator interleave, each testing its
watermark in one step and pushing in another: dataQueue holds at most one message for each of them more than the high
watermark allows, and a connection or a client at most one that waits. -/
theorem dataQueue_bounded (conf : ServerConfig) (W : ℕ) (client : ℕ → UpstreamClient) (count : ℕ) (hadd : Added client)
    (n : Node) (h : Reachable (nodeStep conf W) (.start client count) n) :
    queueSize n.srv.sys.dataQueue ≤ conf.highWatermark - 1 + W + 2 ∧ (∀ c, n.srv.heldCount W c ≤ 1) ∧
      ∀ i, n.reactor.heldCount i ≤ 1 := by
  refine ⟨?_, fun c => (node_stored h).heldCount_le (node_good h) W c, fun i => ?_⟩
  · have hle := (node_covered h).le
    rw [card_threads] at hle
    omega
  · have hup := nodeReach_up (nodeReach_any h)
    exact Steady.held_le (@upReach_steady conf True _ _ _ _ (fun _ _ _ _ _ _ => trivial) hadd hup i)

/-- two messages fill dataQueue and the third is parked -/
theorem dataQueue_bounded_parked : ∃ n, Reachable (nodeStep tinyConf 1) (.start (fun _ => closedClient 9) 1) n ∧
    queueSize n.srv.sys.dataQueue = 2 ∧ (n.srv.conn 2).pendingMsg ≠ none ∧
    queueSize n.srv.sys.dataQueue ≤ tinyConf.highWatermark - 1 + 1 + 2 ∧ n.srv.heldCount 1 2 ≤ 1 := by
  obtain ⟨n, hn, hp⟩ := Reachable.of_check (nodeStep tinyConf 1) (.start (fun _ => closedClient 9) 1)
    ((parkRun []).map .srv) (fun n => queueSize n.srv.sys.dataQueue = 2 ∧ (n.srv.conn 2).pendingMsg ≠ none)
    (by decide +kernel)
  rw [decide_eq_true_eq] at hp
  obtain ⟨hsize, hheld, -⟩ := dataQueue_bounded tinyConf 1 (fun _ => closedClient 9) 1 (added_closedClient 9) n hn
  exact ⟨n, hn, hp.1, hp.2, hsize, hheld 2⟩

end WsServer
