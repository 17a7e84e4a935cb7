/-
`main` of `src/server.c`: the whole program from the start of its threads to the end.

`Life` is the program (`Server/Node.lean`) with the main thread. Behind `sigwait` main sets the flag, joins the reactor and
destroys it, joins the listeners, shuts the ingest queue down and joins the workers, shuts dataQueue and ctrlQueue down and
joins the aggregator, and frees what is left. `Phase` is how far it has come; a thread goes on until it is joined. All
threads were created, and the reactor only when there is an upstream.

`made` and `freed` are a record of the messages allocated and freed (`Server/Freed.lean`).

- `life_kept`: who has which connection, in every phase.
- `shutdown_in_order`: a queue is shut down when nobody is left who pushes to it but the aggregator itself, and what main
  frees nobody else has.
-/
import Mathlib
import WsServer.Core.Custody
import WsServer.Server.Node
import WsServer.Server.Registry

namespace WsServer

open Ws Machine Places Custody

/-- how far main has come -/
inductive Phase where
  /-- in `sigwait` -/
  | running
  /-- `shutdown` is set, and the listeners are woken -/
  | flagged
  /-- the reactor is joined and destroyed -/
  | noReactor
  | noListeners
  /-- `shutdownQueue(queue)` -/
  | queueShut
  | noWorkers
  | dataShut
  | ctrlShut
  | noAgg
  /-- `registryDestroyAll` -/
  | noConns
  /-- the queues are deleted -/
  | ended
deriving DecidableEq, Repr

def Phase.rank : Phase → ℕ
  | .running => 0
  | .flagged => 1
  | .noReactor => 2
  | .noListeners => 3
  | .queueShut => 4
  | .noWorkers => 5
  | .dataShut => 6
  | .ctrlShut => 7
  | .noAgg => 8
  | .noConns => 9
  | .ended => 10

structure Life where
  node : Node
  phase : Phase
  -- the record
  made : List Msg
  freed : List Msg

inductive LifeAct where
  | node (a : NodeAct)
  /-- a listener stops, and leaves what stands behind EV_SHUTDOWN in its batch -/
  | abandon (c : ℕ)
  /-- main goes on -/
  | main

/-! ## What is allocated and freed -/

/-- the messages a step of a worker makes: `msgNewData` in `handleWsOpen`, `msgNewSinkAdd` in `handleHandshakeSend` -/
def Srv.makes (conf : ServerConfig) (s : Srv) : Act → List Msg
  | .worker w e =>
    match s.workers w with
    | .loop c _ =>
      if (s.conn c).closeAfterSend then []
      else
        match wsFrame conf (s.conn c) with
        | .message v opcode data => [msgNewData v.id opcode e.ts data]
        | _ => []
    | .handoffPush c => [msgNewSinkAdd c]
    | _ => []
  | _ => []

/-- the message a step of the aggregator takes from ctrlQueue -/
def AggSys.takesCtrl (s : AggSys) : Option Msg :=
  match s.pc with
  | .ctrl | .drainCtrl => (trypop s.ctrlQueue).map Prod.fst
  | _ => none

def AggSys.takesData (s : AggSys) : Option Msg :=
  match s.pc with
  | .take | .drainData => (trypop s.dataQueue).map Prod.fst
  | _ => none

/-- the connections whose message a step of the aggregator frees: `connClose` on the sink, `aggFreeState` -/
def AggSys.empties (s : AggSys) (e : AggEnv) : List ℕ :=
  (s.closes e).toList ++ match s.pc with
    | .final => s.park
    | _ => []

/-- `msgFree` in a step of the server -/
def Srv.frees (s : Srv) : Act → List Msg
  | .agg e => s.sys.takesCtrl.toList ++ s.sys.takesData.toList ++ drawn (s.sys.empties e) fun c => (s.conn c).pendingMsg
  | a => drawn (s.closes a).toList fun c => (s.conn c).pendingMsg

/-- `msgNewData` in a step of the reactor -/
def Hand.makes (conf : ServerConfig) (e : UpEnv) (h : Hand) (c : UpstreamClient) : List Msg :=
  match h with
  | .processing _ =>
    match upstreamFrame conf e c with
    | .message c opcode data => [msgNewData c.id opcode e.ts data]
    | _ => []
  | _ => []

/-- `msgFree` in a step of the reactor that leaves the client `d`: in `upstreamDisconnect`, which ends a session, and in
`publishReactorMessage` when the client cannot be paused -/
def Hand.frees (h : Hand) (c d : UpstreamClient) : List Msg :=
  if d.past.length = c.past.length then []
  else
    match h with
    | .publishing _ m => [m]
    | .resuming => []
    | _ => c.pendingMsg.toList

def Reactor.makes (conf : ServerConfig) (e : UpEnv) (r : Reactor) : List Msg :=
  match r.pc with
  | .busy i h _ => h.makes conf e (r.client i)
  | _ => []

def Reactor.frees (r r' : Reactor) : List Msg :=
  match r.pc with
  | .busy i h _ => h.frees (r.client i) (r'.client i)
  | _ => []

def Node.makes (conf : ServerConfig) (n : Node) : NodeAct → List Msg
  | .srv a => n.srv.makes conf a
  | .up e => n.reactor.makes conf e

def Node.frees (n n' : Node) : NodeAct → List Msg
  | .srv a => n.srv.frees a
  | .up _ => n.reactor.frees n'.reactor

/-! ## The steps -/

/-- `upstreamDestroy` -/
def upstreamDestroy (c : UpstreamClient) : UpstreamClient := { c with fd := none, interest := none, pendingMsg := none }

/-- the threads that are not joined yet; the flag is read as it is -/
def Life.lets (l : Life) : NodeAct → Prop
  | .srv .accept | .srv (.fetch _) | .srv (.enqueue _) => l.phase.rank < Phase.noListeners.rank
  | .srv (.worker _ _) => l.phase.rank < Phase.noWorkers.rank
  | .srv (.agg _) => l.phase.rank < Phase.noAgg.rank
  | .srv (.deliver _ _ _) => l.phase.rank < Phase.noConns.rank
  | .up e => 0 < l.node.reactor.count ∧ l.phase.rank < Phase.noReactor.rank ∧ e.shutdown = decide (l.phase ≠ .running)

instance (l : Life) (a : NodeAct) : Decidable (l.lets a) :=
  match a with
  | .srv .accept | .srv (.fetch _) | .srv (.enqueue _) =>
    inferInstanceAs (Decidable (l.phase.rank < Phase.noListeners.rank))
  | .srv (.worker _ _) => inferInstanceAs (Decidable (l.phase.rank < Phase.noWorkers.rank))
  | .srv (.agg _) => inferInstanceAs (Decidable (l.phase.rank < Phase.noAgg.rank))
  | .srv (.deliver _ _ _) => inferInstanceAs (Decidable (l.phase.rank < Phase.noConns.rank))
  | .up e => inferInstanceAs (Decidable
      (0 < l.node.reactor.count ∧ l.phase.rank < Phase.noReactor.rank ∧ e.shutdown = decide (l.phase ≠ .running)))

/-- the connections `registryDestroyAll` finds -/
def Srv.registered (s : Srv) : List ℕ := (List.range s.nextId).filter fun c => (s.conn c).live

def Life.setSrv (l : Life) (s : Srv) : Life := { l with node := { l.node with srv := s } }

/-- the next thing main does, as soon as the threads it joins have ended -/
def mainStep (W : ℕ) (l : Life) : Option Life :=
  let s := l.node.srv
  let r := l.node.reactor
  match l.phase with
  | .running => some { l with phase := .flagged }
  | .flagged =>
    if r.count = 0 ∨ r.pc = .done then
      some { l with
        node := { l.node with reactor := { r with client := fun i => upstreamDestroy (r.client i) } }
        phase := .noReactor
        freed := l.freed ++ drawn (List.range r.count) fun i => (r.client i).pendingMsg }
    else none
  | .noReactor => if s.fetched = [] then some { l with phase := .noListeners } else none
  | .noListeners => some { l.setSrv { s with queue := shutdownQueue s.queue } with phase := .queueShut }
  -- `pop` has returned -1 to every worker
  | .queueShut =>
    if (∀ w < W, s.workers w = .idle) ∧ s.queue.items = [] ∧ s.queue.shutdown = true then
      some { l with phase := .noWorkers }
    else none
  | .noWorkers => some { l.setSrv (s.withData (shutdownQueue s.sys.dataQueue)) with phase := .dataShut }
  | .dataShut =>
    some { l.setSrv { s with sys := { s.sys with ctrlQueue := shutdownQueue s.sys.ctrlQueue } } with phase := .ctrlShut }
  | .ctrlShut => if s.sys.pc = .done then some { l with phase := .noAgg } else none
  | .noAgg =>
    some { l.setSrv (s.freeAll s.registered) with
      phase := .noConns
      freed := l.freed ++ drawn s.registered fun c => (s.conn c).pendingMsg }
  | .noConns =>
    some { l.setSrv { s with sys := { s.sys with
        dataQueue := { s.sys.dataQueue with items := [] }, ctrlQueue := { s.sys.ctrlQueue with items := [] } } } with
      phase := .ended
      freed := l.freed ++ s.sys.dataQueue.items ++ s.sys.ctrlQueue.items }
  | .ended => none

def lifeStep (conf : ServerConfig) (W : ℕ) (l : Life) : LifeAct → Option Life
  | .node a =>
    if l.lets a then
      (nodeStep conf W l.node a).map fun n =>
        { l with node := n, made := l.made ++ l.node.makes conf a, freed := l.freed ++ l.node.frees n a }
    else none
  | .abandon c =>
    if 0 < l.phase.rank ∧ c ∈ l.node.srv.fetched then
      some (l.setSrv { l.node.srv with fetched := l.node.srv.fetched.erase c })
    else none
  | .main => mainStep W l

/-- all threads are created -/
def Life.start (client : ℕ → UpstreamClient) (count : ℕ) : Life := ⟨.start client count, .running, [], []⟩

/-! ## The queues -/

/-- the message `resumeParked` pushes -/
def AggSys.pushes (s : AggSys) : Option Msg :=
  match s.pc with
  | .rpush c => (s.conn c).pendingMsg
  | _ => none

variable {conf : ServerConfig} {W : ℕ}

/-- `c` and `d` are taken from the front of the queues, `p` is pushed to dataQueue -/
structure QueueStep (s t : AggSys) (c d p : Option Msg) : Prop where
  ctrl : c.toList ++ t.ctrlQueue.items = s.ctrlQueue.items
  data : d.toList ++ t.dataQueue.items = s.dataQueue.items ++ p.toList
  ctrlShut : t.ctrlQueue.shutdown = s.ctrlQueue.shutdown
  dataShut : t.dataQueue.shutdown = s.dataQueue.shutdown

variable {s t : AggSys} {e : AggEnv} {m : Msg} {q : Queue Msg}

theorem QueueStep.quiet (hctrl : t.ctrlQueue = s.ctrlQueue) (hdata : t.dataQueue = s.dataQueue) :
    QueueStep s t none none none :=
  ⟨congrArg Queue.items hctrl, (congrArg Queue.items hdata).trans (List.append_nil _).symm, congrArg Queue.shutdown hctrl,
    congrArg Queue.shutdown hdata⟩

theorem QueueStep.ofCtrl (hq : trypop s.ctrlQueue = some (m, q)) (hctrl : t.ctrlQueue = q) (hdata : t.dataQueue = s.dataQueue) :
    QueueStep s t (some m) none none := by
  obtain ⟨hitems, hshut⟩ := trypop_eq_some.1 hq
  rw [← hctrl] at hitems hshut
  exact ⟨hitems.symm, (congrArg Queue.items hdata).trans (List.append_nil _).symm, hshut, congrArg Queue.shutdown hdata⟩

theorem QueueStep.ofData (hq : trypop s.dataQueue = some (m, q)) (hctrl : t.ctrlQueue = s.ctrlQueue) (hdata : t.dataQueue = q) :
    QueueStep s t none (some m) none := by
  obtain ⟨hitems, hshut⟩ := trypop_eq_some.1 hq
  rw [← hdata] at hitems hshut
  exact ⟨congrArg Queue.items hctrl, hitems.symm.trans (List.append_nil _).symm, congrArg Queue.shutdown hctrl, hshut⟩

/-- **The aggregator and the queues**, in the shutdown too: it takes from the front, and pushes what it resumes. -/
theorem aggStep_queues (h : aggStep conf s e = some t) : QueueStep s t s.takesCtrl s.takesData s.pushes := by
  have honly : ∀ {who : ℕ → Prop} {u : AggSys} {p : AggPc}, SinkOnly who s u → t = { u with pc := p } →
      QueueStep s t none none none := by
    rintro who u p hu rfl
    exact .quiet hu.ctrlQueue hu.dataQueue
  unfold aggStep at h
  unfold AggSys.takesCtrl AggSys.takesData AggSys.pushes
  cases hpc : s.pc with
  | ctrl | drainCtrl =>
    simp only [hpc] at h ⊢
    cases hq : trypop s.ctrlQueue with
    | none =>
      simp only [hq] at h
      obtain rfl := Option.some.inj h
      exact .quiet rfl rfl
    | some r =>
      simp only [hq] at h
      obtain rfl := Option.some.inj h
      have hsink := handleCtrl_only { s with ctrlQueue := r.2, pc := s.pc } e.sends r.1
      rw [← hpc]
      exact .ofCtrl hq hsink.ctrlQueue hsink.dataQueue
  | take =>
    simp only [hpc] at h ⊢
    cases hq : trypop s.dataQueue with
    | none =>
      simp only [hq] at h
      obtain rfl := Option.some.inj h
      exact .quiet rfl rfl
    | some r =>
      simp only [hq] at h
      obtain rfl := Option.some.inj h
      exact .ofData hq rfl rfl
  | drainData =>
    have hdrain : ∀ (u : AggSys) (m : Msg), (drainMessage u e.sends m).ctrlQueue = u.ctrlQueue ∧
        (drainMessage u e.sends m).dataQueue = u.dataQueue := by
      intro u m
      unfold drainMessage
      split_ifs <;> exact ⟨rfl, rfl⟩
    simp only [hpc] at h ⊢
    cases hq : trypop s.dataQueue with
    | none =>
      simp only [hq] at h
      obtain rfl := Option.some.inj h
      exact .quiet rfl rfl
    | some r =>
      simp only [hq] at h
      obtain rfl := Option.some.inj h
      exact .ofData hq (hdrain _ _).1 (hdrain _ _).2
  | rpush c =>
    simp only [hpc] at h ⊢
    obtain ⟨m, hm, rfl⟩ := Option.map_eq_some_iff.1 h
    rw [hm]
    exact ⟨rfl, rfl, rfl, rfl⟩
  | pump =>
    have hflush := sinkFlush_only (fun _ => False) s e.sends
    simp only [hpc] at h
    split_ifs at h
    all_goals obtain rfl := Option.some.inj h
    · exact .quiet rfl rfl
    · exact honly (hflush.trans (closeSink_only _ _)) rfl
    · exact honly hflush rfl
    · exact honly hflush rfl
  | unpark =>
    simp only [hpc] at h
    split at h <;> obtain rfl := Option.some.inj h <;> exact .quiet rfl rfl
  | exitCtrl | exitDrain =>
    simp only [hpc] at h
    split_ifs at h <;> obtain rfl := Option.some.inj h <;> exact .quiet rfl rfl
  | wait =>
    simp only [hpc] at h
    split at h <;> obtain rfl := Option.some.inj h <;> exact .quiet rfl rfl
  | events evs =>
    cases evs with
    | nil => simp only [hpc] at h; obtain rfl := Option.some.inj h; exact .quiet rfl rfl
    | cons ev evs =>
      simp only [hpc] at h
      obtain rfl := Option.some.inj h
      exact honly (handleEvent_only (fun _ => False) s e ev) rfl
  | final =>
    simp only [hpc] at h
    obtain rfl := Option.some.inj h
    have hsink := freeSink_only (fun _ => False) s e.sends
    exact .quiet hsink.ctrlQueue hsink.dataQueue
  | mark | rclear | radd | exitData => simp only [hpc] at h; obtain rfl := Option.some.inj h; exact .quiet rfl rfl
  | done => simp only [hpc] at h; cases h

/-- dataQueue gets shorter, or the stored message of the connection that is resumed goes behind it -/
theorem aggStep_data (h : aggStep conf s e = some t) : t.dataQueue.items <:+ s.dataQueue.items ∨
    ∃ c m, s.pc = .rpush c ∧ (s.conn c).pendingMsg = some m ∧ t.dataQueue.items = s.dataQueue.items ++ [m] := by
  have hq := (aggStep_queues h).data
  cases hpush : s.pushes with
  | none =>
    rw [hpush] at hq
    exact .inl ⟨_, hq.trans (List.append_nil _)⟩
  | some m =>
    unfold AggSys.pushes at hpush
    split at hpush
    · next c hpc =>
      -- what pushes takes nothing
      have hnone : s.takesData = none := by unfold AggSys.takesData; rw [hpc]
      rw [hnone, AggSys.pushes, hpc] at hq
      exact .inr ⟨c, m, hpc, hpush, by simpa [hpush] using hq⟩
    · cases hpush

/-! ## The messages stored with connections -/

/-- a connection keeps its message, or it is closed and the message is freed -/
def Settled (a b : Conn) : Prop := b.pendingMsg = a.pendingMsg ∧ b.live = a.live ∨ b.pendingMsg = none ∧ b.live = false

theorem Settled.refl (a : Conn) : Settled a a := .inl ⟨rfl, rfl⟩

theorem Settled.trans {a b c : Conn} (h : Settled a b) (h' : Settled b c) : Settled a c := by
  rcases h' with ⟨hp, hl⟩ | hgone
  · rcases h with ⟨hp', hl'⟩ | ⟨hp', hl'⟩
    · exact .inl ⟨hp.trans hp', hl.trans hl'⟩
    · exact .inr ⟨hp.trans hp', hl.trans hl'⟩
  · exact .inr hgone

/-- one connection is changed -/
theorem Settled.update {f : ℕ → Conn} {k : ℕ} {v : Conn} (h : Settled (f k) v) (x : ℕ) :
    Settled (f x) (Function.update f k v x) := by
  by_cases hx : x = k
  · subst hx
    rwa [Function.update_self]
  · rw [Function.update_of_ne hx]
    exact .refl _

variable (x : ℕ)

theorem closeSink_settled (s : AggSys) : Settled (s.conn x) ((closeSink s).conn x) := by
  unfold closeSink
  split
  · exact .refl _
  · exact .update (.inr ⟨rfl, rfl⟩) x

theorem freeSink_settled (s : AggSys) (sends : List SendRes) : Settled (s.conn x) ((freeSink s sends).conn x) := by
  unfold freeSink
  split_ifs
  · exact closeSink_settled x (sendCloseBestEffort s sends 1001)
  · exact .refl _

theorem handleCtrl_settled (s : AggSys) (sends : List SendRes) (m : Msg) :
    Settled (s.conn x) ((handleCtrl s sends m).conn x) := by
  unfold handleCtrl
  split
  · rw [adoptSink_eq]
    refine (freeSink_settled x s sends).trans (.update ?_ x)
    exact .inl ⟨rfl, rfl⟩
  · exact .refl _
  · exact .refl _

theorem handleEvent_settled (s : AggSys) (e : AggEnv) (ev : AggEvent) : Settled (s.conn x) ((handleEvent s e ev).conn x) := by
  cases ev with
  | wake => exact .refl _
  | timer => exact .refl _
  | conn k hup inn =>
    have hread : Settled (s.conn x) ((sinkReadAndHandle s e k).2.conn x) := by
      unfold sinkReadAndHandle
      dsimp only
      split <;> split <;> refine Settled.update (f := s.conn) ?_ x <;> exact .inl ⟨rfl, rfl⟩
    simp only [handleEvent]
    split_ifs
    · exact .refl _
    · exact closeSink_settled x s
    · exact hread
    · exact hread.trans (closeSink_settled x _)
    · exact .refl _

/-- **What the aggregator does to the message of a connection** it neither resumes nor frees at its end. -/
theorem aggStep_settled (h : aggStep conf s e = some t) (hclear : s.pc ≠ .rclear x) (hfinal : s.pc = .final → x ∉ s.park) :
    Settled (s.conn x) (t.conn x) := by
  have hctrl : ∀ (u : AggSys) (m : Msg), u.conn = s.conn → Settled (s.conn x) ((handleCtrl u e.sends m).conn x) := by
    intro u m hu
    rw [← hu]
    exact handleCtrl_settled x u e.sends m
  unfold aggStep at h
  cases hpc : s.pc with
  | pump =>
    simp only [hpc] at h
    have hflush := sinkFlush_conn s e.sends
    split_ifs at h <;> obtain rfl := Option.some.inj h
    · exact .refl _
    · rw [← hflush]
      exact closeSink_settled x (sinkFlush s e.sends).2
    · dsimp only
      rw [hflush]
      exact .refl _
    · dsimp only
      rw [hflush]
      exact .refl _
  | ctrl | drainCtrl =>
    simp only [hpc] at h
    split at h <;> obtain rfl := Option.some.inj h
    · exact .refl _
    · exact hctrl _ _ rfl
  | rpush k =>
    simp only [hpc] at h
    obtain ⟨m, -, rfl⟩ := Option.map_eq_some_iff.1 h
    exact .refl _
  | rclear k =>
    simp only [hpc] at h
    obtain rfl := Option.some.inj h
    have hne : x ≠ k := by
      rintro rfl
      exact hclear hpc
    dsimp only
    rw [Function.update_of_ne hne]
    exact .refl _
  | radd k =>
    simp only [hpc] at h
    obtain rfl := Option.some.inj h
    refine .update ?_ x
    unfold epollAdd
    split_ifs <;> exact .inl ⟨rfl, rfl⟩
  | mark | exitData => simp only [hpc] at h; obtain rfl := Option.some.inj h; exact .refl _
  | unpark | take | exitCtrl | exitDrain | wait =>
    simp only [hpc] at h
    split at h <;> obtain rfl := Option.some.inj h <;> exact .refl _
  | events evs =>
    cases evs with
    | nil => simp only [hpc] at h; obtain rfl := Option.some.inj h; exact .refl _
    | cons ev evs =>
      simp only [hpc] at h
      obtain rfl := Option.some.inj h
      exact handleEvent_settled x s e ev
  | drainData =>
    simp only [hpc] at h
    split at h <;> obtain rfl := Option.some.inj h
    · exact .refl _
    · rw [drainMessage_conn]
      exact .refl _
  | final =>
    simp only [hpc] at h
    obtain rfl := Option.some.inj h
    have hpark : (freeSink s e.sends).park = s.park := (freeSink_only (fun _ => False) s e.sends).park
    have hout : x ∉ (freeSink s e.sends).park := by
      rw [hpark]
      exact hfinal hpc
    refine (freeSink_settled x s e.sends).trans ?_
    show Settled _ (if x ∈ (freeSink s e.sends).park then _ else (freeSink s e.sends).conn x)
    rw [if_neg hout]
    exact .refl _
  | done => simp only [hpc] at h; cases h

/-! ## Who is live -/

variable {srv srv' : Srv} {b : Act}

/-- a message is stored with a live connection only -/
def Conn.Keeps (c : Conn) : Prop := c.pendingMsg ≠ none → c.live = true

theorem Conn.Keeps.of_none {c : Conn} (h : c.pendingMsg = none) : c.Keeps := fun hne => absurd h hne

theorem Conn.Keeps.same {c d : Conn} (h : c.Keeps) (hp : d.pendingMsg = c.pendingMsg) (hl : d.live = c.live) : d.Keeps :=
  fun hd => hl.trans (h fun hc => hd (hp.trans hc))

theorem Conn.Keeps.settled {c d : Conn} (h : c.Keeps) (hs : Settled c d) : d.Keeps := by
  rcases hs with ⟨hp, hl⟩ | ⟨hp, -⟩
  · exact h.same hp hl
  · exact .of_none hp

/-- everything in a place is live -/
structure Srv.Sound (s : Srv) : Prop where
  good : Good s.calm
  held : ∀ p c, c ∈ s.cell p → (s.conn c).live = true

theorem setConn_keeps {c : ℕ} (h : ∀ d, (srv.conn d).Keeps) (v : Conn) (hv : v.Keeps) (d : ℕ) :
    ((srv.setConn c v).conn d).Keeps := by
  by_cases hd : d = c
  · rw [hd, setConn_conn_self]
    exact hv
  · rw [setConn_conn_of_ne v hd]
    exact h d

theorem applyDisposition_keeps {v : Conn} (h : v.Keeps) (disp : Disposition) : (applyDisposition v disp).Keeps := by
  have hrearm : ∀ out, (rearmEpoll v out).Keeps := by
    intro out
    unfold rearmEpoll
    split_ifs <;> exact h
  cases disp with
  | DISP_CLOSE => exact .of_none rfl
  | DISP_REARM_IN => exact hrearm false
  | DISP_REARM_OUT | DISP_REARM_INOUT => exact hrearm true
  | DISP_PARKED | DISP_HANDOFF => exact h

theorem WShift.keeps {w : ℕ} (hs : srv.Sound) (h : ∀ d, (srv.conn d).Keeps) (hstep : WShift conf srv w srv') (d : ℕ) :
    (srv'.conn d).Keeps := by
  cases hstep with
  | take | decide | push | parkPush | handoffPush => exact h d
  | think c v p _ _ htouch => exact setConn_keeps h v ((h c).same htouch.pendingMsg htouch.live) d
  | complete c eof m v _ htouch => exact setConn_keeps h v ((h c).same htouch.pendingMsg htouch.live) d
  | parkStore c m hw =>
    have hlive := hs.held (.worker w) c (mem_worker.2 (by rw [hw]; rfl))
    exact setConn_keeps h { srv.conn c with pendingMsg := some m } (fun _ => hlive) d
  | parkDel c | handoffDel c => exact setConn_keeps h { srv.conn c with reg := .absent } (h c) d
  | apply c disp => exact setConn_keeps h _ (applyDisposition_keeps (h c) disp) d

theorem aggStep_keeps (h : aggStep conf s e = some t) (hk : (s.conn x).Keeps) : (t.conn x).Keeps := by
  by_cases hclear : s.pc = .rclear x
  · unfold aggStep at h
    simp only [hclear] at h
    obtain rfl := Option.some.inj h
    exact .of_none (by dsimp only; rw [Function.update_self])
  by_cases hfinal : s.pc = .final ∧ x ∈ s.park
  · unfold aggStep at h
    simp only [hfinal.1] at h
    obtain rfl := Option.some.inj h
    have hpark : (freeSink s e.sends).park = s.park := (freeSink_only (fun _ => False) s e.sends).park
    have hin : x ∈ (freeSink s e.sends).park := by
      rw [hpark]
      exact hfinal.2
    refine .of_none ?_
    show (if x ∈ (freeSink s e.sends).park then _ else (freeSink s e.sends).conn x : Conn).pendingMsg = none
    rw [if_pos hin]
  · exact hk.settled (aggStep_settled x h hclear fun hpc hx => hfinal ⟨hpc, hx⟩)

theorem srvStep_keeps (hs : srv.Sound) (h : ∀ d, (srv.conn d).Keeps) (hstep : srvStep conf srv b = some srv') (d : ℕ) :
    (srv'.conn d).Keeps := by
  cases b with
  | accept =>
    obtain rfl := Option.some.inj hstep
    exact setConn_keeps h (connNew srv.nextId) (.of_none rfl) d
  | deliver c bytes fin =>
    simp only [srvStep] at hstep
    split_ifs at hstep
    obtain rfl := Option.some.inj hstep
    exact setConn_keeps h { srv.conn c with sock := ⟨(srv.conn c).sock.inq ++ bytes, fin⟩ } (h c) d
  | fetch c =>
    simp only [srvStep] at hstep
    split_ifs at hstep
    obtain rfl := Option.some.inj hstep
    exact setConn_keeps h { srv.conn c with reg := .disabled } (h c) d
  | enqueue c =>
    simp only [srvStep] at hstep
    split_ifs at hstep
    obtain rfl := Option.some.inj hstep
    exact h d
  | worker w e => exact (workerStep_shift hstep).keeps hs h d
  | agg e =>
    obtain ⟨u, hu, rfl⟩ := Option.map_eq_some_iff.1 hstep
    exact aggStep_keeps d hu (h d)

theorem Srv.Sound.step (hs : srv.Sound) (h : srvStep conf srv b = some srv') : srv'.Sound where
  good := srvStep_calm_good hs.good h
  held p c hc := by
    by_cases hb : b = .accept
    · subst hb
      have hold : (srv.conn c).live = true := by
        refine hs.held p c ?_
        obtain rfl := Option.some.inj h
        cases p <;> exact hc
      have hne : c ≠ srv.nextId := by
        rintro rfl
        have hdead := (hs.good.fine srv.nextId).dead le_rfl
        rw [show (srv.conn srv.nextId).live = false from hdead] at hold
        cases hold
      obtain rfl := Option.some.inj h
      exact (congrArg Conn.live (setConn_conn_of_ne (connNew srv.nextId) hne)).trans hold
    · have hkeep : srv.closes b ≠ some c := fun hcl => srvStep_lost hs.good h hcl p hc
      refine (srvStep_lives h hb c).trans ?_
      rw [if_neg hkeep]
      rcases srvStep_owned h ⟨p, hc⟩ with ⟨q, hq⟩ | hlive
      · exact hs.held q c hq
      · exact hlive

/-- the places and the connections are the same -/
theorem Srv.Sound.same (hs : srv.Sound) (hcell : srv'.cell = srv.cell) (hconn : srv'.sys.conn = srv.sys.conn)
    (hworkers : srv'.workers = srv.workers) (hnext : srv'.nextId = srv.nextId) : srv'.Sound where
  good := by
    have hcells : srv'.calm.cell = srv.calm.cell := by rw [calm_cell, calm_cell, hcell]
    refine hs.good.frame (hcells ▸ hs.good.excl) (fun d => ?_) (fun p d hd => hcells ▸ hd) hworkers hnext rfl
      (AggPc.calm_draining _)
    rw [show srv'.calm.conn d = srv.calm.conn d from congrFun hconn d]
    exact .refl _
  held p c hc := by
    rw [show srv'.conn c = srv.conn c from congrFun hconn c]
    exact hs.held p c (hcell ▸ hc)

/-! ## The reactor -/

/-- the clients the thread works on are there -/
def UpPc.Within (k : ℕ) : UpPc → Prop
  | .events evs => ∀ ev ∈ evs, ev.1 < k
  | .busy i _ .resume => i < k
  | .busy i _ (.events evs) => i < k ∧ ∀ ev ∈ evs, ev.1 < k
  | _ => True

theorem UpPc.Within.lt {k i : ℕ} {h : Hand} {back : Back} (hw : (UpPc.busy i h back).Within k) : i < k := by
  cases back with
  | resume => exact hw
  | events evs => exact hw.1

theorem reactorStep_within {q : Queue Msg} {r : Reactor} {e : UpEnv} {t : Queue Msg × Reactor} (hw : r.pc.Within r.count)
    (h : reactorStep conf q r e = some t) : t.2.pc.Within t.2.count ∧ t.2.count = r.count := by
  unfold reactorStep at h
  cases hpc : r.pc with
  | top =>
    simp only [hpc] at h
    obtain rfl := Option.some.inj h
    dsimp only
    split_ifs <;> exact ⟨trivial, rfl⟩
  | reconnect i now => simp only [hpc] at h; split_ifs at h <;> obtain rfl := Option.some.inj h <;> exact ⟨trivial, rfl⟩
  | resume =>
    simp only [hpc] at h
    obtain rfl := Option.some.inj h
    dsimp only
    split_ifs <;> exact ⟨trivial, rfl⟩
  | resumeAt i =>
    simp only [hpc] at h
    split_ifs at h with hi <;> obtain rfl := Option.some.inj h
    · exact ⟨trivial, rfl⟩
    · exact ⟨trivial, rfl⟩
    · exact ⟨hi, rfl⟩
    · exact ⟨trivial, rfl⟩
  | wait =>
    simp only [hpc] at h
    split at h
    · obtain rfl := Option.some.inj h; exact ⟨trivial, rfl⟩
    · obtain rfl := Option.some.inj h; exact ⟨trivial, rfl⟩
    · split_ifs at h with hmay
      obtain rfl := Option.some.inj h
      exact ⟨fun ev hev => (hmay.2.2 ev hev).1, rfl⟩
  | events evs =>
    rw [hpc] at hw
    cases evs with
    | nil => simp only [hpc] at h; obtain rfl := Option.some.inj h; exact ⟨trivial, rfl⟩
    | cons ev evs =>
      simp only [hpc] at h
      obtain rfl := Option.some.inj h
      exact ⟨⟨hw ev List.mem_cons_self, fun ev' hev => hw ev' (List.mem_cons_of_mem ev hev)⟩, rfl⟩
  | busy i hd back =>
    rw [hpc] at hw
    simp only [hpc] at h
    obtain rfl := Option.some.inj h
    dsimp only
    split_ifs
    · cases back with
      | resume => exact ⟨trivial, rfl⟩
      | events evs => exact ⟨hw.2, rfl⟩
    · cases back with
      | resume => exact ⟨hw, rfl⟩
      | events evs => exact ⟨hw, rfl⟩
  | done => simp only [hpc] at h; cases h

/-! ## Every phase -/

/-- what no step of the server changes: main does -/
theorem srvStep_flags (h : srvStep conf srv b = some srv') : srv'.queue.shutdown = srv.queue.shutdown ∧
    srv'.sys.dataQueue.shutdown = srv.sys.dataQueue.shutdown ∧ srv'.sys.ctrlQueue.shutdown = srv.sys.ctrlQueue.shutdown := by
  cases b with
  | accept => obtain rfl := Option.some.inj h; exact ⟨rfl, rfl, rfl⟩
  | deliver | fetch | enqueue =>
    simp only [srvStep] at h
    split_ifs at h
    obtain rfl := Option.some.inj h
    exact ⟨rfl, rfl, rfl⟩
  | worker w e =>
    cases workerStep_shift h with
    | take c q _ _ hq => exact ⟨hq, rfl, rfl⟩
    | _ => exact ⟨rfl, rfl, rfl⟩
  | agg e =>
    obtain ⟨u, hu, rfl⟩ := Option.map_eq_some_iff.1 h
    have hqueues := aggStep_queues hu
    exact ⟨rfl, hqueues.dataShut, hqueues.ctrlShut⟩

/-- the workers numbered from `W` on stand still -/
theorem srvStep_spare (hb : b.Within W) (h : srvStep conf srv b = some srv') {w : ℕ} (hw : W ≤ w) :
    srv'.workers w = srv.workers w := by
  cases b with
  | accept => obtain rfl := Option.some.inj h; rfl
  | deliver | fetch | enqueue =>
    simp only [srvStep] at h
    split_ifs at h
    obtain rfl := Option.some.inj h
    rfl
  | worker w' e =>
    have hne : w ≠ w' := by
      have hlt : w' < W := hb
      omega
    cases workerStep_shift h <;> exact Function.update_of_ne hne _ _
  | agg e => obtain ⟨u, hu, rfl⟩ := Option.map_eq_some_iff.1 h; rfl

/-- in every phase: who has which connection, what is joined, and what is shut down -/
structure Life.Kept (conf : ServerConfig) (W : ℕ) (client : ℕ → UpstreamClient) (count : ℕ) (l : Life) : Prop where
  up : l.phase.rank < Phase.noReactor.rank → Reachable (upStep conf) (.start client count) l.node.up
  within : l.node.reactor.pc.Within l.node.reactor.count
  joined : Phase.noReactor.rank ≤ l.phase.rank → (l.node.reactor.count = 0 ∨ l.node.reactor.pc = .done) ∧
    ∀ i, (l.node.reactor.client i).pendingMsg = none
  good : l.phase.rank < Phase.dataShut.rank → Good l.node.srv ∧ Stored l.node.srv
  sound : l.phase.rank < Phase.noConns.rank → l.node.srv.Sound
  keeps : ∀ c, (l.node.srv.conn c).Keeps
  spare : ∀ w, W ≤ w → l.node.srv.workers w = .idle
  fetched : Phase.noListeners.rank ≤ l.phase.rank → l.node.srv.fetched = []
  queue : l.node.srv.queue.shutdown = decide (Phase.queueShut.rank ≤ l.phase.rank)
  workers : Phase.noWorkers.rank ≤ l.phase.rank → (∀ w, l.node.srv.workers w = .idle) ∧ l.node.srv.queue.items = []
  data : l.node.srv.sys.dataQueue.shutdown = decide (Phase.dataShut.rank ≤ l.phase.rank)
  ctrl : l.node.srv.sys.ctrlQueue.shutdown = decide (Phase.ctrlShut.rank ≤ l.phase.rank)
  agg : Phase.noAgg.rank ≤ l.phase.rank → l.node.srv.sys.pc = .done
  conns : Phase.noConns.rank ≤ l.phase.rank → ∀ c, (l.node.srv.conn c).live = false
  ended : l.phase = .ended → l.node.srv.sys.dataQueue.items = [] ∧ l.node.srv.sys.ctrlQueue.items = []

variable {client : ℕ → UpstreamClient} {count : ℕ} {l l' : Life}

theorem life_start_kept (client : ℕ → UpstreamClient) (count : ℕ) : (Life.start client count).Kept conf W client count where
  up _ := .start
  within := trivial
  joined := nofun
  good _ := ⟨start_good, fun c hc => absurd rfl hc, nofun⟩
  sound _ := ⟨start_good, fun p c hc => by cases p <;> cases hc⟩
  keeps c := .of_none rfl
  spare _ _ := rfl
  fetched := nofun
  queue := rfl
  workers := nofun
  data := rfl
  ctrl := rfl
  agg := nofun
  conns := nofun
  ended := nofun

/-- who still runs is not joined -/
theorem Life.lets_srv (h : l.lets (.srv b)) : l.phase.rank < Phase.noConns.rank := by
  cases b with
  | accept | fetch | enqueue => exact lt_trans (show l.phase.rank < 3 from h) (by decide)
  | worker => exact lt_trans (show l.phase.rank < 5 from h) (by decide)
  | agg => exact lt_trans (show l.phase.rank < 8 from h) (by decide)
  | deliver => exact h

/-- behind the join of the listeners nothing is fetched -/
theorem Life.lets_fetched (h : l.lets (.srv b)) (hl : Phase.noListeners.rank ≤ l.phase.rank)
    (hstep : srvStep conf srv b = some srv') : srv'.fetched = srv.fetched := by
  cases b with
  | accept | fetch | enqueue => exact absurd (show l.phase.rank < 3 from h) (not_lt.2 hl)
  | deliver =>
    simp only [srvStep] at hstep
    split_ifs at hstep
    obtain rfl := Option.some.inj hstep
    rfl
  | worker w e => cases workerStep_shift hstep <;> rfl
  | agg e => obtain ⟨u, hu, rfl⟩ := Option.map_eq_some_iff.1 hstep; rfl

/-- behind the join of the workers nobody takes from the ingest queue, or pushes to it -/
theorem Life.lets_workers (h : l.lets (.srv b)) (hl : Phase.noWorkers.rank ≤ l.phase.rank)
    (hstep : srvStep conf srv b = some srv') : srv'.workers = srv.workers ∧ srv'.queue = srv.queue := by
  cases b with
  | accept | fetch | enqueue => exact absurd (lt_trans (show l.phase.rank < 3 from h) (by decide)) (not_lt.2 hl)
  | worker => exact absurd (show l.phase.rank < 5 from h) (not_lt.2 hl)
  | deliver =>
    simp only [srvStep] at hstep
    split_ifs at hstep
    obtain rfl := Option.some.inj hstep
    exact ⟨rfl, rfl⟩
  | agg e => obtain ⟨u, hu, rfl⟩ := Option.map_eq_some_iff.1 hstep; exact ⟨rfl, rfl⟩

/-- behind the join of the aggregator only the network moves -/
theorem Life.lets_agg (h : l.lets (.srv b)) (hl : Phase.noAgg.rank ≤ l.phase.rank)
    (hstep : srvStep conf srv b = some srv') : srv'.sys.pc = srv.sys.pc := by
  cases b with
  | accept | fetch | enqueue => exact absurd (lt_trans (show l.phase.rank < 3 from h) (by decide)) (not_lt.2 hl)
  | worker => exact absurd (lt_trans (show l.phase.rank < 5 from h) (by decide)) (not_lt.2 hl)
  | agg => exact absurd (show l.phase.rank < 8 from h) (not_lt.2 hl)
  | deliver =>
    simp only [srvStep] at hstep
    split_ifs at hstep
    obtain rfl := Option.some.inj hstep
    rfl

/-- a step of the server -/
theorem Life.Kept.server (hk : l.Kept conf W client count) (hl : l.lets (.srv b)) (hb : b.Within W)
    (h : srvStep conf l.node.srv b = some srv') (hnode : l'.node.srv = srv') (hreactor : l'.node.reactor = l.node.reactor)
    (hphase : l'.phase = l.phase) : l'.Kept conf W client count := by
  subst hnode
  obtain ⟨hqueue, hdata, hctrl⟩ := srvStep_flags h
  have hrank := Life.lets_srv hl
  have hsound := hk.sound hrank
  refine {
    up := fun hp => ?_
    within := by rw [hreactor]; exact hk.within
    joined := by rw [hphase, hreactor]; exact hk.joined
    good := fun hp => ?_
    sound := fun _ => hsound.step h
    keeps := srvStep_keeps hsound hk.keeps h
    spare := fun w hw => (srvStep_spare hb h hw).trans (hk.spare w hw)
    fetched := fun hp => ?_
    queue := by rw [hphase]; exact hqueue.trans hk.queue
    workers := fun hp => ?_
    data := by rw [hphase]; exact hdata.trans hk.data
    ctrl := by rw [hphase]; exact hctrl.trans hk.ctrl
    agg := fun hp => ?_
    conns := fun hp => absurd hrank (not_lt.2 (hphase ▸ hp))
    ended := fun hp => ?_ }
  · rw [hphase] at hp
    have hup : l'.node.up = { l.node.up with queue := l'.node.srv.sys.dataQueue } := by
      unfold Node.up
      rw [hreactor]
    rw [hup]
    exact .step (.others l'.node.srv.sys.dataQueue) (hk.up hp) trivial rfl
  · rw [hphase] at hp
    obtain ⟨hgood, hstored⟩ := hk.good hp
    exact ⟨srvStep_good hgood h, srvStep_stored hgood hstored h⟩
  · rw [hphase] at hp
    exact (Life.lets_fetched hl hp h).trans (hk.fetched hp)
  · rw [hphase] at hp
    obtain ⟨hworkers, hsame⟩ := Life.lets_workers hl hp h
    rw [hworkers, hsame]
    exact hk.workers hp
  · rw [hphase] at hp
    exact (Life.lets_agg hl hp h).trans (hk.agg hp)
  · rw [hphase] at hp
    rw [hp] at hrank
    exact absurd hrank (by decide)

/-- a step of the reactor -/
theorem Life.Kept.reactor (hk : l.Kept conf W client count) {e : UpEnv} (hl : l.lets (.up e)) {r : Queue Msg × Reactor}
    (h : reactorStep conf l.node.srv.sys.dataQueue l.node.reactor e = some r) (hsrv : l'.node.srv = l.node.srv.withData r.1)
    (hreactor : l'.node.reactor = r.2) (hphase : l'.phase = l.phase) : l'.Kept conf W client count := by
  obtain ⟨-, hrank, -⟩ := hl
  have hrank : l.phase.rank < 2 := hrank
  have hshut : r.1.shutdown = l.node.srv.sys.dataQueue.shutdown := by
    rw [reactorStep_queue h]
    exact pushed_shutdown _ _
  have hlate : ∀ {p : Phase}, 2 ≤ p.rank → p.rank ≤ l'.phase.rank → False := by
    intro p hp hle
    rw [hphase] at hle
    omega
  have hcell : l'.node.srv.cell = l.node.srv.cell := by
    rw [hsrv]
    funext p
    cases p <;> rfl
  refine {
    up := fun hp => ?_
    within := by rw [hreactor]; exact (reactorStep_within hk.within h).1
    joined := fun hp => (hlate (p := .noReactor) le_rfl hp).elim
    good := fun hp => ?_
    sound := fun hp => ?_
    keeps := by rw [hsrv]; exact hk.keeps
    spare := by rw [hsrv]; exact hk.spare
    fetched := by rw [hsrv, hphase]; exact hk.fetched
    queue := by rw [hsrv, hphase]; exact hk.queue
    workers := by rw [hsrv, hphase]; exact hk.workers
    data := by rw [hsrv, hphase]; exact hshut.trans hk.data
    ctrl := by rw [hsrv, hphase]; exact hk.ctrl
    agg := by rw [hsrv, hphase]; exact hk.agg
    conns := by rw [hsrv, hphase]; exact hk.conns
    ended := fun hp => (hlate (p := .ended) (by decide) (hp ▸ le_rfl)).elim }
  · have hup : l'.node.up = ⟨r.1, r.2⟩ := by
      unfold Node.up
      rw [hsrv, hreactor]
      rfl
    have hstep : upStep conf l.node.up (.step e) = some ⟨r.1, r.2⟩ := Option.map_eq_some_iff.2 ⟨r, h, rfl⟩
    rw [hup]
    exact .step (.step e) (hk.up (hphase ▸ hp)) trivial hstep
  · obtain ⟨hgood, hstored⟩ := hk.good (hphase ▸ hp)
    rw [hsrv]
    exact ⟨withData_good hgood hshut, hstored.parked, hstored.cleared⟩
  · exact (hk.sound (hphase ▸ hp)).same hcell (by rw [hsrv]; rfl) (by rw [hsrv]; rfl) (by rw [hsrv]; rfl)

/-- a listener drops what it fetched -/
theorem Life.Kept.abandon (hk : l.Kept conf W client count) {c : ℕ} (hc : c ∈ l.node.srv.fetched) :
    (l.setSrv { l.node.srv with fetched := l.node.srv.fetched.erase c }).Kept conf W client count := by
  have hcell : ({ l.node.srv with fetched := l.node.srv.fetched.erase c } : Srv).cell =
      Function.update l.node.srv.cell .fetched (l.node.srv.fetched.erase c) := by
    funext p
    cases p <;> rfl
  have hsub : ∀ p d, d ∈ ({ l.node.srv with fetched := l.node.srv.fetched.erase c } : Srv).cell p →
      d ∈ l.node.srv.cell p := by
    intro p d hd
    cases p with
    | fetched => exact List.mem_of_mem_erase hd
    | _ => exact hd
  have hperm : (l.node.srv.cell .fetched).Perm (c :: l.node.srv.fetched.erase c) := List.perm_cons_erase hc
  have hpark : Place.fetched ≠ .park := by decide
  have hhand : Place.fetched ≠ .hand := by decide
  exact { hk with
    good := fun hp => by
      obtain ⟨hgood, hstored⟩ := hk.good hp
      refine ⟨?_, hstored.parked, hstored.cleared⟩
      exact hgood.release .fetched hperm hpark hhand hcell (fun _ _ => rfl) rfl (fun _ _ _ => rfl) rfl rfl hgood.draining
    sound := fun hp => by
      have hsound := hk.sound hp
      refine ⟨?_, fun p d hd => hsound.held p d (hsub p d hd)⟩
      refine hsound.good.release .fetched ((calm_cell l.node.srv).symm ▸ hperm) hpark hhand ?_ (fun _ _ => rfl) rfl
        (fun _ _ _ => rfl) rfl rfl hsound.good.draining
      rw [calm_cell, calm_cell]
      exact hcell
    fetched := fun hp => by
      rw [hk.fetched hp] at hc
      cases hc }

/-- a step of main -/
theorem mainStep_kept (hk : l.Kept conf W client count) (h : mainStep W l = some l') : l'.Kept conf W client count := by
  obtain ⟨⟨srv, reactor, sent, got⟩, phase, made, freed⟩ := l
  unfold mainStep at h
  cases phase with
  | running =>
    obtain rfl := Option.some.inj h
    exact { hk with
      up := fun _ => hk.up (of_decide_eq_true rfl)
      joined := nofun
      good := fun _ => hk.good (of_decide_eq_true rfl)
      sound := fun _ => hk.sound (of_decide_eq_true rfl)
      fetched := nofun
      workers := nofun
      agg := nofun
      conns := nofun
      ended := nofun }
  | flagged =>
    dsimp only at h
    split_ifs at h with hdone
    obtain rfl := Option.some.inj h
    exact { hk with
      up := nofun
      joined := fun _ => ⟨hdone, fun _ => rfl⟩
      good := fun _ => hk.good (of_decide_eq_true rfl)
      sound := fun _ => hk.sound (of_decide_eq_true rfl)
      fetched := nofun
      workers := nofun
      agg := nofun
      conns := nofun
      ended := nofun }
  | noReactor =>
    dsimp only at h
    split_ifs at h with hfetched
    obtain rfl := Option.some.inj h
    exact { hk with
      up := nofun
      joined := fun _ => hk.joined (of_decide_eq_true rfl)
      good := fun _ => hk.good (of_decide_eq_true rfl)
      sound := fun _ => hk.sound (of_decide_eq_true rfl)
      fetched := fun _ => hfetched
      workers := nofun
      agg := nofun
      conns := nofun
      ended := nofun }
  | noListeners =>
    obtain rfl := Option.some.inj h
    have hcell : ({ srv with queue := shutdownQueue srv.queue } : Srv).cell = srv.cell := by
      funext p
      cases p <;> rfl
    obtain ⟨hgood, hstored⟩ := hk.good (of_decide_eq_true rfl)
    exact { hk with
      up := nofun
      joined := fun _ => hk.joined (of_decide_eq_true rfl)
      good := fun _ => ⟨hgood.frame (hcell ▸ hgood.excl) (fun _ => .refl _) (fun p d hd => hcell ▸ hd) rfl rfl rfl hgood.draining,
        hstored.parked, hstored.cleared⟩
      sound := fun _ => (hk.sound (of_decide_eq_true rfl)).same hcell rfl rfl rfl
      fetched := fun _ => hk.fetched (of_decide_eq_true rfl)
      queue := rfl
      workers := nofun
      agg := nofun
      conns := nofun
      ended := nofun }
  | queueShut =>
    dsimp only at h
    split_ifs at h with hidle
    obtain rfl := Option.some.inj h
    exact { hk with
      up := nofun
      joined := fun _ => hk.joined (of_decide_eq_true rfl)
      good := fun _ => hk.good (of_decide_eq_true rfl)
      sound := fun _ => hk.sound (of_decide_eq_true rfl)
      fetched := fun _ => hk.fetched (of_decide_eq_true rfl)
      workers := fun _ => ⟨fun w => (lt_or_ge w W).elim (hidle.1 w) (hk.spare w), hidle.2.1⟩
      agg := nofun
      conns := nofun
      ended := nofun }
  | noWorkers =>
    obtain rfl := Option.some.inj h
    have hcell : (srv.withData (shutdownQueue srv.sys.dataQueue)).cell = srv.cell := by
      funext p
      cases p <;> rfl
    exact { hk with
      up := nofun
      joined := fun _ => hk.joined (of_decide_eq_true rfl)
      good := nofun
      sound := fun _ => (hk.sound (of_decide_eq_true rfl)).same hcell rfl rfl rfl
      fetched := fun _ => hk.fetched (of_decide_eq_true rfl)
      workers := fun _ => hk.workers (of_decide_eq_true rfl)
      data := rfl
      agg := nofun
      conns := nofun
      ended := nofun }
  | dataShut =>
    obtain rfl := Option.some.inj h
    have hcell : ({ srv with sys := { srv.sys with ctrlQueue := shutdownQueue srv.sys.ctrlQueue } } : Srv).cell = srv.cell := by
      funext p
      cases p <;> rfl
    exact { hk with
      up := nofun
      joined := fun _ => hk.joined (of_decide_eq_true rfl)
      good := nofun
      sound := fun _ => (hk.sound (of_decide_eq_true rfl)).same hcell rfl rfl rfl
      fetched := fun _ => hk.fetched (of_decide_eq_true rfl)
      workers := fun _ => hk.workers (of_decide_eq_true rfl)
      ctrl := rfl
      agg := nofun
      conns := nofun
      ended := nofun }
  | ctrlShut =>
    dsimp only at h
    split_ifs at h with hdone
    obtain rfl := Option.some.inj h
    exact { hk with
      up := nofun
      joined := fun _ => hk.joined (of_decide_eq_true rfl)
      good := nofun
      sound := fun _ => hk.sound (of_decide_eq_true rfl)
      fetched := fun _ => hk.fetched (of_decide_eq_true rfl)
      workers := fun _ => hk.workers (of_decide_eq_true rfl)
      agg := fun _ => hdone
      conns := nofun
      ended := nofun }
  | noAgg =>
    obtain rfl := Option.some.inj h
    have hdead : ∀ c, c ∉ srv.registered → (srv.conn c).live = false := by
      intro c hc
      rcases lt_or_ge c srv.nextId with hlt | hge
      · refine Bool.eq_false_iff.2 fun hlive => hc ?_
        unfold Srv.registered
        rw [List.mem_filter]
        exact ⟨List.mem_range.2 hlt, hlive⟩
      · exact ((hk.sound (of_decide_eq_true rfl)).good.fine c).dead hge
    have hconn : ∀ c, ((srv.freeAll srv.registered).conn c).pendingMsg = none ∧
        ((srv.freeAll srv.registered).conn c).live = false := by
      intro c
      unfold Srv.freeAll Srv.conn
      dsimp only
      split_ifs with hc
      · exact ⟨rfl, rfl⟩
      · refine ⟨?_, hdead c hc⟩
        by_contra hne
        have hlive := hk.keeps c hne
        rw [show ((⟨⟨srv, reactor, sent, got⟩, .noAgg, made, freed⟩ : Life).node.srv.conn c).live = false from
          hdead c hc] at hlive
        cases hlive
    exact { hk with
      up := nofun
      joined := fun _ => hk.joined (of_decide_eq_true rfl)
      good := nofun
      sound := nofun
      keeps := fun c => .of_none (hconn c).1
      fetched := fun _ => hk.fetched (of_decide_eq_true rfl)
      workers := fun _ => hk.workers (of_decide_eq_true rfl)
      agg := fun _ => hk.agg (of_decide_eq_true rfl)
      conns := fun _ c => (hconn c).2
      ended := nofun }
  | noConns =>
    obtain rfl := Option.some.inj h
    exact { hk with
      up := nofun
      joined := fun _ => hk.joined (of_decide_eq_true rfl)
      good := nofun
      sound := nofun
      fetched := fun _ => hk.fetched (of_decide_eq_true rfl)
      workers := fun _ => hk.workers (of_decide_eq_true rfl)
      agg := fun _ => hk.agg (of_decide_eq_true rfl)
      conns := fun _ => hk.conns (of_decide_eq_true rfl)
      ended := fun _ => ⟨rfl, rfl⟩ }
  | ended => cases h

/-- **Every step keeps it.** -/
theorem lifeStep_kept {a : LifeAct} (hk : l.Kept conf W client count) (h : lifeStep conf W l a = some l') :
    l'.Kept conf W client count := by
  cases a with
  | main => exact mainStep_kept hk h
  | abandon c =>
    unfold lifeStep at h
    dsimp only at h
    split_ifs at h with hc
    obtain rfl := Option.some.inj h
    exact hk.abandon hc.2
  | node a =>
    unfold lifeStep at h
    dsimp only at h
    split_ifs at h with hl
    obtain ⟨n, hn, rfl⟩ := Option.map_eq_some_iff.1 h
    rcases nodeStep_cases hn with ⟨b, s, rfl, hb, hs, rfl⟩ | ⟨e, r, rfl, hr, rfl⟩
    · exact hk.server hl hb hs rfl rfl rfl
    · exact hk.reactor hl hr rfl rfl rfl

theorem life_kept (h : Reachable (lifeStep conf W) (.start client count) l) : l.Kept conf W client count :=
  h.invariant (life_start_kept client count) fun _ _ _ hk _ hstep => lifeStep_kept hk hstep

/-! ## The order of the shutdown -/

/-- no thread works any more -/
structure Life.AtRest (l : Life) : Prop where
  reactor : l.node.reactor.count = 0 ∨ l.node.reactor.pc = .done
  listeners : l.node.srv.fetched = []
  workers : ∀ w, l.node.srv.workers w = .idle
  agg : l.node.srv.sys.pc = .done

/-- what the three queues see of a step -/
structure Life.Ordered (l : Life) (a : LifeAct) (l' : Life) : Prop where
  /-- behind its shutdown a queue gets shorter -/
  queue : l.node.srv.queue.shutdown = true → l'.node.srv.queue.items <:+ l.node.srv.queue.items
  ctrl : l.node.srv.sys.ctrlQueue.shutdown = true → l'.node.srv.sys.ctrlQueue.items <:+ l.node.srv.sys.ctrlQueue.items
  /-- only the aggregator still pushes to dataQueue: the stored message of the connection it resumes -/
  data : l.node.srv.sys.dataQueue.shutdown = true → l'.node.srv.sys.dataQueue.items <:+ l.node.srv.sys.dataQueue.items ∨
    (∃ e, a = .node (.srv (.agg e))) ∧ ∃ c m, l.node.srv.sys.pc = .rpush c ∧ (l.node.srv.conn c).pendingMsg = some m ∧
      l'.node.srv.sys.dataQueue.items = l.node.srv.sys.dataQueue.items ++ [m]

theorem Life.Ordered.same {a : LifeAct} (hq : l'.node.srv.queue.items = l.node.srv.queue.items)
    (hc : l'.node.srv.sys.ctrlQueue.items = l.node.srv.sys.ctrlQueue.items)
    (hd : l'.node.srv.sys.dataQueue.items = l.node.srv.sys.dataQueue.items) : l.Ordered a l' :=
  ⟨fun _ => hq ▸ List.suffix_rfl, fun _ => hc ▸ List.suffix_rfl, fun _ => .inl (hd ▸ List.suffix_rfl)⟩

theorem mainStep_ordered (h : mainStep W l = some l') : l.Ordered .main l' := by
  unfold mainStep at h
  cases hp : l.phase with
  | running | noListeners | noWorkers | dataShut | noAgg =>
    simp only [hp] at h
    obtain rfl := Option.some.inj h
    exact .same rfl rfl rfl
  | flagged | noReactor | queueShut | ctrlShut =>
    simp only [hp] at h
    split_ifs at h
    obtain rfl := Option.some.inj h
    exact .same rfl rfl rfl
  | noConns =>
    simp only [hp] at h
    obtain rfl := Option.some.inj h
    exact ⟨fun _ => List.suffix_rfl, fun _ => List.nil_suffix, fun _ => .inl List.nil_suffix⟩
  | ended => simp only [hp] at h; cases h

/-- the phases behind which the queues are shut down -/
theorem Life.Kept.late (hk : l.Kept conf W client count) : (l.node.srv.queue.shutdown = true → 4 ≤ l.phase.rank) ∧
    (l.node.srv.sys.ctrlQueue.shutdown = true → 7 ≤ l.phase.rank) ∧
      (l.node.srv.sys.dataQueue.shutdown = true → 6 ≤ l.phase.rank) := by
  refine ⟨fun hs => ?_, fun hs => ?_, fun hs => ?_⟩
  · rw [hk.queue, decide_eq_true_eq] at hs
    exact hs
  · rw [hk.ctrl, decide_eq_true_eq] at hs
    exact hs
  · rw [hk.data, decide_eq_true_eq] at hs
    exact hs

/-- the server while a phase is past -/
theorem Life.Kept.ordered (hk : l.Kept conf W client count) (hl : l.lets (.srv b)) (h : srvStep conf l.node.srv b = some srv')
    (hnode : l'.node.srv = srv') : l.Ordered (.node (.srv b)) l' := by
  subst hnode
  obtain ⟨hqueue, hctrl, hdata⟩ := hk.late
  cases b with
  | accept | fetch | enqueue =>
    -- the listeners were joined before the first queue was shut down
    have hearly : l.phase.rank < 3 := hl
    exact ⟨fun hs => absurd (hqueue hs) (by omega), fun hs => absurd (hctrl hs) (by omega),
      fun hs => absurd (hdata hs) (by omega)⟩
  | deliver =>
    simp only [srvStep] at h
    split_ifs at h
    have ht := Option.some.inj h
    exact .same (ht ▸ rfl) (ht ▸ rfl) (ht ▸ rfl)
  | worker w e =>
    -- the workers take from their queue, and were joined before the other two were shut down
    have hearly : l.phase.rank < 5 := hl
    refine ⟨fun _ => ?_, fun hs => absurd (hctrl hs) (by omega), fun hs => absurd (hdata hs) (by omega)⟩
    generalize l'.node.srv = t at h ⊢
    cases workerStep_shift h with
    | take c q _ hq => exact ⟨[c], hq.symm⟩
    | _ => exact List.suffix_rfl
  | agg e =>
    obtain ⟨u, hstep, hu⟩ := Option.map_eq_some_iff.1 h
    refine ⟨fun _ => ?_, fun _ => ?_, fun _ => ?_⟩
    · rw [← hu]
    · rw [← hu]
      exact ⟨_, (aggStep_queues hstep).ctrl⟩
    · rw [← hu]
      rcases aggStep_data hstep with hshort | hresumed
      · exact .inl hshort
      · exact .inr ⟨⟨e, rfl⟩, hresumed⟩

theorem lifeStep_ordered (hk : l.Kept conf W client count) (hstep : lifeStep conf W l a = some l') : l.Ordered a l' := by
  cases a with
  | main => exact mainStep_ordered hstep
  | abandon c =>
    unfold lifeStep at hstep
    dsimp only at hstep
    split_ifs at hstep
    obtain rfl := Option.some.inj hstep
    exact .same rfl rfl rfl
  | node a =>
    unfold lifeStep at hstep
    dsimp only at hstep
    split_ifs at hstep with hl
    obtain ⟨n, hn, rfl⟩ := Option.map_eq_some_iff.1 hstep
    rcases nodeStep_cases hn with ⟨b, s, rfl, hb, hs, rfl⟩ | ⟨e, r, rfl, hr, rfl⟩
    · exact hk.ordered hl hs rfl
    · -- the reactor was joined before dataQueue was shut down
      refine ⟨fun _ => List.suffix_rfl, fun _ => List.suffix_rfl, fun hshut => absurd (hk.late.2.2 hshut) ?_⟩
      have hearly : l.phase.rank < 2 := hl.2.1
      omega

/-- **The shutdown is in order.** In every run of the program, with any number of workers and clients and the signal at any
time: behind its shutdown a queue only gets shorter, but that the aggregator may push to dataQueue the stored message of the
connection it resumes; when the connections and the queues are freed no thread works any more; and at the end no connection
is live, no message is stored with one, and the queues are empty. -/
theorem shutdown_in_order (conf : ServerConfig) (W : ℕ) (client : ℕ → UpstreamClient) (count : ℕ) (l l' : Life) (a : LifeAct)
    (h : Reachable (lifeStep conf W) (.start client count) l) (hstep : lifeStep conf W l a = some l') :
    l.Ordered a l' ∧ (Phase.noAgg.rank ≤ l.phase.rank → l.AtRest) ∧
      (l'.phase = .ended → (∀ c, (l'.node.srv.conn c).live = false ∧ (l'.node.srv.conn c).pendingMsg = none) ∧
        (∀ i, (l'.node.reactor.client i).pendingMsg = none) ∧ l'.node.srv.queue.items = [] ∧
        l'.node.srv.sys.ctrlQueue.items = [] ∧ l'.node.srv.sys.dataQueue.items = []) := by
  have hk := life_kept h
  have hk' := lifeStep_kept hk hstep
  refine ⟨lifeStep_ordered hk hstep, fun hp => ?_, fun hp => ?_⟩
  · have hrank : 8 ≤ l.phase.rank := hp
    have hreactor : 2 ≤ l.phase.rank := by omega
    have hlisteners : 3 ≤ l.phase.rank := by omega
    have hworkers : 5 ≤ l.phase.rank := by omega
    exact ⟨(hk.joined hreactor).1, hk.fetched hlisteners, (hk.workers hworkers).1, hk.agg hp⟩
  · have hrank : l'.phase.rank = 10 := by rw [hp]; rfl
    have hreactor : 2 ≤ l'.phase.rank := by omega
    have hworkers : 5 ≤ l'.phase.rank := by omega
    have hconns : 9 ≤ l'.phase.rank := by omega
    obtain ⟨hdata, hctrl⟩ := hk'.ended hp
    refine ⟨fun c => ⟨hk'.conns hconns c, ?_⟩, (hk'.joined hreactor).2, (hk'.workers hworkers).2, hctrl, hdata⟩
    by_contra hne
    have hlive := hk'.keeps c hne
    rw [hk'.conns hconns c] at hlive
    cases hlive

/-- a sink and a source with a parked message; then the signal, and main goes on to the queues -/
def farewell : List LifeAct :=
  (parkRun []).map (fun a => LifeAct.node (.srv a)) ++ [LifeAct.node (.srv (.worker 0 calmWork))] ++
    List.replicate 7 LifeAct.main ++ List.replicate 21 (LifeAct.node (.srv (.agg calmAgg))) ++ List.replicate 2 LifeAct.main

set_option maxRecDepth 4000 in
theorem farewell_runs : (exec (lifeStep tinyConf 1) (.start (fun _ => closedClient 9) 0) farewell).map
    (fun l => decide (l.phase = .noConns ∧ l.made.length = 4)) = some true := by decide

theorem mainStep_ends (h : l.phase = .noConns) : ∃ l', mainStep W l = some l' ∧ l'.phase = .ended ∧ l'.made = l.made := by
  unfold mainStep
  rw [h]
  exact ⟨_, rfl, rfl, rfl⟩

theorem shutdown_in_order_farewell : ∃ l l', Reachable (lifeStep tinyConf 1) (.start (fun _ => closedClient 9) 0) l ∧
    lifeStep tinyConf 1 l .main = some l' ∧ l'.phase = .ended ∧ l.AtRest ∧ ∀ c, (l'.node.srv.conn c).live = false := by
  obtain ⟨l, hl, hp⟩ := Reachable.of_check _ _ farewell _ farewell_runs
  rw [decide_eq_true_eq] at hp
  obtain ⟨l', hstep, hend, -⟩ := mainStep_ends (W := 1) hp.1
  obtain ⟨-, hrest, hgone⟩ := shutdown_in_order tinyConf 1 (fun _ => closedClient 9) 0 l l' .main hl hstep
  refine ⟨l, l', hl, hstep, hend, hrest ?_, fun c => ((hgone hend).1 c).1⟩
  rw [hp.1]
  decide

end WsServer
