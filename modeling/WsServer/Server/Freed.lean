/-
Every message is freed once.

A message is allocated in `handleWsOpen`, `handleHandshakeSend` or `publishReactorMessage`; it goes through a thread's hands,
a queue, and perhaps `pendingMsg`, and is freed by the aggregator, by whoever closes its connection or client, or by main at
the end. `Life.keeps` are the messages that are somewhere, each as often as it is there. A pointer that is in two places for a
moment is counted once: `resumeParked` pushes `pendingMsg` before it clears it.

- `handStep_trade`, `workerStep_trade`, `aggStep_trade`: what a step of each thread takes from this, and adds.
- `each_freed_once`: what was allocated is what was freed and what is kept; at the end of a run nothing is kept.
-/
import Mathlib
import WsServer.Server.Lifecycle

namespace WsServer

open Ws Machine Places Custody

variable {conf : ServerConfig} {e : UpEnv} {c d : UpstreamClient} {h h' : Hand} {size : ℕ}

/-! ## The reactor -/

/-- the client goes on -/
structure Stays (c d : UpstreamClient) : Prop where
  past : d.past = c.past
  pending : d.pendingMsg = c.pendingMsg

theorem Stays.refl (c : UpstreamClient) : Stays c c := ⟨rfl, rfl⟩

theorem Stays.trans {f : UpstreamClient} (h : Stays c d) (h' : Stays d f) : Stays c f :=
  ⟨h'.past.trans h.past, h'.pending.trans h.pending⟩

theorem Stays.updateEvents (h : Stays c d) (e : UpEnv) : Stays c (updateEvents e d).2 := by
  rcases updateEvents_cases e d with hu | hu <;> rw [hu]
  · exact ⟨h.past, h.pending⟩
  · exact h

theorem stays_queueHandshake (e : UpEnv) (c : UpstreamClient) : Stays c (queueHandshake e c).2 := by
  obtain ⟨accept, h⟩ | ⟨accept, key, h⟩ := queueHandshake_cases e c <;> rw [h]
  · exact ⟨rfl, rfl⟩
  · have hstays : Stays c (c.withRequest accept key) := ⟨rfl, rfl⟩
    exact hstays.updateEvents e

theorem stays_flush (e : UpEnv) (c : UpstreamClient) : Stays c (flushUpstreamTx e c).2 := by
  obtain h | h := flushUpstreamTx_cases e c <;> rw [h]
  · exact ⟨rfl, rfl⟩
  · have hstays : Stays c (c.afterSend e) := ⟨rfl, rfl⟩
    exact hstays.updateEvents e

theorem stays_readHandshake (conf : ServerConfig) (e : UpEnv) (c : UpstreamClient) : Stays c (readHandshake conf e c).2 := by
  obtain ⟨rx, got, ⟨ok, h⟩ | h⟩ := readHandshake_cases conf e c <;> rw [h]
  · exact ⟨rfl, rfl⟩
  · refine Stays.updateEvents ?_ e
    exact ⟨rfl, rfl⟩

theorem Queued.stays (h : Queued c d) : Stays c d := by
  constructor <;> rw [h.rest]

theorem Core.stays (h : Core c d) : Stays c d := by
  constructor <;> rw [show d = _ from h]

theorem stays_reconnect (e : UpEnv) (now : ℕ) (c : UpstreamClient) : Stays c (reconnectClient e now c) := by
  unfold reconnectClient
  split_ifs
  · exact .refl c
  · exact .refl c
  dsimp only
  rcases upstreamConnect_cases e c with ⟨-, hr⟩ | ⟨-, fd, -, hr⟩ | ⟨-, -, hr⟩ <;> rw [hr] <;> split_ifs <;> exact ⟨rfl, rfl⟩

/-- what one step with a client in hand makes of the messages the thread and the client have -/
def HandTrade (conf : ServerConfig) (e : UpEnv) (h : Hand) (c : UpstreamClient) (next : Hand × UpstreamClient) : Prop :=
  Trade (one h.message + one c.pendingMsg) (h.makes conf e c) (one (h.pushes c) + (h.frees c next.2 : List Msg))
    (one next.1.message + one next.2.pendingMsg)

/-- nothing is made and nothing pushed, and the client goes on -/
theorem Stays.trade (hk : Stays c d) (hmake : h.makes conf e c = []) (hpush : h.pushes c = none) (hm : h.message = none)
    (hm' : h'.message = none) : HandTrade conf e h c (h', d) := by
  have hfree : h.frees c d = [] := by
    unfold Hand.frees
    rw [if_pos (by rw [hk.past])]
  unfold HandTrade
  rw [hmake, hpush, hm, hm', hfree, hk.pending]
  exact .refl _

/-- nothing is made and nothing pushed, and the session ends -/
theorem Stays.tradeGone (hk : Stays c d) (hmake : h.makes conf e c = []) (hpush : h.pushes c = none) (hm : h.message = none)
    (hres : h ≠ .resuming) : HandTrade conf e h c (.rest, upstreamDisconnect e d) := by
  have hlong : (upstreamDisconnect e d).past.length ≠ c.past.length := by
    show (d.past ++ [d.ses]).length ≠ _
    rw [List.length_append, hk.past]
    exact Nat.succ_ne_self _
  have hfree : h.frees c (upstreamDisconnect e d) = c.pendingMsg.toList := by
    unfold Hand.frees
    rw [if_neg hlong]
    cases h with
    | publishing => cases hm
    | resuming => exact absurd rfl hres
    | _ => rfl
  unfold HandTrade
  rw [hmake, hpush, hm, hfree]
  exact (zero_add _).trans (add_comm _ _)

theorem makes_processing (k : Caller) (c : UpstreamClient) :
    Hand.makes conf e (.processing k) c = match upstreamFrame conf e c with
      | .message c opcode data => [msgNewData c.id opcode e.ts data]
      | _ => [] := rfl

/-- the step of `processBufferedFrames`: a message may be completed -/
theorem handStep_processing_trade {k : Caller} (hs : Steady conf True (.processing k) c) :
    HandTrade conf e (.processing k) c (handStep conf e size (.processing k) c) := by
  obtain ⟨asm, hagr⟩ := hs.whole.agrees (show Reading c from hs.held).state
  have hf := upstreamFrame_follows conf e hagr
  have hmakes : Hand.makes conf e (.processing k) c = _ := makes_processing k c
  unfold handStep
  dsimp only
  generalize upstreamFrame conf e c = st at hf hmakes
  generalize Rules.move (upstreamLimits conf) asm (bufData c.rx) = mv at hf
  cases hf with
  | rest => exact (Stays.refl c).trade hmakes rfl rfl (k.after_message c)
  | @stop d s hd hst =>
    have hstays := hd.stays.trans (queueMaskedFrame_queued e d opClose (echoOf s)).stays
    cases hq : (queueMaskedFrame e d opClose (echoOf s)).1 with
    | true => exact hstays.trade hmakes rfl rfl (k.after_message _)
    | false => exact hstays.tradeGone hmakes rfl rfl (by rintro ⟨⟩)
  | @pong _ p _ d _ _ hd _ =>
    refine ((queueMaskedFrame_queued e c opPong p).stays.trans ?_).trade hmakes rfl rfl rfl
    rw [hd]
    exact ⟨rfl, rfl⟩
  | @noPong _ p _ _ => exact (queueMaskedFrame_queued e c opPong p).stays.tradeGone hmakes rfl rfl (by rintro ⟨⟩)
  | next hd => exact hd.stays.trade hmakes rfl rfl rfl
  | @message d op data _ hd =>
    have hfree : Hand.frees (.processing k) c d = [] := by
      unfold Hand.frees
      rw [if_pos (by rw [hd.stays.past])]
    unfold HandTrade
    rw [hmakes, hd.stays.pending, hfree]
    exact (add_zero (one (some _) + one c.pendingMsg)).trans (add_comm _ _)

/-- the test of the watermark: the message is stored with the client, or goes on to the queue -/
theorem handStep_publishing_trade {k : Caller} {m : Msg} (hs : Steady conf True (.publishing k m) c) :
    HandTrade conf e (.publishing k m) c (handStep conf e size (.publishing k m) c) := by
  have hnone : c.pendingMsg = none := Reading.pending hs.held.1 hs.whole.toSane
  have hstays : ∀ d : UpstreamClient, d.past = c.past → Hand.frees (.publishing k m) c d = [] := by
    intro d hd
    unfold Hand.frees
    rw [if_pos (by rw [hd])]
  unfold HandTrade handStep publishReactorMessage
  dsimp only
  rw [hnone]
  by_cases hfull : conf.highWatermark ≤ size
  · rw [if_pos hfull]
    rcases updateEvents_cases e { c with pendingMsg := some m, readPaused := true } with hu | hu <;> rw [hu]
    · rw [hstays]
      · show Trade _ _ _ (one (k.after _).message + _)
        rw [k.after_message]
        exact (zero_add (one (some m))).trans (add_zero _).symm
      · rfl
    · have hlong : (upstreamDisconnect e { c with pendingMsg := none, readPaused := false }).past.length ≠ c.past.length := by
        show (c.past ++ [c.ses]).length ≠ _
        rw [List.length_append]
        exact Nat.succ_ne_self _
      have hfree : Hand.frees (.publishing k m) c (upstreamDisconnect e { c with pendingMsg := none, readPaused := false }) =
          [m] := by
        unfold Hand.frees
        rw [if_neg hlong]
      show Trade _ _ (_ + (Hand.frees _ _ (upstreamDisconnect e { c with pendingMsg := none, readPaused := false }) : Multiset Msg)) _
      rw [hfree]
      rfl
  · rw [if_neg hfull]
    show Trade _ _ (_ + (Hand.frees _ _ c : Multiset Msg)) (_ + one c.pendingMsg)
    rw [hstays c rfl, hnone]
    rfl

/-- the stored message is pushed -/
theorem handStep_resuming_trade : HandTrade conf e .resuming c (handStep conf e size .resuming c) := by
  have hfree : ∀ d, Hand.frees .resuming c d = [] := by
    intro d
    unfold Hand.frees
    split_ifs <;> rfl
  have hupdated : Stays c.resumed (updateEvents e c.resumed).2 := (Stays.refl _).updateEvents e
  have hnone : (updateEvents e c.resumed).2.pendingMsg = none := hupdated.pending
  have hsum : (0 : Multiset Msg) + 0 + (one c.pendingMsg + 0) = 0 + one c.pendingMsg + 0 := by
    rw [zero_add, zero_add, zero_add]
  unfold HandTrade handStep Trade
  dsimp only
  rw [hfree]
  split_ifs
  · rw [hnone]
    exact hsum
  · exact hsum

/-- **A step of the reactor** moves every message it has, frees it, or pushes it. -/
theorem handStep_trade (hs : Steady conf True h c) : HandTrade conf e h c (handStep conf e size h c) := by
  cases h with
  | rest => exact (Stays.refl c).trade rfl rfl rfl rfl
  | reported fl =>
    unfold handStep upstreamEventHead
    dsimp only
    split_ifs
    · exact (Stays.refl c).tradeGone rfl rfl rfl (by rintro ⟨⟩)
    · exact (stays_queueHandshake e c).trade rfl rfl rfl rfl
    · exact (stays_queueHandshake e c).tradeGone rfl rfl rfl (by rintro ⟨⟩)
    · exact (Stays.refl c).tradeGone rfl rfl rfl (by rintro ⟨⟩)
    · exact (stays_flush e c).tradeGone rfl rfl rfl (by rintro ⟨⟩)
    · exact (stays_flush e c).tradeGone rfl rfl rfl (by rintro ⟨⟩)
    · exact (stays_flush e c).trade rfl rfl rfl rfl
    · exact (Stays.refl c).trade rfl rfl rfl rfl
  | shaking fl =>
    unfold handStep upstreamEventRead
    dsimp only
    by_cases hshake : fl.inn = true ∧ c.state = .UPSTREAM_HANDSHAKE
    · rw [if_pos hshake]
      have hread := stays_readHandshake conf e c
      split_ifs
      · exact hread.tradeGone rfl rfl rfl (by rintro ⟨⟩)
      · exact hread.trade rfl rfl rfl rfl
      · exact hread.trade rfl rfl rfl rfl
    · rw [if_neg hshake]
      rw [if_neg (show ¬ (true, c).1 = false by simp)]
      split_ifs
      · exact (Stays.refl c).trade rfl rfl rfl rfl
      · exact (Stays.refl c).trade rfl rfl rfl rfl
  | receiving hup =>
    unfold handStep
    dsimp only
    cases e.recv with
    | got bs => exact (⟨rfl, rfl⟩ : Stays c (c.receive bs)).trade rfl rfl rfl rfl
    | again => exact (Stays.refl c).trade rfl rfl rfl rfl
    | eof | err => exact (Stays.refl c).tradeGone rfl rfl rfl (by rintro ⟨⟩)
  | leaving hup =>
    cases hup with
    | true => exact (Stays.refl c).tradeGone rfl rfl rfl (by rintro ⟨⟩)
    | false => exact (Stays.refl c).trade rfl rfl rfl rfl
  | processing k => exact handStep_processing_trade hs
  | publishing k m => exact handStep_publishing_trade hs
  | pushing k m =>
    have hfree : Hand.frees (.pushing k m) c (c.record m) = [] := by
      unfold Hand.frees
      exact if_pos rfl
    show Trade _ _ (_ + (Hand.frees (.pushing k m) c (c.record m) : Multiset Msg)) _
    rw [hfree]
    show 0 + one c.pendingMsg + (one (some m) + 0) = one (some m) + one c.pendingMsg + 0
    rw [zero_add, add_zero, add_zero, add_comm]
  | resuming => exact handStep_resuming_trade

def Reactor.carries (r : Reactor) : Option Msg :=
  match r.pc with
  | .busy _ h _ => h.message
  | _ => none

/-- in the hands of the thread, and with the clients -/
def Reactor.keeps (r : Reactor) : Multiset Msg := one r.carries + stock r.count fun i => (r.client i).pendingMsg

/-- a step that ends with nothing in the thread's hands, and changes no client's message -/
theorem Reactor.keeps_same {r r' : Reactor} (hcount : r'.count = r.count) (hc : r.carries = none) (hc' : r'.carries = none)
    (h : ∀ i, (r'.client i).pendingMsg = (r.client i).pendingMsg) : r'.keeps = r.keeps := by
  unfold Reactor.keeps
  rw [hcount, hc, hc']
  exact congrArg _ (stock_congr fun i _ => h i)

/-- between two clients the thread has no message -/
theorem Reactor.idle {r : Reactor} (h : ∀ i hd back, r.pc ≠ .busy i hd back) (r' : Reactor) :
    r.carries = none ∧ r.makes conf e = [] ∧ r.frees r' = [] := by
  unfold Reactor.carries Reactor.makes Reactor.frees
  cases hpc : r.pc with
  | busy i hd back => exact absurd hpc (h i hd back)
  | _ => exact ⟨rfl, rfl, rfl⟩

/-- **A step of the reactor thread.** -/
theorem reactorStep_trade {q : Queue Msg} {r : Reactor} {t : Queue Msg × Reactor} (hw : r.pc.Within r.count)
    (hs : ∀ i, Steady conf True (r.pc.hand i) (r.client i)) (hstep : reactorStep conf q r e = some t) :
    Trade ((q.items : Multiset Msg) + r.keeps) (r.makes conf e) (r.frees t.2) ((t.1.items : Multiset Msg) + t.2.keeps) := by
  have hquiet : (∀ i hd back, r.pc ≠ .busy i hd back) → t.1 = q → t.2.count = r.count → t.2.carries = none →
      (∀ i, (t.2.client i).pendingMsg = (r.client i).pendingMsg) →
      Trade ((q.items : Multiset Msg) + r.keeps) (r.makes conf e) (r.frees t.2) ((t.1.items : Multiset Msg) + t.2.keeps) := by
    intro hidle hq hcount hc' hp
    obtain ⟨hc, hmake, hfree⟩ : r.carries = none ∧ r.makes conf e = [] ∧ r.frees t.2 = [] := Reactor.idle hidle t.2
    rw [hmake, hfree, hq, Reactor.keeps_same hcount hc hc' hp]
    exact .refl _
  have hstep' := hstep
  unfold reactorStep at hstep
  cases hpc : r.pc with
  | top | resume =>
    simp only [hpc] at hstep
    obtain rfl := Option.some.inj hstep
    refine hquiet (by rw [hpc]; rintro _ _ _ ⟨⟩) rfl rfl ?_ fun _ => rfl
    unfold Reactor.carries
    dsimp only
    split_ifs <;> rfl
  | reconnect i now =>
    simp only [hpc] at hstep
    split_ifs at hstep <;> obtain rfl := Option.some.inj hstep
    · refine hquiet (by rw [hpc]; rintro _ _ _ ⟨⟩) rfl rfl rfl fun j => ?_
      by_cases hj : j = i
      · subst hj
        exact (congrArg UpstreamClient.pendingMsg (Function.update_self _ _ _)).trans (stays_reconnect e now _).pending
      · exact congrArg UpstreamClient.pendingMsg (Function.update_of_ne hj _ _)
    · exact hquiet (by rw [hpc]; rintro _ _ _ ⟨⟩) rfl rfl rfl fun _ => rfl
  | resumeAt i =>
    simp only [hpc] at hstep
    split_ifs at hstep <;> obtain rfl := Option.some.inj hstep <;>
      exact hquiet (by rw [hpc]; rintro _ _ _ ⟨⟩) rfl rfl rfl fun _ => rfl
  | wait =>
    simp only [hpc] at hstep
    split at hstep
    · obtain rfl := Option.some.inj hstep
      exact hquiet (by rw [hpc]; rintro _ _ _ ⟨⟩) rfl rfl rfl fun _ => rfl
    · obtain rfl := Option.some.inj hstep
      exact hquiet (by rw [hpc]; rintro _ _ _ ⟨⟩) rfl rfl rfl fun _ => rfl
    · split_ifs at hstep
      obtain rfl := Option.some.inj hstep
      exact hquiet (by rw [hpc]; rintro _ _ _ ⟨⟩) rfl rfl rfl fun _ => rfl
  | events evs =>
    cases evs with
    | nil =>
      simp only [hpc] at hstep
      obtain rfl := Option.some.inj hstep
      exact hquiet (by rw [hpc]; rintro _ _ _ ⟨⟩) rfl rfl rfl fun _ => rfl
    | cons ev evs =>
      simp only [hpc] at hstep
      obtain rfl := Option.some.inj hstep
      exact hquiet (by rw [hpc]; rintro _ _ _ ⟨⟩) rfl rfl rfl fun _ => rfl
  | done => simp only [hpc] at hstep; cases hstep
  | busy i h back =>
    rw [hpc] at hw
    have hsteady := hs i
    rw [hpc, show (UpPc.busy i h back).hand i = h from if_pos rfl] at hsteady
    have hqueue := reactorStep_queue hstep'
    have hpush : r.pushes = h.pushes (r.client i) := by
      unfold Reactor.pushes
      rw [hpc]
    rw [hpush] at hqueue
    -- the client in hand, and the queue
    have hhand : HandTrade conf e h (r.client i) (handStep conf e (queueSize q) h (r.client i)) := handStep_trade hsteady
    have hline : Trade (q.items : Multiset Msg) (one (h.pushes (r.client i))) 0 (t.1.items : Multiset Msg) := by
      refine Trade.line (b := []) (a := (h.pushes (r.client i)).toList) ?_
      rw [hqueue]
      cases h.pushes (r.client i) with
      | none => exact (List.append_nil _).symm
      | some m => rfl
    unfold HandTrade at hhand
    generalize hp : one (h.pushes (r.client i)) = p at hhand hline
    simp only [hpc] at hstep
    obtain rfl := Option.some.inj hstep
    set next := handStep conf e (queueSize q) h (r.client i) with hnext
    have hself : Function.update r.client i next.2 i = next.2 := Function.update_self i next.2 r.client
    have hchange := Trade.change (f := fun j => (r.client j).pendingMsg)
      (g := fun j => (Function.update r.client i next.2 j).pendingMsg) hw.lt fun j hj =>
        congrArg UpstreamClient.pendingMsg (Function.update_of_ne hj next.2 r.client)
    rw [hself] at hchange
    have hcarries : Reactor.carries { r.setClient i next.2 with pc := if next.1 = .rest then back.pc i else .busy i next.1 back } =
        next.1.message := by
      unfold Reactor.carries
      dsimp only
      split_ifs with hrest
      · rw [hrest]
        cases back <;> rfl
      · rfl
    have hmakes : r.makes conf e = h.makes conf e (r.client i) := by
      unfold Reactor.makes
      rw [hpc]
    have hfrees : ∀ u : Reactor, r.frees u = h.frees (r.client i) (u.client i) := by
      intro u
      unfold Reactor.frees
      rw [hpc]
    have hcarried : r.carries = h.message := by
      unfold Reactor.carries
      rw [hpc]
    unfold Reactor.keeps
    rw [hmakes, hfrees, hcarries, hcarried]
    refine Trade.slot ?_ hchange hline
    rw [show ({ r.setClient i next.2 with pc := _ } : Reactor).client i = next.2 from hself]
    exact hhand

/-! ## The workers -/

variable {W w : ℕ} {s t : Srv} {k x : ℕ} {ev : WorkEnv}

/-- the message stored with a connection; while it is pushed it is the one in dataQueue -/
def Srv.stored (s : Srv) (c : ℕ) : Option Msg := if s.sys.pc = .rclear c then none else (s.conn c).pendingMsg

/-- with the workers, and stored with the connections -/
def Srv.apart (W : ℕ) (s : Srv) : Multiset Msg := (stock W fun w => (s.workers w).carries) + stock s.nextId s.stored

/-- on its way in the server -/
def Srv.keeps (W : ℕ) (s : Srv) : Multiset Msg := (s.sys.dataQueue.items : Multiset Msg) + (s.sys.ctrlQueue.items + s.apart W)

theorem stored_congr (hpc : t.sys.pc = s.sys.pc) (hp : (t.conn x).pendingMsg = (s.conn x).pendingMsg) :
    t.stored x = s.stored x := by
  unfold Srv.stored
  rw [hpc, hp]

theorem stored_of (h : s.sys.pc ≠ .rclear x) : s.stored x = (s.conn x).pendingMsg := if_neg h

theorem setConn_pending {v : Conn} (hv : v.pendingMsg = (s.conn k).pendingMsg) (x : ℕ) :
    ((s.setConn k v).conn x).pendingMsg = (s.conn x).pendingMsg := by
  by_cases hx : x = k
  · rw [hx, setConn_conn_self, hv]
  · rw [setConn_conn_of_ne v hx]

/-- one worker moves, and no stored message changes -/
theorem apart_moved (hw : w < W) (hworkers : ∀ w', w' ≠ w → t.workers w' = s.workers w') (hnext : t.nextId = s.nextId)
    (hstored : ∀ c, t.stored c = s.stored c) :
    Trade (s.apart W) (one (t.workers w).carries) (one (s.workers w).carries) (t.apart W) := by
  have hchange := Trade.change (f := fun w => (s.workers w).carries) (g := fun w => (t.workers w).carries) hw fun w' hne =>
    congrArg WPc.carries (hworkers w' hne)
  have hsame : stock t.nextId t.stored = stock s.nextId s.stored := by
    rw [hnext]
    exact stock_congr fun c _ => hstored c
  have hsum := hchange.add (Trade.of_eq hsame)
  rwa [add_zero, add_zero] at hsum

/-- a worker moves, and the stored message of the connection it holds changes -/
theorem apart_stored (hw : w < W) (hworkers : ∀ w', w' ≠ w → t.workers w' = s.workers w') (hnext : t.nextId = s.nextId)
    (hlt : k < s.nextId) (hstored : ∀ c, c ≠ k → t.stored c = s.stored c) :
    Trade (s.apart W) (one (t.workers w).carries + one (t.stored k)) (one (s.workers w).carries + one (s.stored k))
      (t.apart W) := by
  have hchange := Trade.change (f := fun w => (s.workers w).carries) (g := fun w => (t.workers w).carries) hw fun w' hne =>
    congrArg WPc.carries (hworkers w' hne)
  have hconns := Trade.change (f := s.stored) (g := t.stored) hlt hstored
  unfold Srv.apart
  rw [hnext]
  exact hchange.add hconns

/-- the queues are as they were -/
theorem Srv.keeps_apart {i o : Multiset Msg} (hdata : t.sys.dataQueue.items = s.sys.dataQueue.items)
    (hctrl : t.sys.ctrlQueue.items = s.sys.ctrlQueue.items) (h : Trade (s.apart W) i o (t.apart W)) :
    Trade (s.keeps W) i o (t.keeps W) := by
  have hsum := (Trade.refl (s.sys.dataQueue.items : Multiset Msg)).add ((Trade.refl (s.sys.ctrlQueue.items : Multiset Msg)).add h)
  rw [zero_add, zero_add, zero_add, zero_add] at hsum
  unfold Srv.keeps
  rw [hdata, hctrl]
  exact hsum

/-- a message goes to dataQueue -/
theorem Srv.keeps_data {m : Msg} (hdata : t.sys.dataQueue.items = s.sys.dataQueue.items ++ [m])
    (hctrl : t.sys.ctrlQueue.items = s.sys.ctrlQueue.items) (h : Trade (s.apart W) 0 {m} (t.apart W)) :
    Trade (s.keeps W) 0 0 (t.keeps W) := by
  have hline : Trade (s.sys.dataQueue.items : Multiset Msg) {m} 0 t.sys.dataQueue.items :=
    Trade.line (b := []) (a := [m]) hdata
  have hsum := hline.add ((Trade.refl (s.sys.ctrlQueue.items : Multiset Msg)).add h)
  rw [add_zero, add_zero, zero_add, zero_add] at hsum
  unfold Srv.keeps
  rw [hctrl]
  exact Trade.cancel (x := {m}) (by rwa [zero_add])

/-- a message goes to ctrlQueue -/
theorem Srv.keeps_ctrl {m : Msg} (hdata : t.sys.dataQueue.items = s.sys.dataQueue.items)
    (hctrl : t.sys.ctrlQueue.items = s.sys.ctrlQueue.items ++ [m]) (h : Trade (s.apart W) 0 0 (t.apart W)) :
    Trade (s.keeps W) {m} 0 (t.keeps W) := by
  have hline : Trade (s.sys.ctrlQueue.items : Multiset Msg) {m} 0 t.sys.ctrlQueue.items :=
    Trade.line (b := []) (a := [m]) hctrl
  have hsum := (Trade.refl (s.sys.dataQueue.items : Multiset Msg)).add (hline.add h)
  rw [add_zero, zero_add, zero_add, zero_add] at hsum
  unfold Srv.keeps
  rw [hdata]
  exact hsum

/-- no worker has the connection the aggregator has in its hands -/
theorem Good.not_clear (hg : Good s) (hw : (s.workers w).holds = some k) : s.sys.pc ≠ .rclear k := by
  intro hpc
  have hhand : k ∈ s.cell .hand := by simp [Srv.cell, hpc, AggPc.hand]
  cases hg.excl.only _ _ k (mem_worker.2 hw) hhand

/-- nothing is stored yet with a connection that is about to be parked -/
theorem Stored.before_park (hg : Good s) (hs : Stored s) {m : Msg} (hw : s.workers w = .parkStore k m) :
    (s.conn k).pendingMsg = none := by
  have hmem : k ∈ s.cell (.worker w) := mem_worker.2 (by rw [hw]; rfl)
  by_contra hne
  rcases hs.parked k hne with ⟨w', hw'⟩ | hpark | hhand
  · have hmem' : k ∈ s.cell (.worker w') := mem_worker.2 (by rw [hw']; rfl)
    obtain rfl := Place.worker.inj (hg.excl.only _ _ k hmem hmem')
    rw [hw] at hw'
    cases hw'
  · cases hg.excl.only (.worker w) .park k hmem hpark
  · cases hg.excl.only (.worker w) .hand k hmem (by simp [Srv.cell, hhand])

theorem makes_none (hloop : ∀ c eof, s.workers w ≠ .loop c eof) (hoff : ∀ c, s.workers w ≠ .handoffPush c) :
    s.makes conf (.worker w ev) = [] := by
  unfold Srv.makes
  dsimp only
  cases hw : s.workers w with
  | loop c eof => exact absurd hw (hloop c eof)
  | handoffPush c => exact absurd hw (hoff c)
  | _ => rfl

theorem makes_loop {eof : Bool} (hpc : s.workers w = .loop x eof) :
    s.makes conf (.worker w ev) = if (s.conn x).closeAfterSend then [] else
      match wsFrame conf (s.conn x) with
      | .message v opcode data => [msgNewData v.id opcode ev.ts data]
      | _ => [] := by
  unfold Srv.makes
  dsimp only
  generalize s.workers w = pc at hpc ⊢
  subst hpc
  rfl

theorem frees_none (h : ∀ c, s.workers w ≠ .apply c .DISP_CLOSE) : s.frees (.worker w ev) = [] := by
  have hcloses : s.closes (.worker w ev) = none := by
    rw [Option.eq_none_iff_forall_ne_some]
    exact fun c hc => h c (Srv.closes_worker.1 hc)
  unfold Srv.frees
  dsimp only
  rw [hcloses]
  rfl

/-- **A step of a worker.** -/
theorem workerStep_trade (hg : Good s) (hs : Stored s) (hw : w < W) (hstep : workerStep conf s w ev = some t) :
    Trade (s.keeps W) (s.makes conf (.worker w ev)) (s.frees (.worker w ev)) (t.keeps W) := by
  have hself : ∀ (u : Srv) (p : WPc), (u.goto w p).workers w = p := fun u p => Function.update_self _ _ _
  have hset : ∀ (c : ℕ) (v : Conn), v.pendingMsg = (s.conn c).pendingMsg → ∀ d, (s.setConn c v).stored d = s.stored d := by
    intro c v hv d
    exact stored_congr rfl (setConn_pending hv d)
  -- nothing is stored
  have hmove : ∀ (u : Srv) (p : WPc), t = u.goto w p → u.workers = s.workers → u.nextId = s.nextId →
      (∀ d, u.stored d = s.stored d) → Trade (s.apart W) (one p.carries) (one (s.workers w).carries) (t.apart W) := by
    intro u p ht hworkers hnext hstored
    subst ht
    have hothers : ∀ w', w' ≠ w → (u.goto w p).workers w' = s.workers w' := by
      intro w' hne
      show Function.update u.workers w p w' = s.workers w'
      rw [Function.update_of_ne hne, hworkers]
    have hmoved := apart_moved (t := u.goto w p) hw hothers hnext hstored
    rwa [hself] at hmoved
  -- and the worker keeps what it has
  have hquiet : ∀ (u : Srv) (p : WPc), t = u.goto w p → s.makes conf (.worker w ev) = [] → s.frees (.worker w ev) = [] →
      p.carries = (s.workers w).carries → u.workers = s.workers → u.nextId = s.nextId → (∀ d, u.stored d = s.stored d) →
      u.sys.dataQueue = s.sys.dataQueue → u.sys.ctrlQueue = s.sys.ctrlQueue →
      Trade (s.keeps W) (s.makes conf (.worker w ev)) (s.frees (.worker w ev)) (t.keeps W) := by
    intro u p ht hmake hfree hp hworkers hnext hstored hdata hctrl
    have hmoved := hmove u p ht hworkers hnext hstored
    rw [hmake, hfree]
    subst ht
    refine Srv.keeps_apart (congrArg Queue.items hdata) (congrArg Queue.items hctrl) ?_
    rw [hp] at hmoved
    exact Trade.cancel (x := one (s.workers w).carries) (by simpa using hmoved)
  by_cases hloop : ∃ c eof, s.workers w = .loop c eof
  · obtain ⟨c, eof, hpc⟩ := hloop
    have hcarry : (s.workers w).carries = none := by rw [hpc]; rfl
    have hfree : s.frees (.worker w ev) = [] := frees_none fun d => by rw [hpc]; rintro ⟨⟩
    have hshell := wsFrame_shell conf (s.conn c)
    have hmakes : s.makes conf (.worker w ev) = _ := makes_loop hpc
    unfold workerStep at hstep
    simp only [hpc] at hstep
    split_ifs at hstep with hclose
    · rw [if_pos hclose] at hmakes
      exact hquiet s _ (Option.some.inj hstep).symm hmakes hfree (by rw [hcarry]; rfl) rfl rfl (fun _ => rfl) rfl rfl
    · rw [if_neg hclose] at hmakes
      cases hf : wsFrame conf (s.conn c) with
      | wait =>
        simp only [hf] at hstep hmakes
        exact hquiet s _ (Option.some.inj hstep).symm hmakes hfree (by rw [hcarry]; rfl) rfl rfl (fun _ => rfl) rfl rfl
      | stop v | next v =>
        simp only [hf] at hstep hmakes hshell
        exact hquiet (s.setConn c v) _ (Option.some.inj hstep).symm hmakes hfree (by rw [hcarry]; rfl) rfl rfl
          (hset c v hshell.pendingMsg) rfl rfl
      | message v opcode data =>
        simp only [hf] at hstep hmakes hshell
        have hmoved := hmove _ _ (Option.some.inj hstep).symm rfl rfl (hset c v hshell.pendingMsg)
        obtain rfl := Option.some.inj hstep
        rw [hcarry] at hmoved
        rw [hmakes, hfree]
        exact Srv.keeps_apart rfl rfl hmoved
  by_cases happly : ∃ c disp, s.workers w = .apply c disp
  · obtain ⟨c, disp, hpc⟩ := happly
    have hcarry : (s.workers w).carries = none := by rw [hpc]; rfl
    have hholds : (s.workers w).holds = some c := by rw [hpc]; rfl
    have hmake : s.makes conf (.worker w ev) = [] :=
      makes_none (fun d eof => by rw [hpc]; rintro ⟨⟩) fun d => by rw [hpc]; rintro ⟨⟩
    unfold workerStep at hstep
    simp only [hpc] at hstep
    by_cases hdisp : disp = .DISP_CLOSE
    · -- the connection is freed, and its message with it
      subst hdisp
      have hfree : s.frees (.worker w ev) = (s.conn c).pendingMsg.toList := by
        unfold Srv.frees
        dsimp only
        rw [Srv.closes_worker.2 hpc]
        exact List.append_nil _
      obtain rfl := Option.some.inj hstep
      have hstored := apart_stored (s := s) (t := (s.setConn c (connClose (s.conn c))).goto w .idle) hw
        (fun w' hne => Function.update_of_ne hne _ _) rfl (hg.known (mem_worker.2 hholds)) fun d hd =>
          stored_congr rfl (congrArg Conn.pendingMsg (setConn_conn_of_ne _ hd))
      have hgone : ((s.setConn c (connClose (s.conn c))).goto w .idle).stored c = none := by
        unfold Srv.stored
        rw [goto_setConn]
        split_ifs <;> rfl
      rw [hself, hcarry, stored_of (hg.not_clear hholds), hgone] at hstored
      rw [hmake, hfree]
      refine Srv.keeps_apart rfl rfl ?_
      have hsum : Trade (s.apart W) (0 + 0) (0 + one (s.conn c).pendingMsg) _ := hstored
      rwa [zero_add, zero_add] at hsum
    · have hfree : s.frees (.worker w ev) = [] := by
        refine frees_none fun d h => hdisp ?_
        rw [hpc] at h
        exact (WPc.apply.inj h).2
      have hsame : (applyDisposition (s.conn c) disp).pendingMsg = (s.conn c).pendingMsg := by
        cases disp with
        | DISP_CLOSE => exact absurd rfl hdisp
        | DISP_REARM_IN | DISP_REARM_OUT | DISP_REARM_INOUT =>
          simp only [applyDisposition, rearmEpoll]
          split_ifs <;> rfl
        | DISP_PARKED | DISP_HANDOFF => rfl
      exact hquiet _ _ (Option.some.inj hstep).symm hmake hfree (by rw [hcarry]; rfl) rfl rfl (hset c _ hsame) rfl rfl
  have hmake : (∀ c, s.workers w ≠ .handoffPush c) → s.makes conf (.worker w ev) = [] :=
    makes_none fun c eof h => hloop ⟨c, eof, h⟩
  have hfree : s.frees (.worker w ev) = [] := frees_none fun c h => happly ⟨c, _, h⟩
  cases workerStep_shift hstep with
  | take c q hpc =>
    exact hquiet _ _ rfl (hmake fun d => by rw [hpc]; rintro ⟨⟩) hfree (by rw [hpc]; rfl) rfl rfl (fun _ => rfl) rfl rfl
  | think c v p hworks hp htouch =>
    obtain ⟨-, hcarry, -, -⟩ := WPc.works_spec hworks
    obtain ⟨-, hcarry', -, -⟩ := WPc.works_spec hp
    refine hquiet (s.setConn c v) p rfl (hmake fun d hpc => ?_) hfree (hcarry'.trans hcarry.symm) rfl rfl
      (hset c v htouch.pendingMsg) rfl rfl
    rw [hpc] at hworks
    cases hworks
  | complete c eof m v hpc => exact absurd ⟨c, eof, hpc⟩ hloop
  | apply c disp hpc => exact absurd ⟨c, disp, hpc⟩ happly
  | decide c eof m p hpc hp =>
    refine hquiet s p rfl (hmake fun d => by rw [hpc]; rintro ⟨⟩) hfree ?_ rfl rfl (fun _ => rfl) rfl rfl
    rcases hp with rfl | rfl <;> rw [hpc] <;> rfl
  | push c eof m hpc =>
    have hmoved := hmove { s with sys := { s.sys with dataQueue := push s.sys.dataQueue m } } (.loop c eof) rfl rfl rfl
      fun _ => rfl
    rw [hpc] at hmoved
    rw [hmake fun d => by rw [hpc]; rintro ⟨⟩, hfree]
    exact Srv.keeps_data rfl rfl hmoved
  | parkStore c m hpc =>
    have hholds : (s.workers w).holds = some c := by rw [hpc]; rfl
    have hclear := hg.not_clear hholds
    have hstored := apart_stored (s := s) (t := (s.setConn c { s.conn c with pendingMsg := some m }).goto w (.parkPush c)) hw
      (fun w' hne => Function.update_of_ne hne _ _) rfl (hg.known (mem_worker.2 hholds)) fun d hd =>
        stored_congr rfl (congrArg Conn.pendingMsg (setConn_conn_of_ne _ hd))
    have hin : ((s.setConn c { s.conn c with pendingMsg := some m }).goto w (.parkPush c)).stored c = some m := by
      rw [stored_of (show ((s.setConn c _).goto w (.parkPush c)).sys.pc ≠ _ from hclear), goto_setConn]
    rw [hself, hpc, stored_of hclear, hs.before_park hg hpc, hin] at hstored
    rw [hmake fun d => by rw [hpc]; rintro ⟨⟩, hfree]
    refine Srv.keeps_apart rfl rfl ?_
    exact Trade.cancel (i := 0) (o := 0) (x := {m}) hstored
  | parkPush c hpc =>
    exact hquiet _ _ rfl (hmake fun d => by rw [hpc]; rintro ⟨⟩) hfree (by rw [hpc]; rfl) rfl rfl (fun _ => rfl) rfl rfl
  | parkDel c hpc | handoffDel c hpc =>
    exact hquiet (s.setConn c { s.conn c with reg := .absent }) _ rfl (hmake fun d => by rw [hpc]; rintro ⟨⟩) hfree
      (by rw [hpc]; rfl) rfl rfl (hset c _ rfl) rfl rfl
  | handoffPush c hpc =>
    have hmoved := hmove { s with sys := { s.sys with ctrlQueue := push s.sys.ctrlQueue (msgNewSinkAdd c) } } .idle rfl rfl rfl
      fun _ => rfl
    have hmakes : s.makes conf (.worker w ev) = [msgNewSinkAdd c] := by
      unfold Srv.makes
      simp only [hpc]
    rw [hpc] at hmoved
    rw [hmakes, hfree]
    exact Srv.keeps_ctrl rfl rfl hmoved

/-! ## The aggregator -/

variable {a u : AggSys} {ag : AggEnv}

/-- it comes to the store behind the push from the push only -/
theorem aggStep_rclear (h : aggStep conf a ag = some u) (hu : u.pc = .rclear x) : a.pc = .rpush x := by
  have hctrl : ∀ (v : AggSys) (m : Msg), (handleCtrl v ag.sends m).pc = v.pc := fun v m => (handleCtrl_only v ag.sends m).pc
  unfold aggStep at h
  cases hpc : a.pc with
  | rpush c =>
    simp only [hpc] at h
    obtain ⟨m, -, rfl⟩ := Option.map_eq_some_iff.1 h
    exact congrArg AggPc.rpush (AggPc.rclear.inj hu)
  | ctrl | drainCtrl =>
    simp only [hpc] at h
    split at h <;> obtain rfl := Option.some.inj h
    · cases hu
    · rw [hctrl] at hu
      cases hu
  | pump => simp only [hpc] at h; split_ifs at h <;> obtain rfl := Option.some.inj h <;> cases hu
  | mark =>
    simp only [hpc] at h
    obtain rfl := Option.some.inj h
    dsimp only at hu
    split_ifs at hu
  | unpark | take | wait => simp only [hpc] at h; split at h <;> obtain rfl := Option.some.inj h <;> cases hu
  | exitCtrl d | exitDrain => simp only [hpc] at h; split_ifs at h <;> obtain rfl := Option.some.inj h <;> cases hu
  | rclear c | radd c | exitData | final => simp only [hpc] at h; obtain rfl := Option.some.inj h; cases hu
  | events evs => cases evs <;> simp only [hpc] at h <;> obtain rfl := Option.some.inj h <;> cases hu
  | drainData =>
    simp only [hpc] at h
    split at h <;> obtain rfl := Option.some.inj h
    · cases hu
    · rw [(drainMessage_same _ ag.sends _).1] at hu
      cases hu
  | done => simp only [hpc] at h; cases h

/-- the connections whose message goes to nobody, and those it leaves alone -/
theorem aggStep_emptied (hk : ∀ c, (a.conn c).Keeps) (h : aggStep conf a ag = some u) (hclear : a.pc ≠ .rclear x) :
    (u.conn x).pendingMsg = if x ∈ a.empties ag then none else (a.conn x).pendingMsg := by
  by_cases hfinal : a.pc = .final ∧ x ∈ a.park
  · have hin : x ∈ a.empties ag := by
      unfold AggSys.empties
      rw [hfinal.1]
      exact List.mem_append_right _ hfinal.2
    rw [if_pos hin]
    unfold aggStep at h
    simp only [hfinal.1] at h
    obtain rfl := Option.some.inj h
    have hpark : (freeSink a ag.sends).park = a.park := (freeSink_only (fun _ => False) a ag.sends).park
    show (if x ∈ (freeSink a ag.sends).park then _ else (freeSink a ag.sends).conn x : Conn).pendingMsg = none
    rw [if_pos (by rw [hpark]; exact hfinal.2)]
  · have hsettled := aggStep_settled x h hclear fun hpc hx => hfinal ⟨hpc, hx⟩
    have hlives := aggStep_lives h x
    have hkeeps := aggStep_keeps x h (hk x)
    have hmem : x ∈ a.empties ag ↔ a.closes ag = some x := by
      unfold AggSys.empties
      rw [List.mem_append, Option.mem_toList]
      refine or_iff_left fun hx => ?_
      split at hx
      · next hpc => exact hfinal ⟨hpc, hx⟩
      · cases hx
    by_cases hcl : a.closes ag = some x
    · rw [if_pos (hmem.2 hcl)]
      rw [if_pos hcl] at hlives
      by_contra hne
      rw [hkeeps hne] at hlives
      cases hlives
    · rw [if_neg fun hin => hcl (hmem.1 hin)]
      rcases hsettled with ⟨hp, -⟩ | ⟨hp, hl⟩
      · exact hp
      · -- it was not live before
        rw [if_neg hcl, hl] at hlives
        rw [hp]
        by_contra hne
        rw [hk x (Ne.symm hne)] at hlives
        cases hlives

/-- where nothing is closed nothing is emptied -/
theorem AggSys.empties_nil (hcloses : a.closes ag = none) (hpc : a.pc ≠ .final) : a.empties ag = [] := by
  unfold AggSys.empties
  rw [hcloses]
  split
  · next h => exact absurd h hpc
  · rfl

/-- the connections of a list are there, each once -/
theorem Srv.Sound.emptied (hs : s.Sound) (hx : x ∈ s.sys.empties ag) : x < s.nextId := by
  unfold AggSys.empties at hx
  rcases List.mem_append.1 hx with hcl | hpark
  · have hsink := AggSys.closes_sink (Option.mem_toList.1 hcl)
    have hmem : x ∈ s.calm.cell .sink := by
      rw [calm_cell]
      simp [Srv.cell, hsink]
    exact hs.good.known hmem
  · split at hpark
    · exact hs.good.known (p := .park) hpark
    · cases hpark

theorem Srv.Sound.empties_nodup (hs : s.Sound) (ag : AggEnv) : (s.sys.empties ag).Nodup := by
  have hexcl : Exclusive s.cell := calm_cell s ▸ hs.good.excl
  unfold AggSys.empties
  rw [List.nodup_append]
  refine ⟨?_, ?_, ?_⟩
  · cases s.sys.closes ag <;> simp
  · split
    · exact hexcl.nodup .park
    · exact List.nodup_nil
  · intro y hy z hz
    split at hz
    · rintro rfl
      have hsink : y ∈ s.cell .sink := by
        simp [Srv.cell, AggSys.closes_sink (Option.mem_toList.1 hy)]
      cases hexcl.only .sink .park y hsink hz
    · cases hz

/-- what is stored with the connections, when the aggregator moves -/
theorem aggStep_stored_trade (hs : s.Sound) (hk : ∀ c, (s.conn c).Keeps) (h : aggStep conf s.sys ag = some u) :
    Trade (stock s.nextId s.stored) 0 (one s.sys.pushes + ↑(drawn (s.sys.empties ag) fun c => (s.conn c).pendingMsg))
      (stock s.nextId ({ s with sys := u } : Srv).stored) := by
  cases hpc : s.sys.pc with
  | rpush k =>
    have hempties : s.sys.empties ag = [] := AggSys.empties_nil (by unfold AggSys.closes; rw [hpc]) (by rw [hpc]; rintro ⟨⟩)
    have hpush : s.sys.pushes = (s.sys.conn k).pendingMsg := by
      unfold AggSys.pushes
      rw [hpc]
    have hlt : k < s.nextId := by
      have hmem : k ∈ s.calm.cell .hand := by
        rw [calm_cell]
        simp [Srv.cell, hpc, AggPc.hand]
      exact hs.good.known hmem
    have hstored : ∀ c, s.stored c = (s.sys.conn c).pendingMsg := fun c => stored_of (by rw [hpc]; rintro ⟨⟩)
    unfold aggStep at h
    simp only [hpc] at h
    obtain ⟨m, -, rfl⟩ := Option.map_eq_some_iff.1 h
    have hchange := Trade.change (f := s.stored)
      (g := ({ s with sys := { s.sys with dataQueue := push s.sys.dataQueue m, pc := .rclear k } } : Srv).stored) hlt
      fun c hc => by
        rw [hstored c]
        exact stored_of fun hclear => hc (AggPc.rclear.inj hclear).symm
    have hgone : ({ s with sys := { s.sys with dataQueue := push s.sys.dataQueue m, pc := .rclear k } } : Srv).stored k = none :=
      if_pos rfl
    rw [hgone, hstored k] at hchange
    rw [hempties, hpush, show drawn [] (fun c => (s.conn c).pendingMsg) = [] from rfl, Multiset.coe_nil, add_zero]
    exact hchange
  | rclear k =>
    have hempties : s.sys.empties ag = [] := AggSys.empties_nil (by unfold AggSys.closes; rw [hpc]) (by rw [hpc]; rintro ⟨⟩)
    have hpush : s.sys.pushes = none := by
      unfold AggSys.pushes
      rw [hpc]
    unfold aggStep at h
    simp only [hpc] at h
    obtain rfl := Option.some.inj h
    rw [hempties, hpush]
    refine Trade.of_eq (stock_congr fun c _ => ?_)
    rw [stored_of (s := { s with sys := _ }) (by rintro ⟨⟩)]
    by_cases hc : c = k
    · subst hc
      rw [show s.stored c = none from if_pos hpc]
      show (Function.update s.sys.conn c _ c).pendingMsg = none
      rw [Function.update_self]
    · rw [stored_of fun hclear => hc (AggPc.rclear.inj (hpc.symm.trans hclear)).symm]
      show (Function.update s.sys.conn k _ c).pendingMsg = (s.sys.conn c).pendingMsg
      rw [Function.update_of_ne hc]
  | _ =>
    -- some are closed, perhaps
    have hpush : s.sys.pushes = none := by
      unfold AggSys.pushes
      rw [hpc]
    have hclear : ∀ c, s.sys.pc ≠ .rclear c := fun c => by rw [hpc]; rintro ⟨⟩
    have hclear' : ∀ c, u.pc ≠ .rclear c := by
      intro c hc
      have hbefore := aggStep_rclear h hc
      rw [hpc] at hbefore
      cases hbefore
    have hemptied : ∀ c, ({ s with sys := u } : Srv).stored c = if c ∈ s.sys.empties ag then none else s.stored c := by
      intro c
      rw [stored_of (s := { s with sys := u }) (hclear' c), stored_of (hclear c)]
      exact aggStep_emptied hk h (hclear c)
    rw [hpush, one_none, zero_add]
    have hstored : s.stored = fun c => (s.conn c).pendingMsg := funext fun c => stored_of (hclear c)
    rw [← hstored]
    refine Trade.clear (hs.empties_nodup ag) (fun c hc => hs.emptied hc) (fun c hc => ?_) fun c _ hc => ?_
    · rw [hemptied, if_pos hc]
    · rw [hemptied, if_neg hc]

/-- **A step of the aggregator.** -/
theorem aggStep_trade (hs : s.Sound) (hk : ∀ c, (s.conn c).Keeps) (h : aggStep conf s.sys ag = some u) :
    Trade (s.keeps W) 0 (s.frees (.agg ag)) (({ s with sys := u } : Srv).keeps W) := by
  have hqueues := aggStep_queues h
  have hdata : Trade (s.sys.dataQueue.items : Multiset Msg) (one s.sys.pushes) (one s.sys.takesData) u.dataQueue.items :=
    Trade.line hqueues.data
  have hctrl : Trade (s.sys.ctrlQueue.items : Multiset Msg) 0 (one s.sys.takesCtrl) u.ctrlQueue.items :=
    Trade.line (a := []) (hqueues.ctrl.trans (List.append_nil _).symm)
  have hworkers := Trade.refl (stock W fun w => (s.workers w).carries)
  have hsum := hdata.add (hctrl.add (hworkers.add (aggStep_stored_trade hs hk h)))
  have hfrees : (s.frees (.agg ag) : Multiset Msg) = one s.sys.takesCtrl + one s.sys.takesData +
      ↑(drawn (s.sys.empties ag) fun c => (s.conn c).pendingMsg) := by
    unfold Srv.frees one
    rw [← Multiset.coe_add, ← Multiset.coe_add]
  rw [hfrees]
  refine Trade.cancel (x := one s.sys.pushes) ?_
  have hout : one s.sys.takesData + (one s.sys.takesCtrl + (0 + (one s.sys.pushes +
      ↑(drawn (s.sys.empties ag) fun c => (s.conn c).pendingMsg)))) = one s.sys.takesCtrl + one s.sys.takesData +
        ↑(drawn (s.sys.empties ag) fun c => (s.conn c).pendingMsg) + one s.sys.pushes := by
    abel
  rw [hout, add_zero, add_zero, add_zero] at hsum
  rw [zero_add]
  exact hsum

/-! ## The program -/

/-- what is on its way, in the server and in the reactor -/
def Life.keeps (W : ℕ) (l : Life) : Multiset Msg := l.node.srv.keeps W + l.node.reactor.keeps

variable {l l' : Life} {client : ℕ → UpstreamClient} {count : ℕ} {act : Act}

/-- the network, the listeners and a new connection have no message -/
theorem Srv.keeps_still (hdata : t.sys.dataQueue = s.sys.dataQueue) (hctrl : t.sys.ctrlQueue = s.sys.ctrlQueue)
    (hworkers : t.workers = s.workers) (hnext : t.nextId = s.nextId) (hpc : t.sys.pc = s.sys.pc)
    (hp : ∀ c, (t.conn c).pendingMsg = (s.conn c).pendingMsg) : t.keeps W = s.keeps W := by
  unfold Srv.keeps Srv.apart
  rw [hdata, hctrl, hworkers, hnext]
  rw [stock_congr fun c _ => stored_congr hpc (hp c)]

theorem srvStep_trade (hsound : s.Sound) (hk : ∀ c, (s.conn c).Keeps)
    (hopen : (∃ w e, act = .worker w e) → Good s ∧ Stored s) (hw : act.Within W) (h : srvStep conf s act = some t) :
    Trade (s.keeps W) (s.makes conf act) (s.frees act) (t.keeps W) := by
  cases act with
  | worker w ev =>
    obtain ⟨hg, hs⟩ := hopen ⟨w, ev, rfl⟩
    exact workerStep_trade hg hs hw h
  | agg ag =>
    obtain ⟨u, hu, rfl⟩ := Option.map_eq_some_iff.1 h
    exact aggStep_trade hsound hk hu
  | accept =>
    obtain rfl := Option.some.inj h
    have hnew : ({ s.setConn s.nextId (connNew s.nextId) with nextId := s.nextId + 1 } : Srv).stored s.nextId = none := by
      unfold Srv.stored
      split_ifs
      · rfl
      · exact congrArg Conn.pendingMsg (setConn_conn_self s s.nextId (connNew s.nextId))
    have hold : ∀ c < s.nextId,
        ({ s.setConn s.nextId (connNew s.nextId) with nextId := s.nextId + 1 } : Srv).stored c = s.stored c := fun c hc =>
      stored_congr rfl (congrArg Conn.pendingMsg (setConn_conn_of_ne (connNew s.nextId) hc.ne))
    refine Trade.of_eq ?_
    unfold Srv.keeps Srv.apart
    rw [stock_succ, hnew, one_none, add_zero, stock_congr hold]
    rfl
  | deliver c bytes fin =>
    simp only [srvStep] at h
    split_ifs at h
    obtain rfl := Option.some.inj h
    exact Trade.of_eq (Srv.keeps_still rfl rfl rfl rfl rfl (setConn_pending (k := c) rfl))
  | fetch c =>
    simp only [srvStep] at h
    split_ifs at h
    obtain rfl := Option.some.inj h
    exact Trade.of_eq (Srv.keeps_still rfl rfl rfl rfl rfl (setConn_pending (k := c) rfl))
  | enqueue c =>
    simp only [srvStep] at h
    split_ifs at h
    obtain rfl := Option.some.inj h
    exact Trade.of_eq (Srv.keeps_still rfl rfl rfl rfl rfl fun _ => rfl)

/-- the thread that is at its end has no message in its hands -/
theorem Reactor.carries_ended {r : Reactor} (hw : r.pc.Within r.count) (h : r.count = 0 ∨ r.pc = .done) : r.carries = none := by
  unfold Reactor.carries
  cases hpc : r.pc with
  | busy i hd back =>
    rcases h with hzero | hdone
    · rw [hpc] at hw
      have hlt := hw.lt
      omega
    · rw [hpc] at hdone
      cases hdone
  | _ => rfl

/-- `registryDestroyAll` -/
theorem freeAll_trade (hsound : s.Sound) (hk : ∀ c, (s.conn c).Keeps) (hpc : ∀ c, s.sys.pc ≠ .rclear c) :
    Trade (s.keeps W) 0 (drawn s.registered fun c => (s.conn c).pendingMsg) ((s.freeAll s.registered).keeps W) := by
  have hdrawn : drawn s.registered s.stored = drawn s.registered fun c => (s.conn c).pendingMsg :=
    congrArg (drawn s.registered) (funext fun c => stored_of (hpc c))
  have hdead : ∀ c, c ∉ s.registered → (s.conn c).pendingMsg = none := by
    intro c hc
    by_contra hne
    refine hc (List.mem_filter.2 ⟨List.mem_range.2 ?_, hk c hne⟩)
    by_contra hge
    have hlive := hk c hne
    rw [show (s.conn c).live = false from (hsound.good.fine c).dead (not_lt.1 hge)] at hlive
    cases hlive
  have hafter : ∀ c, (s.freeAll s.registered).stored c = if c ∈ s.registered then none else s.stored c := by
    intro c
    rw [stored_of (s := s.freeAll s.registered) (hpc c), stored_of (hpc c)]
    unfold Srv.freeAll Srv.conn
    dsimp only
    split_ifs <;> rfl
  have hclear : Trade (stock s.nextId s.stored) 0 (drawn s.registered s.stored)
      (stock s.nextId (s.freeAll s.registered).stored) := by
    refine Trade.clear (List.nodup_range.filter _) (fun c hc => ?_) (fun c hc => ?_) fun c _ hc => ?_
    · exact List.mem_range.1 (List.mem_filter.1 hc).1
    · rw [hafter, if_pos hc]
    · rw [hafter, if_neg hc]
  rw [hdrawn] at hclear
  refine Srv.keeps_apart rfl rfl ?_
  have hsum := (Trade.refl (stock W fun w => (s.workers w).carries)).add hclear
  rw [zero_add, zero_add] at hsum
  exact hsum

/-- **A step of main** frees what the record says. -/
theorem mainStep_books (hk : l.Kept conf W client count) (hb : Books l.made l.freed (l.keeps W)) (h : mainStep W l = some l') :
    Books l'.made l'.freed (l'.keeps W) := by
  have hout : ∀ {gone : List Msg} {k' : Multiset Msg}, Trade (l.keeps W) 0 gone k' → Books l.made (l.freed ++ gone) k' := by
    intro gone k' htrade
    have hstep : Books (l.made ++ []) (l.freed ++ gone) k' := hb.step htrade
    rwa [List.append_nil] at hstep
  have hsame : ∀ {k' : Multiset Msg}, k' = l.keeps W → Books l.made l.freed k' := by
    rintro k' rfl
    exact hb
  have hstill : ∀ {t : Srv}, t.sys.dataQueue.items = l.node.srv.sys.dataQueue.items →
      t.sys.ctrlQueue.items = l.node.srv.sys.ctrlQueue.items → t.apart W = l.node.srv.apart W →
      t.keeps W + l.node.reactor.keeps = l.keeps W := by
    intro t hdata hctrl hapart
    unfold Life.keeps Srv.keeps
    rw [hdata, hctrl, hapart]
  unfold mainStep at h
  cases hp : l.phase with
  | running =>
    simp only [hp] at h
    obtain rfl := Option.some.inj h
    exact hb
  | noReactor | queueShut | ctrlShut =>
    simp only [hp] at h
    split_ifs at h
    obtain rfl := Option.some.inj h
    exact hb
  | noListeners | noWorkers | dataShut =>
    simp only [hp] at h
    obtain rfl := Option.some.inj h
    exact hsame (hstill rfl rfl rfl)
  | flagged =>
    simp only [hp] at h
    split_ifs at h with hdone
    obtain rfl := Option.some.inj h
    have hclear : Trade (stock l.node.reactor.count fun i => (l.node.reactor.client i).pendingMsg) 0
        (drawn (List.range l.node.reactor.count) fun i => (l.node.reactor.client i).pendingMsg)
        (stock l.node.reactor.count fun i => (upstreamDestroy (l.node.reactor.client i)).pendingMsg) :=
      Trade.clear List.nodup_range (fun i hi => List.mem_range.1 hi) (fun _ _ => rfl) fun i hi hout =>
        absurd (List.mem_range.2 hi) hout
    refine hout ?_
    have hsum := (Trade.refl (l.node.srv.keeps W)).add ((Trade.refl (one l.node.reactor.carries)).add hclear)
    rw [zero_add, zero_add, zero_add, zero_add] at hsum
    exact hsum
  | noAgg =>
    simp only [hp] at h
    obtain rfl := Option.some.inj h
    have hrank : l.phase.rank = 8 := by rw [hp]; rfl
    have hdone : l.node.srv.sys.pc = .done := hk.agg hrank.ge
    have hsound := hk.sound (show l.phase.rank < 9 by omega)
    have hfree := freeAll_trade (W := W) hsound hk.keeps fun c => by rw [hdone]; rintro ⟨⟩
    refine hout ?_
    have hsum := hfree.add (Trade.refl l.node.reactor.keeps)
    rw [add_zero, add_zero] at hsum
    exact hsum
  | noConns =>
    simp only [hp] at h
    obtain rfl := Option.some.inj h
    dsimp only
    rw [List.append_assoc]
    refine hout ?_
    have hdata : Trade (l.node.srv.sys.dataQueue.items : Multiset Msg) 0 l.node.srv.sys.dataQueue.items 0 :=
      Trade.line (a := []) (q := []) rfl
    have hctrl : Trade (l.node.srv.sys.ctrlQueue.items : Multiset Msg) 0 l.node.srv.sys.ctrlQueue.items 0 :=
      Trade.line (a := []) (q := []) rfl
    have hsum := (hdata.add (hctrl.add (Trade.refl (l.node.srv.apart W)))).add (Trade.refl l.node.reactor.keeps)
    rw [add_zero, add_zero, add_zero, add_zero, add_zero, Multiset.coe_add] at hsum
    exact hsum
  | ended => simp only [hp] at h; cases h

/-- at the end nothing is kept -/
theorem Life.Kept.keeps_ended (hk : l.Kept conf W client count) (hend : l.phase = .ended) : l.keeps W = 0 := by
  have hrank : l.phase.rank = 10 := by rw [hend]; rfl
  obtain ⟨hdone, hclients⟩ := hk.joined (show 2 ≤ l.phase.rank by omega)
  obtain ⟨hidle, -⟩ := hk.workers (show 5 ≤ l.phase.rank by omega)
  obtain ⟨hdata, hctrl⟩ := hk.ended hend
  have hworkers : (stock W fun w => (l.node.srv.workers w).carries) = 0 := stock_empty fun w _ => by rw [hidle w]; rfl
  have hconns : stock l.node.srv.nextId l.node.srv.stored = 0 := by
    refine stock_empty fun c _ => ?_
    unfold Srv.stored
    split_ifs
    · rfl
    · by_contra hne
      have hlive := hk.keeps c hne
      rw [hk.conns (show 9 ≤ l.phase.rank by omega) c] at hlive
      cases hlive
  have hreactor : (stock l.node.reactor.count fun i => (l.node.reactor.client i).pendingMsg) = 0 :=
    stock_empty fun i _ => hclients i
  unfold Life.keeps Reactor.keeps Srv.keeps Srv.apart
  rw [hdata, hctrl, hworkers, hconns, hreactor, Reactor.carries_ended hk.within hdone]
  rfl

/-- **Every step keeps the books.** -/
theorem lifeStep_books {a : LifeAct} (hadd : Added client) (hk : l.Kept conf W client count)
    (hb : Books l.made l.freed (l.keeps W)) (h : lifeStep conf W l a = some l') : Books l'.made l'.freed (l'.keeps W) := by
  cases a with
  | main => exact mainStep_books hk hb h
  | abandon c =>
    unfold lifeStep at h
    dsimp only at h
    split_ifs at h
    obtain rfl := Option.some.inj h
    exact hb
  | node a =>
    unfold lifeStep at h
    dsimp only at h
    split_ifs at h with hl
    obtain ⟨n, hn, rfl⟩ := Option.map_eq_some_iff.1 h
    rcases nodeStep_cases hn with ⟨b, s, rfl, hw, hs, rfl⟩ | ⟨e, r, rfl, hr, rfl⟩
    · have hopen : (∃ w e, b = .worker w e) → Good l.node.srv ∧ Stored l.node.srv := by
        rintro ⟨w, e, rfl⟩
        exact hk.good (lt_trans (show l.phase.rank < 5 from hl) (by decide))
      refine hb.step ?_
      have hsum := (srvStep_trade (hk.sound (Life.lets_srv hl)) hk.keeps hopen hw hs).add (Trade.refl l.node.reactor.keeps)
      rw [add_zero, add_zero] at hsum
      exact hsum
    · have hsteady : ∀ i, Steady conf True (l.node.reactor.pc.hand i) (l.node.reactor.client i) := fun i =>
        @upReach_steady conf True _ _ _ _ (fun _ _ _ _ _ _ => trivial) hadd (upReach_any (hk.up hl.2.1)) i
      refine hb.step ?_
      have hreactor := reactorStep_trade hk.within hsteady hr
      have hsum := hreactor.add (Trade.refl ((l.node.srv.sys.ctrlQueue.items : Multiset Msg) + l.node.srv.apart W))
      rw [add_zero, add_zero, add_right_comm, add_right_comm (r.1.items : Multiset Msg)] at hsum
      exact hsum

/-- **Every message is freed once.** In every run of the program, with any number of workers and clients, whatever its system
calls return and whenever the signal comes: the messages allocated so far are those freed and those kept somewhere, each as
often; and at the end none is kept, so each was freed, and no more often than it was allocated. -/
theorem each_freed_once (conf : ServerConfig) (W : ℕ) (client : ℕ → UpstreamClient) (count : ℕ) (hadd : Added client) (l : Life)
    (h : Reachable (lifeStep conf W) (.start client count) l) :
    Books l.made l.freed (l.keeps W) ∧ (l.phase = .ended → l.freed.Perm l.made) := by
  have hbooks : Books l.made l.freed (l.keeps W) := by
    refine h.invariant_of (P := fun l => l.Kept conf W client count) (Q := fun l => Books l.made l.freed (l.keeps W))
      (fun l hl => life_kept hl) ?_ fun l a l' hk hb _ hstep => lifeStep_books hadd hk hb hstep
    have hnone : (Life.start client count).keeps W = 0 := by
      have hclients : (stock count fun i => (client i).pendingMsg) = 0 := stock_empty fun i _ => by
        obtain ⟨id, host, port, path, hi⟩ := hadd i
        unfold upstreamAdd at hi
        split_ifs at hi
        rw [← Option.some.inj hi]
      have hworkers : (stock W fun w => (Srv.start.workers w).carries) = 0 := stock_empty fun _ _ => rfl
      have hconns : stock Srv.start.nextId Srv.start.stored = 0 := stock_empty fun _ _ => rfl
      show 0 + (0 + ((stock W fun w => (Srv.start.workers w).carries) + stock Srv.start.nextId Srv.start.stored)) +
        (0 + stock count fun i => (client i).pendingMsg) = 0
      rw [hclients, hworkers, hconns]
      rfl
    rw [hnone]
    exact Books.start
  refine ⟨hbooks, fun hend => Books.closed ?_⟩
  rwa [(life_kept h).keeps_ended hend] at hbooks

/-- three messages and a SINK_ADD; one of the messages was parked -/
theorem each_freed_once_farewell : ∃ l, Reachable (lifeStep tinyConf 1) (.start (fun _ => closedClient 9) 0) l ∧
    l.made.length = 4 ∧ l.freed.Perm l.made := by
  obtain ⟨l, hl, hp⟩ := Reachable.of_check _ _ farewell _ farewell_runs
  rw [decide_eq_true_eq] at hp
  obtain ⟨l', hstep, hend, hmade⟩ := mainStep_ends (W := 1) hp.1
  have hl' : Reachable (lifeStep tinyConf 1) (.start (fun _ => closedClient 9) 0) l' := .step .main hl trivial hstep
  have hfreed := (each_freed_once tinyConf 1 (fun _ => closedClient 9) 0 (added_closedClient 9) l' hl').2 hend
  exact ⟨l', hl', hmade ▸ hp.2, hfreed⟩

end WsServer
