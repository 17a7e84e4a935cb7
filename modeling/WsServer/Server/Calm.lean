/-
Every connection is in one place at most, also while the server shuts down.

`Good` speaks of a server whose queues are open. What a shutdown adds is in two fields: the flag of dataQueue, and the
aggregator inside its drain. `Srv.calm` is the state without them: the same connections in the same places, so `Good` of
it says what `Good` says of the state itself.

- `srvStep_calm`: every step of a listener, a worker or the network does the same without them.
- `aggStep_calm`: every step of the aggregator keeps the places, those of the drain included.
-/
import Mathlib
import WsServer.Server.Owners

namespace WsServer

open Ws Places Machine

def AggPc.calm : AggPc → AggPc
  | .drainCtrl => .ctrl
  | .drainData => .wait
  | p => p

/-- dataQueue is open, and nobody drains -/
def AggSys.calm (s : AggSys) : AggSys := { s with dataQueue := { s.dataQueue with shutdown := false }, pc := s.pc.calm }

def Srv.calm (s : Srv) : Srv := { s with sys := s.sys.calm }

variable {conf : ServerConfig} {s t : Srv} {a r u : AggSys} {e : AggEnv} {who : ℕ → Prop}

@[simp] theorem AggPc.calm_hand (p : AggPc) : p.calm.hand = p.hand := by cases p <;> rfl

theorem AggPc.calm_draining (p : AggPc) : p.calm.draining = false := by cases p <;> rfl

theorem AggPc.calm_done {p : AggPc} (h : p ≠ .done) : p.calm ≠ .done := by
  cases p with
  | done => exact absurd rfl h
  | _ => nofun

/-- the places are the same -/
theorem calm_cell (s : Srv) : s.calm.cell = s.cell := by
  funext p
  cases p with
  | hand => exact congrArg Option.toList (AggPc.calm_hand s.sys.pc)
  | _ => rfl

theorem SinkOnly.calm (h : SinkOnly who a r) : SinkOnly who a.calm r.calm :=
  ⟨congrArg AggPc.calm h.pc, congrArg (fun q : Queue Msg => { q with shutdown := false }) h.dataQueue, h.ctrlQueue, h.park,
    h.popped, h.encoded, h.discarded, h.cut, h.pending, h.sink, h.conn, h.side⟩

/-! ## The other threads -/

theorem workerStep_calm {w : ℕ} {e : WorkEnv} (h : workerStep conf s w e = some t) :
    workerStep conf s.calm w e = some t.calm := by
  have hworkers : s.calm.workers w = s.workers w := rfl
  unfold workerStep at h ⊢
  rw [hworkers]
  cases hw : s.workers w with
  | idle =>
    simp only [hw] at h ⊢
    have hqueue : s.calm.queue = s.queue := rfl
    rw [hqueue]
    cases hq : pop s.queue with
    | item c q =>
      simp only [hq] at h ⊢
      obtain rfl := Option.some.inj h
      rfl
    | _ => simp only [hq] at h; cases h
  | run c =>
    have hconn : s.calm.conn c = s.conn c := rfl
    simp only [hw] at h ⊢
    rw [hconn]
    cases hst : (s.conn c).state with
    | ST_HANDSHAKE_READ =>
      simp only [hst] at h ⊢
      cases hr : handleHandshakeRead conf e.sizes (s.conn c) <;> simp only [hr] at h ⊢ <;> obtain rfl := Option.some.inj h <;>
        rfl
    | ST_HANDSHAKE_SEND | ST_WS_OPEN =>
      simp only [hst] at h ⊢
      obtain rfl := Option.some.inj h
      rfl
  | hsSend c =>
    have hconn : s.calm.conn c = s.conn c := rfl
    simp only [hw] at h ⊢
    rw [hconn]
    cases hr : handleHandshakeSend e.sends (s.conn c) <;> simp only [hr] at h ⊢ <;> obtain rfl := Option.some.inj h <;> rfl
  | loop c eof =>
    have hconn : s.calm.conn c = s.conn c := rfl
    simp only [hw] at h ⊢
    rw [hconn]
    by_cases hmark : (s.conn c).closeAfterSend = true
    · rw [if_pos hmark] at h ⊢
      obtain rfl := Option.some.inj h
      rfl
    · rw [if_neg hmark] at h ⊢
      cases hf : wsFrame conf (s.conn c) <;> simp only [hf] at h ⊢ <;> obtain rfl := Option.some.inj h <;> rfl
  | handoffDel | handoffPush | recv | check | push | parkStore | parkPush | parkDel | flush | apply =>
    simp only [hw] at h ⊢
    obtain rfl := Option.some.inj h
    rfl

theorem srvStep_calm {b : Act} (h : srvStep conf s b = some t) (hb : ∀ e, b ≠ .agg e) :
    srvStep conf s.calm b = some t.calm := by
  cases b with
  | accept => obtain rfl := Option.some.inj h; rfl
  | worker w e => exact workerStep_calm h
  | agg e => exact absurd rfl (hb e)
  | deliver c bytes fin =>
    simp only [srvStep] at h
    split_ifs at h with hc
    obtain rfl := Option.some.inj h
    exact if_pos hc
  | fetch c =>
    simp only [srvStep] at h
    split_ifs at h with hc
    obtain rfl := Option.some.inj h
    exact if_pos hc
  | enqueue c =>
    simp only [srvStep] at h
    split_ifs at h with hc
    obtain rfl := Option.some.inj h
    exact if_pos hc

/-! ## The aggregator -/

/-- the drain has tried a message once: no connection and no place is touched -/
structure Drained (a u : AggSys) : Prop where
  conn : u.conn = a.conn
  park : u.park = a.park
  ctrlQueue : u.ctrlQueue = a.ctrlQueue
  sink : u.agg.sink = a.agg.sink
  hand : u.pc.hand = a.pc.hand

theorem drainMessage_drained (q : Queue Msg) (record : List Msg) (sends : List SendRes) (m : Msg) :
    Drained a (drainMessage { a with dataQueue := q, popped := record } sends m) := by
  unfold drainMessage
  split_ifs <;> exact ⟨rfl, rfl, rfl, rfl, rfl⟩

/-- a step that is about the sink at most -/
theorem calm_look {p : AggPc} (honly : SinkOnly (fun _ => False) a r) (hpc : a.pc.hand = none) (hp : p.hand = none)
    (hdone : p ≠ .done) : Shift a.calm ({ r with pc := p } : AggSys).calm :=
  .look r.calm p.calm honly.calm (a.pc.calm_hand.trans hpc) (p.calm_hand.trans hp) p.calm_draining (AggPc.calm_done hdone)

/-- **Every step of the aggregator is one of a server that is not shut down**, but for a message of the drain. -/
theorem aggStep_calm (h : aggStep conf a e = some u) : Shift a.calm u.calm ∨ Drained a u := by
  have hlook : ∀ p : AggPc, a.pc.hand = none → p.hand = none → p ≠ .done →
      Shift a.calm ({ a with pc := p } : AggSys).calm := fun p => calm_look (.refl _ a)
  unfold aggStep at h
  cases hpc : a.pc with
  | ctrl | drainCtrl =>
    simp only [hpc] at h
    cases hc : trypop a.ctrlQueue with
    | none =>
      simp only [hc] at h
      obtain rfl := Option.some.inj h
      exact .inl (hlook _ (by rw [hpc]; rfl) rfl (by rintro ⟨⟩))
    | some mq =>
      obtain ⟨m, q⟩ := mq
      simp only [hc] at h
      obtain rfl := Option.some.inj h
      rw [← hpc]
      have honly := (handleCtrl_only { a with ctrlQueue := q } e.sends m).calm
      exact .inl (.ctrl m q _ hc (congrArg AggPc.calm hpc) honly)
  | pump =>
    have honly := sinkFlush_only (fun _ => False) a e.sends
    have hhand : a.pc.hand = none := by rw [hpc]; rfl
    simp only [hpc] at h
    split_ifs at h <;> obtain rfl := Option.some.inj h
    · exact .inl (hlook _ hhand rfl (by rintro ⟨⟩))
    · exact .inl (calm_look (honly.trans (closeSink_only _ _)) hhand rfl (by rintro ⟨⟩))
    · exact .inl (calm_look honly hhand rfl (by rintro ⟨⟩))
    · exact .inl (calm_look honly hhand rfl (by rintro ⟨⟩))
  | mark =>
    simp only [hpc] at h
    obtain rfl := Option.some.inj h
    refine .inl (hlook _ (by rw [hpc]; rfl) ?_ ?_)
    all_goals split_ifs <;> first | rfl | rintro ⟨⟩
  | unpark =>
    simp only [hpc] at h
    split at h
    · obtain rfl := Option.some.inj h
      exact .inl (hlook _ (by rw [hpc]; rfl) rfl (by rintro ⟨⟩))
    · next c park hpark =>
      obtain rfl := Option.some.inj h
      exact .inl (.unpark c park (congrArg AggPc.calm hpc) hpark)
  | rpush c =>
    simp only [hpc, Option.map_eq_some_iff] at h
    obtain ⟨m, hm, rfl⟩ := h
    exact .inl (.rpush c m (congrArg AggPc.calm hpc) hm)
  | rclear c =>
    simp only [hpc] at h
    obtain rfl := Option.some.inj h
    exact .inl (.rclear c (congrArg AggPc.calm hpc))
  | radd c =>
    simp only [hpc] at h
    obtain rfl := Option.some.inj h
    exact .inl (.radd c (congrArg AggPc.calm hpc))
  | take =>
    simp only [hpc] at h
    cases hd : trypop a.dataQueue with
    | none =>
      simp only [hd] at h
      obtain rfl := Option.some.inj h
      exact .inl (hlook _ (by rw [hpc]; rfl) rfl (by rintro ⟨⟩))
    | some mq =>
      obtain ⟨m, q⟩ := mq
      simp only [hd] at h
      obtain rfl := Option.some.inj h
      have hpop : trypop a.calm.dataQueue = some (m, { q with shutdown := false }) := by
        rw [trypop_eq_some] at hd ⊢
        exact ⟨hd.1, rfl⟩
      exact .inl (.take m _ (congrArg AggPc.calm hpc) hpop)
  | exitData =>
    simp only [hpc] at h
    obtain rfl := Option.some.inj h
    exact .inl (hlook _ (by rw [hpc]; rfl) rfl (by rintro ⟨⟩))
  | exitCtrl | exitDrain | wait =>
    simp only [hpc] at h
    split at h <;> obtain rfl := Option.some.inj h <;> exact .inl (hlook _ (by rw [hpc]; rfl) rfl (by rintro ⟨⟩))
  | events evs =>
    have hhand : a.pc.hand = none := by rw [hpc]; rfl
    cases evs with
    | nil =>
      simp only [hpc] at h
      obtain rfl := Option.some.inj h
      exact .inl (hlook _ hhand rfl (by rintro ⟨⟩))
    | cons ev evs =>
      simp only [hpc] at h
      obtain rfl := Option.some.inj h
      exact .inl (calm_look (handleEvent_only _ a e ev) hhand rfl (by rintro ⟨⟩))
  | drainData =>
    simp only [hpc] at h
    cases hd : trypop a.dataQueue with
    | none =>
      simp only [hd] at h
      obtain rfl := Option.some.inj h
      exact .inl (hlook _ (by rw [hpc]; rfl) rfl (by rintro ⟨⟩))
    | some mq =>
      obtain ⟨m, q⟩ := mq
      simp only [hd] at h
      obtain rfl := Option.some.inj h
      rw [← hpc]
      exact .inr (drainMessage_drained q _ e.sends m)
  | final =>
    simp only [hpc] at h
    obtain rfl := Option.some.inj h
    exact .inl (.final (freeSink a e.sends).calm (congrArg AggPc.calm hpc) (freeSink_only _ a e.sends).calm
      (freeSink_sink a e.sends))
  | done => simp only [hpc] at h; cases h

/-- the drain moves nothing -/
theorem Drained.cell (h : Drained s.sys u) : ({ s with sys := u } : Srv).cell = s.cell := by
  funext p
  cases p with
  | fetched | queue | worker w => rfl
  | park => exact h.park
  | hand => exact congrArg Option.toList h.hand
  | ctrl => exact congrArg (fun q : Queue Msg => q.items.filterMap Msg.sinkAdd) h.ctrlQueue
  | sink => exact congrArg Option.toList h.sink

theorem aggStep_calm_good (hg : Good s.calm) (h : aggStep conf s.sys e = some u) : Good ({ s with sys := u } : Srv).calm := by
  rcases aggStep_calm h with hshift | hdrained
  · exact Shift.good (s := s.calm) (u := u.calm) hg hshift
  · have hcell : ({ s with sys := u } : Srv).calm.cell = s.calm.cell := by rw [calm_cell, calm_cell, hdrained.cell]
    refine hg.frame (hcell ▸ hg.excl) (fun d => ?_) (fun p d hd => hcell ▸ hd) rfl rfl rfl (AggPc.calm_draining _)
    rw [show ({ s with sys := u } : Srv).calm.conn d = s.calm.conn d from congrFun hdrained.conn d]
    exact .refl _

/-- **Every step keeps everything in its place**, before the shutdown and in it. -/
theorem srvStep_calm_good {b : Act} (hg : Good s.calm) (h : srvStep conf s b = some t) : Good t.calm := by
  by_cases hb : ∃ e, b = .agg e
  · obtain ⟨e, rfl⟩ := hb
    obtain ⟨u, hu, rfl⟩ := Option.map_eq_some_iff.1 h
    exact aggStep_calm_good hg hu
  · exact srvStep_good hg (srvStep_calm h fun e he => hb ⟨e, he⟩)

end WsServer
