/-
The calls of `connClose`, and who has a connection that is not closed.

`connClose` is called from `applyDisposition`, from `closeSink`, and for connections nobody could hand on.
`AggSys.closes` and `Srv.closes` are the connection a step calls it for, as the source has the calls; `AggSys.adopts` is
the connection it calls `adoptSink` for.

- `aggStep_lives`, `srvStep_lives`: a step closes this connection and no other.
- `aggStep_sink`: the sink is the last one adopted, until it is closed.
- `srvStep_owned`, `srvStep_lost`: a step hands around what was in a place already, and nobody keeps what it closes.
-/
import Mathlib
import WsServer.Server.Calm

namespace WsServer

open Ws Places Machine

/-! ## The calls of `connClose` -/

/-- the connection `adoptSink` is called with -/
def AggSys.adopts (s : AggSys) : Option ℕ :=
  match s.pc with
  | .ctrl | .drainCtrl => (trypop s.ctrlQueue).bind fun r => r.1.sinkAdd
  | _ => none

def AggSys.eventCloses (s : AggSys) (e : AggEnv) : AggEvent → Option ℕ
  | .conn c hup inn => if s.agg.sink = some c ∧ (hup ∨ inn ∧ ¬ (sinkReadAndHandle s e c).1) then some c else none
  | .wake | .timer => none

/-- the connection the aggregator calls `connClose` for -/
def AggSys.closes (s : AggSys) (e : AggEnv) : Option ℕ :=
  match s.pc with
  | .ctrl | .drainCtrl => if s.adopts.isSome then s.agg.sink else none
  | .pump => if (sinkFlush s e.sends).1 < 0 then s.agg.sink else none
  | .events (ev :: _) => s.eventCloses e ev
  | .final => s.agg.sink
  | _ => none

def Srv.closes (s : Srv) : Act → Option ℕ
  | .worker w _ =>
    match s.workers w with
    | .apply c .DISP_CLOSE => some c
    | _ => none
  | .agg e => s.sys.closes e
  | _ => none

/-! ## Who is closed -/

variable {conf : ServerConfig} {s t : Srv} {sys u : AggSys} {e : AggEnv} {x : ℕ}

/-- a connection changes, and is as open as it was -/
theorem update_live (f : ℕ → Conn) {k : ℕ} {v : Conn} (hv : v.live = (f k).live) (x : ℕ) :
    (Function.update f k v x).live = (f x).live := by
  by_cases hx : x = k
  · subst hx
    rw [Function.update_self, hv]
  · rw [Function.update_of_ne hx]

theorem closeSink_live (s : AggSys) (x : ℕ) :
    ((closeSink s).conn x).live = if s.agg.sink = some x then false else (s.conn x).live := by
  unfold closeSink
  cases hsink : s.agg.sink with
  | none => rfl
  | some k =>
    by_cases hx : x = k
    · subst hx
      rw [if_pos rfl]
      exact congrArg Conn.live (Function.update_self x _ s.conn)
    · rw [if_neg fun h => hx (Option.some.inj h).symm]
      exact congrArg Conn.live (Function.update_of_ne hx _ s.conn)

theorem freeSink_live (s : AggSys) (sends : List SendRes) (x : ℕ) :
    ((freeSink s sends).conn x).live = if s.agg.sink = some x then false else (s.conn x).live := by
  unfold freeSink
  split_ifs with hsink hx hx
  · exact (closeSink_live _ x).trans (if_pos hx)
  · exact (closeSink_live _ x).trans (if_neg hx)
  · exact absurd (by rw [hx]; rfl) hsink
  · rfl

theorem handleCtrl_adopts {m : Msg} {c : ℕ} (h : m.sinkAdd = some c) (s : AggSys) (sends : List SendRes) :
    handleCtrl s sends m = adoptSink s sends c := by
  obtain ⟨hk, hc⟩ := sinkAdd_eq_some.1 h
  unfold handleCtrl
  rw [hk, hc]

/-- a control message of another kind is about no connection -/
theorem handleCtrl_stays {m : Msg} (h : m.sinkAdd = none) (s : AggSys) (sends : List SendRes) :
    (handleCtrl s sends m).conn = s.conn ∧ (handleCtrl s sends m).agg.sink = s.agg.sink ∧
      (handleCtrl s sends m).past = s.past := by
  unfold handleCtrl
  split
  · next c hk hc =>
    rw [sinkAdd_eq_some.2 ⟨hk, hc⟩] at h
    cases h
  · exact ⟨rfl, rfl, rfl⟩
  · exact ⟨rfl, rfl, rfl⟩

theorem handleCtrl_live (s : AggSys) (sends : List SendRes) (m : Msg) (x : ℕ) :
    ((handleCtrl s sends m).conn x).live =
      if (if m.sinkAdd.isSome then s.agg.sink else none) = some x then false else (s.conn x).live := by
  cases hadd : m.sinkAdd with
  | none => rw [(handleCtrl_stays hadd s sends).1]; rfl
  | some c =>
    rw [handleCtrl_adopts hadd, adoptSink_eq]
    refine Eq.trans ?_ (freeSink_live s sends x)
    refine update_live (freeSink s sends).conn ?_ x
    rfl

/-- the sink is written to, and stays -/
theorem sinkFlush_same (s : AggSys) (sends : List SendRes) :
    (sinkFlush s sends).2.conn = s.conn ∧ (sinkFlush s sends).2.agg.sink = s.agg.sink ∧
      (sinkFlush s sends).2.past = s.past := by
  have hctrl : (sinkFlushCtrl s sends).2.1.conn = s.conn ∧ (sinkFlushCtrl s sends).2.1.agg.sink = s.agg.sink ∧
      (sinkFlushCtrl s sends).2.1.past = s.past := by
    unfold sinkFlushCtrl
    split
    · exact ⟨rfl, rfl, rfl⟩
    · dsimp only
      split_ifs <;> exact ⟨rfl, rfl, rfl⟩
  have hdata : ∀ (s : AggSys) (sends : List SendRes), (sinkFlushData s sends).2.conn = s.conn ∧
      (sinkFlushData s sends).2.agg.sink = s.agg.sink ∧ (sinkFlushData s sends).2.past = s.past := by
    intro s sends
    unfold sinkFlushData
    split
    · exact ⟨rfl, rfl, rfl⟩
    · dsimp only
      split_ifs <;> exact ⟨rfl, rfl, rfl⟩
  unfold sinkFlush
  dsimp only
  split_ifs
  · exact hctrl
  · obtain ⟨h1, h2, h3⟩ := hdata (sinkFlushCtrl s sends).2.1 (sinkFlushCtrl s sends).2.2
    exact ⟨h1.trans hctrl.1, h2.trans hctrl.2.1, h3.trans hctrl.2.2⟩

/-- the sink is read from, and stays -/
theorem sinkReadAndHandle_same (s : AggSys) (e : AggEnv) (k x : ℕ) :
    ((sinkReadAndHandle s e k).2.conn x).live = (s.conn x).live ∧ (sinkReadAndHandle s e k).2.agg.sink = s.agg.sink ∧
      (sinkReadAndHandle s e k).2.past = s.past := by
  unfold sinkReadAndHandle
  dsimp only
  split <;> split <;> refine ⟨update_live s.conn ?_ x, rfl, rfl⟩ <;> rfl

theorem handleEvent_live (s : AggSys) (e : AggEnv) (ev : AggEvent) (x : ℕ) :
    ((handleEvent s e ev).conn x).live = if s.eventCloses e ev = some x then false else (s.conn x).live := by
  cases ev with
  | wake | timer => rfl
  | conn c hup inn =>
    have hhandle : handleEvent s e (.conn c hup inn) =
        if s.agg.sink ≠ some c then s
        else if hup then closeSink s
        else if inn then
          if (sinkReadAndHandle s e c).1 then (sinkReadAndHandle s e c).2 else closeSink (sinkReadAndHandle s e c).2
        else s := rfl
    have hcloses : s.eventCloses e (.conn c hup inn) =
        if s.agg.sink = some c ∧ (hup ∨ inn ∧ ¬ (sinkReadAndHandle s e c).1) then some c else none := rfl
    obtain ⟨hlive, hsame, -⟩ := sinkReadAndHandle_same s e c x
    rw [hhandle]
    by_cases hsink : s.agg.sink = some c
    · rw [if_neg (not_not.2 hsink)]
      cases hup with
      | true =>
        rw [if_pos ⟨hsink, .inl rfl⟩] at hcloses
        rw [if_pos rfl, closeSink_live, hcloses, hsink]
      | false =>
        cases inn with
        | true =>
          by_cases hstay : (sinkReadAndHandle s e c).1 = true
          · rw [if_neg (by simp [hstay])] at hcloses
            rw [hcloses, if_neg nofun, if_pos rfl, if_pos hstay, if_neg nofun, hlive]
          · rw [if_pos ⟨hsink, .inr ⟨rfl, hstay⟩⟩] at hcloses
            rw [hcloses, if_neg nofun, if_pos rfl, if_neg hstay, closeSink_live, hsame, hsink, hlive]
        | false =>
          rw [if_neg (by simp)] at hcloses
          rw [hcloses]
          rfl
    · rw [if_neg (not_and.2 fun h => absurd h hsink)] at hcloses
      rw [hcloses, if_pos hsink]
      rfl

theorem aggFreeState_live (s : AggSys) (x : ℕ) : ((aggFreeState s).conn x).live = (s.conn x).live := by
  unfold aggFreeState
  dsimp only
  split_ifs <;> rfl

theorem drainMessage_stays (s : AggSys) (sends : List SendRes) (m : Msg) :
    (drainMessage s sends m).conn = s.conn ∧ (drainMessage s sends m).agg.sink = s.agg.sink ∧
      (drainMessage s sends m).past = s.past := by
  unfold drainMessage
  split_ifs <;> exact ⟨rfl, rfl, rfl⟩

/-- **The aggregator closes a connection where it calls `connClose`, and nowhere else.** -/
theorem aggStep_lives (h : aggStep conf sys e = some u) (x : ℕ) :
    (u.conn x).live = if sys.closes e = some x then false else (sys.conn x).live := by
  unfold aggStep at h
  unfold AggSys.closes AggSys.adopts
  cases hpc : sys.pc with
  | ctrl | drainCtrl =>
    simp only [hpc] at h ⊢
    cases hc : trypop sys.ctrlQueue with
    | none =>
      simp only [hc] at h
      obtain rfl := Option.some.inj h
      rfl
    | some mq =>
      obtain ⟨m, q⟩ := mq
      simp only [hc] at h
      obtain rfl := Option.some.inj h
      exact handleCtrl_live _ e.sends m x
  | pump =>
    obtain ⟨hconn, hsink, -⟩ := sinkFlush_same sys e.sends
    simp only [hpc] at h ⊢
    by_cases hnone : sys.agg.sink = none
    · rw [if_pos hnone] at h
      obtain rfl := Option.some.inj h
      simp [hnone]
    rw [if_neg hnone] at h
    by_cases hneg : (sinkFlush sys e.sends).1 < 0
    · rw [if_pos hneg] at h ⊢
      obtain rfl := Option.some.inj h
      refine (closeSink_live _ x).trans ?_
      rw [hsink, hconn]
    · rw [if_neg hneg] at h ⊢
      split_ifs at h <;> obtain rfl := Option.some.inj h <;> exact congrArg (fun f : ℕ → Conn => (f x).live) hconn
  | events evs =>
    simp only [hpc] at h ⊢
    cases evs with
    | nil => obtain rfl := Option.some.inj h; rfl
    | cons ev evs =>
      obtain rfl := Option.some.inj h
      exact handleEvent_live sys e ev x
  | final =>
    simp only [hpc] at h ⊢
    obtain rfl := Option.some.inj h
    rw [← freeSink_live sys e.sends x]
    exact aggFreeState_live (freeSink sys e.sends) x
  | rclear c =>
    simp only [hpc] at h ⊢
    obtain rfl := Option.some.inj h
    refine update_live sys.conn ?_ x
    rfl
  | radd c =>
    simp only [hpc] at h ⊢
    obtain rfl := Option.some.inj h
    refine update_live sys.conn ?_ x
    unfold epollAdd
    split_ifs <;> rfl
  | rpush c =>
    simp only [hpc, Option.map_eq_some_iff] at h ⊢
    obtain ⟨m, -, rfl⟩ := h
    rfl
  | drainData =>
    simp only [hpc] at h ⊢
    split at h <;> obtain rfl := Option.some.inj h
    · rfl
    · rw [(drainMessage_stays _ e.sends _).1]
      rfl
  | take | unpark | exitCtrl | exitDrain | wait =>
    simp only [hpc] at h ⊢
    split at h <;> obtain rfl := Option.some.inj h <;> rfl
  | mark | exitData => simp only [hpc] at h ⊢; obtain rfl := Option.some.inj h; rfl
  | done => simp only [hpc] at h; cases h

theorem Srv.closes_worker {w : ℕ} {e : WorkEnv} : s.closes (.worker w e) = some x ↔ s.workers w = .apply x .DISP_CLOSE := by
  unfold Srv.closes
  dsimp only
  split
  · next c hw =>
    rw [hw]
    exact ⟨fun h => by rw [Option.some.inj h], fun h => congrArg some (WPc.apply.inj h).1⟩
  · next hno => exact ⟨nofun, fun h => absurd h (hno x)⟩

/-- **So does every step but an `accept`.** -/
theorem srvStep_lives {a : Act} (h : srvStep conf s a = some t) (ha : a ≠ .accept) (x : ℕ) :
    (t.conn x).live = if s.closes a = some x then false else (s.conn x).live := by
  cases a with
  | accept => exact absurd rfl ha
  | deliver c =>
    simp only [srvStep] at h
    split_ifs at h
    obtain rfl := Option.some.inj h
    exact setConn_live rfl
  | fetch c =>
    simp only [srvStep] at h
    split_ifs at h
    obtain rfl := Option.some.inj h
    exact setConn_live rfl
  | enqueue c =>
    simp only [srvStep] at h
    split_ifs at h
    obtain rfl := Option.some.inj h
    rfl
  | agg e =>
    obtain ⟨u, hu, rfl⟩ := Option.map_eq_some_iff.1 h
    exact aggStep_lives hu x
  | worker w e =>
    by_cases hw : s.workers w = .apply x .DISP_CLOSE
    · rw [if_pos (Srv.closes_worker.2 hw)]
      have hstep : workerStep conf s w e = some t := h
      unfold workerStep at hstep
      rw [hw] at hstep
      obtain rfl := Option.some.inj hstep
      exact congrArg Conn.live (setConn_conn_self s x (connClose (s.conn x)))
    · rw [if_neg fun hc => hw (Srv.closes_worker.1 hc)]
      exact (workerStep_shift h).live hw

/-! ## Where connections come from -/

/-- a worker has what it had, or what was in the queue -/
theorem WShift.places {w : ℕ} (h : WShift conf s w t) (hx : Owned t.cell x) : Owned s.cell x := by
  have hat : (s.workers w).holds = some x → Owned s.cell x := fun h => ⟨.worker w, mem_worker.2 h⟩
  -- the other workers hold what they held
  have hworker : ∀ (p : WPc) (t : Srv), t.workers = Function.update s.workers w p →
      (p.holds = some x → Owned s.cell x) → (∀ q, (∀ w', q ≠ .worker w') → x ∈ t.cell q → x ∈ s.cell q ∨ Owned s.cell x) →
      Owned t.cell x → Owned s.cell x := by
    rintro p t hworkers hp hrest ⟨q, hq⟩
    cases q with
    | worker w' =>
      have hq' := mem_worker.1 hq
      rw [hworkers] at hq'
      by_cases hw : w' = w
      · subst hw
        rw [Function.update_self] at hq'
        exact hp hq'
      · rw [Function.update_of_ne hw] at hq'
        exact ⟨.worker w', mem_worker.2 hq'⟩
    | _ => exact (hrest _ (by rintro w' ⟨⟩) hq).elim (fun h => ⟨_, h⟩) id
  cases h with
  | take c q hw hq _ =>
    have hmem : ∀ y, y ∈ c :: q.items → y ∈ s.cell .queue := by
      intro y hy
      rw [← hq] at hy
      exact hy
    refine hworker _ _ rfl (fun hp => ⟨.queue, ?_⟩) (fun r hr hmem' => ?_) hx
    · obtain rfl := Option.some.inj hp
      exact hmem c List.mem_cons_self
    · cases r with
      | queue => exact .inl (hmem x (List.mem_cons_of_mem c hmem'))
      | worker w' => exact absurd rfl (hr w')
      | _ => exact .inl hmem'
  | think c v p hw hp =>
    refine hworker p _ rfl (fun hp' => hat ?_) (fun r hr hmem => .inl ?_) hx
    · rw [(WPc.works_spec hw).1, ← (WPc.works_spec hp).1, hp']
    · cases r <;> first | exact hmem | exact absurd rfl (hr _)
  | complete c eof m v hw =>
    refine hworker _ _ rfl (fun hp => hat (by rw [hw]; exact hp)) (fun r hr hmem => .inl ?_) hx
    cases r <;> first | exact hmem | exact absurd rfl (hr _)
  | decide c eof m p hw hp =>
    refine hworker p _ rfl (fun hp' => hat ?_) (fun r hr hmem => .inl ?_) hx
    · rw [hw]
      rcases hp with rfl | rfl <;> exact hp'
    · cases r <;> first | exact hmem | exact absurd rfl (hr _)
  | push c eof m hw =>
    refine hworker _ _ rfl (fun hp => hat (by rw [hw]; exact hp)) (fun r hr hmem => .inl ?_) hx
    cases r <;> first | exact hmem | exact absurd rfl (hr _)
  | parkStore c m hw =>
    refine hworker _ _ rfl (fun hp => hat (by rw [hw]; exact hp)) (fun r hr hmem => .inl ?_) hx
    cases r <;> first | exact hmem | exact absurd rfl (hr _)
  | handoffDel c hw =>
    refine hworker _ _ rfl (fun hp => hat (by rw [hw]; exact hp)) (fun r hr hmem => .inl ?_) hx
    cases r <;> first | exact hmem | exact absurd rfl (hr _)
  | parkPush c hw =>
    refine hworker (.parkDel c) _ rfl nofun (fun r hr hmem => ?_) hx
    cases r with
    | park =>
      rcases List.mem_append.1 hmem with hmem | hmem
      · exact .inl hmem
      · obtain rfl := List.mem_singleton.1 hmem
        exact .inr (hat (by rw [hw]; rfl))
    | worker w' => exact absurd rfl (hr w')
    | _ => exact .inl hmem
  | handoffPush c hw =>
    refine hworker .idle _ rfl nofun (fun r hr hmem => ?_) hx
    cases r with
    | ctrl =>
      obtain ⟨m, hm, hadd⟩ := List.mem_filterMap.1 hmem
      rcases List.mem_append.1 hm with hm | hm
      · exact .inl (List.mem_filterMap.2 ⟨m, hm, hadd⟩)
      · obtain rfl := List.mem_singleton.1 hm
        obtain rfl := Option.some.inj hadd
        exact .inr (hat (by rw [hw]; rfl))
    | worker w' => exact absurd rfl (hr w')
    | _ => exact .inl hmem
  | parkDel c | apply c =>
    refine hworker .idle _ rfl nofun (fun r hr hmem => .inl ?_) hx
    cases r <;> first | exact hmem | exact absurd rfl (hr _)

/-- the aggregator takes connections from the park list, and sinks from ctrlQueue -/
theorem Shift.places (h : Shift s.sys u) {q : Place} (hx : x ∈ ({ s with sys := u } : Srv).cell q) :
    x ∈ s.cell q ∨ q = .sink ∧ x ∈ s.cell .ctrl ∨ q = .hand ∧ x ∈ s.cell .park := by
  -- what an operation on the sink does to the places
  have hsink : ∀ {who : ℕ → Prop} {a r : AggSys}, SinkOnly who a r → x ∈ r.agg.sink.toList →
      x ∈ a.agg.sink.toList ∨ who x := by
    intro who a r honly hmem
    rcases honly.sink with hs | hs | ⟨c, hc, hs⟩ <;> rw [hs] at hmem
    · exact .inl hmem
    · cases hmem
    · rw [List.mem_singleton.1 hmem]
      exact .inr hc
  -- and what it does not touch
  have hpark : ∀ {who : ℕ → Prop} {a r : AggSys}, SinkOnly who a r → x ∈ r.park → x ∈ a.park := by
    intro who a r honly hmem
    rwa [honly.park] at hmem
  have hctrl : ∀ {who : ℕ → Prop} {a r : AggSys}, SinkOnly who a r → x ∈ r.ctrlQueue.items.filterMap Msg.sinkAdd →
      x ∈ a.ctrlQueue.items.filterMap Msg.sinkAdd := by
    intro who a r honly hmem
    rwa [honly.ctrlQueue] at hmem
  cases h with
  | look r p honly hhand hp =>
    cases q with
    | park => exact .inl (hpark honly hx)
    | ctrl => exact .inl (hctrl honly hx)
    | hand =>
      have hx' : x ∈ p.hand.toList := hx
      rw [hp] at hx'
      cases hx'
    | sink => exact .inl ((hsink honly hx).resolve_right id)
    | _ => exact .inl hx
  | ctrl m q' _ hq hpc honly =>
    have hitems : s.sys.ctrlQueue.items = m :: q'.items := (trypop_eq_some.1 hq).1
    cases q with
    | park =>
      have hx' := hpark honly hx
      exact .inl hx'
    | hand =>
      have hx' : x ∈ u.pc.hand.toList := hx
      rw [honly.pc] at hx'
      exact .inl hx'
    | ctrl =>
      refine .inl ?_
      obtain ⟨m', hm', hadd⟩ := List.mem_filterMap.1 (hctrl honly hx)
      exact List.mem_filterMap.2 ⟨m', hitems ▸ List.mem_cons_of_mem m hm', hadd⟩
    | sink =>
      rcases hsink honly hx with hx | hadds
      · exact .inl hx
      · exact .inr (.inl ⟨rfl, List.mem_filterMap.2 ⟨m, hitems ▸ List.mem_cons_self, sinkAdd_eq_some.2 hadds⟩⟩)
    | _ => exact .inl hx
  | unpark c park hpc hpark =>
    have hmem : ∀ y, y ∈ c :: park → y ∈ s.cell .park := by
      intro y hy
      rw [← hpark] at hy
      exact hy
    cases q with
    | park => exact .inl (hmem x (List.mem_cons_of_mem c hx))
    | hand =>
      obtain rfl := List.mem_singleton.1 hx
      exact .inr (.inr ⟨rfl, hmem x List.mem_cons_self⟩)
    | _ => exact .inl hx
  | rpush c m hpc | rclear c hpc =>
    cases q with
    | hand =>
      refine .inl ?_
      show x ∈ s.sys.pc.hand.toList
      rw [hpc]
      exact hx
    | _ => exact .inl hx
  | radd c hpc =>
    cases q with
    | hand => cases hx
    | _ => exact .inl hx
  | take m q' hpc =>
    cases q with
    | hand => cases hx
    | _ => exact .inl hx
  | final r hpc honly hnone =>
    cases q with
    | park | hand => cases hx
    | ctrl => exact .inl (hctrl honly hx)
    | sink => exact .inl ((hsink honly hx).resolve_right id)
    | _ => exact .inl hx

theorem aggStep_places (h : aggStep conf s.sys e = some u) {q : Place} (hx : x ∈ ({ s with sys := u } : Srv).cell q) :
    x ∈ s.cell q ∨ q = .sink ∧ x ∈ s.cell .ctrl ∨ q = .hand ∧ x ∈ s.cell .park := by
  rcases aggStep_calm h with hshift | hdrained
  · rw [← calm_cell] at hx ⊢
    exact Shift.places (s := s.calm) (u := u.calm) hshift hx
  · rw [hdrained.cell] at hx
    exact .inl hx

/-! ## The sink -/

theorem AggSys.closes_sink (h : sys.closes e = some x) : sys.agg.sink = some x := by
  unfold AggSys.closes at h
  split at h
  · split_ifs at h; exact h
  · split_ifs at h; exact h
  · split_ifs at h; exact h
  · unfold AggSys.eventCloses at h
    split at h
    · split_ifs at h with hc
      obtain rfl := Option.some.inj h
      exact hc.1
    · cases h
    · cases h
  · exact h
  · cases h

theorem AggSys.closes_adopts (h : sys.adopts.isSome) : sys.closes e = sys.agg.sink := by
  unfold AggSys.closes
  split
  · exact if_pos h
  · exact if_pos h
  all_goals
    unfold AggSys.adopts at h
    simp_all

theorem handleEvent_sink (s : AggSys) (e : AggEnv) (ev : AggEvent) :
    (handleEvent s e ev).agg.sink = if (s.eventCloses e ev).isSome then none else s.agg.sink := by
  cases ev with
  | wake | timer => rfl
  | conn c hup inn =>
    have hsame := (sinkReadAndHandle_same s e c c).2.1
    unfold handleEvent AggSys.eventCloses
    dsimp only
    by_cases hsink : s.agg.sink = some c
    · cases hup with
      | true => simp [hsink, closeSink_sink]
      | false =>
        cases inn with
        | true =>
          by_cases hstay : (sinkReadAndHandle s e c).1 = true
          · simp [hsink, hstay, hsame]
          · simp [hsink, hstay, closeSink_sink]
        | false => simp [hsink]
    · simp [hsink]

/-- **The sink is the last one adopted, until it is closed.** -/
theorem aggStep_sink (h : aggStep conf sys e = some u) :
    u.agg.sink = match sys.adopts with
      | some c => some c
      | none => if (sys.closes e).isSome then none else sys.agg.sink := by
  have hquiet : sys.adopts = none → sys.closes e = none → u.agg.sink = sys.agg.sink →
      u.agg.sink = match sys.adopts with
        | some c => some c
        | none => if (sys.closes e).isSome then none else sys.agg.sink := by
    intro hadopts hcloses hsame
    rw [hadopts, hcloses]
    exact hsame
  unfold aggStep at h
  cases hpc : sys.pc with
  | ctrl | drainCtrl =>
    simp only [hpc] at h
    cases hc : trypop sys.ctrlQueue with
    | none =>
      simp only [hc] at h
      obtain rfl := Option.some.inj h
      have hadopts : sys.adopts = none := by simp only [AggSys.adopts, hpc, hc]; rfl
      exact hquiet hadopts (by simp [AggSys.closes, hpc, hadopts]) rfl
    | some mq =>
      obtain ⟨m, q⟩ := mq
      simp only [hc] at h
      obtain rfl := Option.some.inj h
      have hadopts : sys.adopts = m.sinkAdd := by simp only [AggSys.adopts, hpc, hc]; rfl
      cases hadd : m.sinkAdd with
      | none =>
        rw [hadd] at hadopts
        exact hquiet hadopts (by simp [AggSys.closes, hpc, hadopts]) (handleCtrl_stays hadd _ e.sends).2.1
      | some c =>
        rw [hadopts, hadd, handleCtrl_adopts hadd]
        rfl
  | pump =>
    have hadopts : sys.adopts = none := by simp only [AggSys.adopts, hpc]
    have hsame := (sinkFlush_same sys e.sends).2.1
    simp only [hpc] at h
    by_cases hnone : sys.agg.sink = none
    · rw [if_pos hnone] at h
      obtain rfl := Option.some.inj h
      exact hquiet hadopts (by simp [AggSys.closes, hpc, hnone]) rfl
    rw [if_neg hnone] at h
    by_cases hneg : (sinkFlush sys e.sends).1 < 0
    · rw [if_pos hneg] at h
      obtain rfl := Option.some.inj h
      have hsome : (sys.closes e).isSome := by
        simp only [AggSys.closes, hpc, if_pos hneg]
        exact Option.isSome_iff_ne_none.2 hnone
      rw [hadopts]
      dsimp only
      rw [if_pos hsome]
      exact closeSink_sink _
    · rw [if_neg hneg] at h
      have hcloses : sys.closes e = none := by simp only [AggSys.closes, hpc, if_neg hneg]
      split_ifs at h <;> obtain rfl := Option.some.inj h <;> exact hquiet hadopts hcloses hsame
  | events evs =>
    have hadopts : sys.adopts = none := by simp only [AggSys.adopts, hpc]
    simp only [hpc] at h
    cases evs with
    | nil =>
      obtain rfl := Option.some.inj h
      exact hquiet hadopts (by simp only [AggSys.closes, hpc]) rfl
    | cons ev evs =>
      obtain rfl := Option.some.inj h
      have hcloses : sys.closes e = sys.eventCloses e ev := by simp only [AggSys.closes, hpc]
      rw [hadopts, hcloses]
      exact handleEvent_sink sys e ev
  | final =>
    simp only [hpc] at h
    obtain rfl := Option.some.inj h
    have hadopts : sys.adopts = none := by simp only [AggSys.adopts, hpc]
    have hcloses : sys.closes e = sys.agg.sink := by simp only [AggSys.closes, hpc]
    have hsink : (freeSink sys e.sends).agg.sink = none := freeSink_sink sys e.sends
    rw [hadopts, hcloses]
    refine hsink.trans ?_
    cases sys.agg.sink <;> rfl
  | rpush c =>
    simp only [hpc, Option.map_eq_some_iff] at h
    obtain ⟨m, -, rfl⟩ := h
    exact hquiet (by simp only [AggSys.adopts, hpc]) (by simp only [AggSys.closes, hpc]) rfl
  | drainData =>
    simp only [hpc] at h
    split at h <;> obtain rfl := Option.some.inj h <;>
      refine hquiet (by simp only [AggSys.adopts, hpc]) (by simp only [AggSys.closes, hpc]) ?_
    · rfl
    · exact (drainMessage_stays _ e.sends _).2.1
  | take | unpark | exitCtrl | exitDrain | wait =>
    simp only [hpc] at h
    split at h <;> obtain rfl := Option.some.inj h <;>
      exact hquiet (by simp only [AggSys.adopts, hpc]) (by simp only [AggSys.closes, hpc]) rfl
  | mark | exitData | rclear | radd =>
    simp only [hpc] at h
    obtain rfl := Option.some.inj h
    exact hquiet (by simp only [AggSys.adopts, hpc]) (by simp only [AggSys.closes, hpc]) rfl
  | done => simp only [hpc] at h; cases h

/-- who becomes the sink waited for it in ctrlQueue -/
theorem adopts_ctrl (h : s.sys.adopts = some x) : x ∈ s.cell .ctrl := by
  have hfound : ∀ r, trypop s.sys.ctrlQueue = some r → r.1.sinkAdd = some x → x ∈ s.cell .ctrl := by
    rintro ⟨m, q⟩ hq hadd
    refine List.mem_filterMap.2 ⟨m, ?_, hadd⟩
    rw [(trypop_eq_some.1 hq).1]
    exact List.mem_cons_self
  unfold AggSys.adopts at h
  split at h
  · obtain ⟨r, hq, hadd⟩ := Option.bind_eq_some_iff.1 h
    exact hfound r hq hadd
  · obtain ⟨r, hq, hadd⟩ := Option.bind_eq_some_iff.1 h
    exact hfound r hq hadd
  · cases h

/-! ## What a step of the server does to who is where -/

/-- a connection comes into a place from another, or it was armed and is fetched -/
theorem srvStep_owned {a : Act} (h : srvStep conf s a = some t) (hx : Owned t.cell x) :
    Owned s.cell x ∨ (s.conn x).live = true := by
  obtain ⟨q, hq⟩ := hx
  cases a with
  | accept =>
    obtain rfl := Option.some.inj h
    exact .inl ⟨q, by cases q <;> exact hq⟩
  | deliver c =>
    simp only [srvStep] at h
    split_ifs at h
    obtain rfl := Option.some.inj h
    exact .inl ⟨q, by cases q <;> exact hq⟩
  | fetch c =>
    simp only [srvStep] at h
    split_ifs at h with hc
    obtain rfl := Option.some.inj h
    cases q with
    | fetched =>
      rcases List.mem_append.1 hq with hq | hq
      · exact .inl ⟨.fetched, hq⟩
      · obtain rfl := List.mem_singleton.1 hq
        exact .inr hc.1
    | queue => exact .inl ⟨.queue, hq⟩
    | worker w => exact .inl ⟨.worker w, hq⟩
    | park => exact .inl ⟨.park, hq⟩
    | hand => exact .inl ⟨.hand, hq⟩
    | ctrl => exact .inl ⟨.ctrl, hq⟩
    | sink => exact .inl ⟨.sink, hq⟩
  | enqueue c =>
    simp only [srvStep] at h
    split_ifs at h with hc
    obtain rfl := Option.some.inj h
    cases q with
    | fetched => exact .inl ⟨.fetched, List.mem_of_mem_erase hq⟩
    | queue =>
      rcases List.mem_append.1 hq with hq | hq
      · exact .inl ⟨.queue, hq⟩
      · obtain rfl := List.mem_singleton.1 hq
        exact .inl ⟨.fetched, hc⟩
    | worker w => exact .inl ⟨.worker w, hq⟩
    | park => exact .inl ⟨.park, hq⟩
    | hand => exact .inl ⟨.hand, hq⟩
    | ctrl => exact .inl ⟨.ctrl, hq⟩
    | sink => exact .inl ⟨.sink, hq⟩
  | worker w e => exact .inl ((workerStep_shift h).places ⟨q, hq⟩)
  | agg e =>
    obtain ⟨u, hu, rfl⟩ := Option.map_eq_some_iff.1 h
    rcases aggStep_places hu hq with hq | ⟨-, hq⟩ | ⟨-, hq⟩
    · exact .inl ⟨_, hq⟩
    · exact .inl ⟨_, hq⟩
    · exact .inl ⟨_, hq⟩

/-- who is closed was held by the thread that closes it -/
theorem Srv.closes_owned {a : Act} (h : s.closes a = some x) : Owned s.cell x := by
  cases a with
  | worker w e => exact ⟨.worker w, mem_worker.2 (by rw [Srv.closes_worker.1 h]; rfl)⟩
  | agg e =>
    refine ⟨.sink, ?_⟩
    show x ∈ s.sys.agg.sink.toList
    rw [AggSys.closes_sink h]
    exact List.mem_singleton_self x
  | _ => cases h

/-- behind it, nobody has it -/
theorem srvStep_lost {a : Act} (hg : Good s.calm) (h : srvStep conf s a = some t) (hc : s.closes a = some x) (q : Place) :
    x ∉ t.cell q := by
  have hexcl : Exclusive s.cell := calm_cell s ▸ hg.excl
  cases a with
  | worker w e =>
    have hw := Srv.closes_worker.1 hc
    have hstep : workerStep conf s w e = some t := h
    unfold workerStep at hstep
    rw [hw] at hstep
    obtain rfl := Option.some.inj hstep
    have hperm : (s.cell (.worker w)).Perm (x :: []) := by simp [Srv.cell, hw, WPc.holds]
    rw [cell_idle]
    exact hexcl.drop_free hperm q
  | agg e =>
    have hsink := AggSys.closes_sink hc
    have hat : x ∈ s.cell .sink := by simp [Srv.cell, hsink]
    obtain ⟨u, hu, rfl⟩ := Option.map_eq_some_iff.1 h
    intro hq
    rcases aggStep_places hu hq with hold | ⟨rfl, hctrl⟩ | ⟨rfl, hpark⟩
    · obtain rfl := hexcl.only _ _ x hold hat
      -- the sink is another one, or none
      have hstays : u.agg.sink = some x := by simpa [Srv.cell] using hq
      rw [aggStep_sink hu] at hstays
      cases hadopts : s.sys.adopts with
      | some c =>
        rw [hadopts] at hstays
        obtain rfl := Option.some.inj hstays
        cases hexcl.only _ _ c (adopts_ctrl hadopts) hat
      | none =>
        rw [hadopts, show s.sys.closes e = some x from hc] at hstays
        cases hstays
    · cases hexcl.only _ _ x hctrl hat
    · cases hexcl.only _ _ x hpark hat
  | _ => cases hc

end WsServer
