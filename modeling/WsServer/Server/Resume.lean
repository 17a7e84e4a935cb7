/-
What parking and resuming do to a source connection.

A parked connection comes back by `epoll_ctl(ADD)` of `resumeParked`, and nothing else: the aggregator does not look at
its rx, and ADD fails while the worker that parked it has not done its DEL.

- `no_conn_lost`: a connection that no thread handles is armed, queued or parked, in every run where each ADD comes
  behind the DEL; `add_before_del` is a run where it comes first, and the connection is in none of them.
- `no_frame_left`: an armed connection with no event to come holds no frame the loop of `handleWsOpen` would act on, a
  complete one or one it refuses by its header, in every run where the connection that comes back holds none or has an
  event coming; `frame_left_behind` is a run where a frame stays in rx.
-/
import Mathlib
import WsServer.Server.Owners

namespace WsServer

open Ws Places Machine

variable {conf : ServerConfig} {s t : Srv} {u : AggSys} {w d : ℕ} {a : Act}

/-! ## What a step does to a source connection -/

/-- the aggregator's steps change a connection that is not with it in `resumeParked` only -/
theorem Shift.leaves (h : Shift s.sys u) (hctrl : d ∉ s.cell .ctrl) (hsink : d ∉ s.cell .sink) (hpc : s.sys.pc ≠ .radd d) :
    u.conn d = s.conn d ∨ u.conn d = { s.conn d with pendingMsg := none } := by
  have hsink' : s.sys.agg.sink ≠ some d := fun h => hsink (by simp [Srv.cell, h])
  cases h with
  | look r p honly _ _ _ _ => exact .inl (honly.conn d hsink' id)
  | ctrl m q _ hq _ honly =>
    refine .inl (honly.conn d hsink' fun hadd => hctrl ?_)
    rw [Srv.cell, (trypop_eq_some.1 hq).1]
    exact List.mem_filterMap.2 ⟨m, List.mem_cons_self, sinkAdd_eq_some.2 hadd⟩
  | unpark | rpush | take => exact .inl rfl
  | rclear c _ =>
    by_cases hd : d = c
    · subst hd; exact .inr (Function.update_self _ _ _)
    · exact .inl (Function.update_of_ne hd _ _)
  | radd c hc =>
    have hd : d ≠ c := by rintro rfl; exact hpc hc
    exact .inl (Function.update_of_ne hd _ _)
  | final r _ honly _ =>
    have hsame : r.conn d = s.conn d := honly.conn d hsink' id
    simp only [aggFreeState]
    split_ifs
    · exact .inr (by rw [hsame])
    · exact .inl hsame

/-- a sink stays one -/
theorem Shift.role_sink (h : Shift s.sys u) (hd : (s.conn d).role = .ROLE_SINK) : (u.conn d).role = .ROLE_SINK := by
  have hside : ∀ {r : AggSys}, SinkSide (s.sys.conn d) (r.conn d) → (r.conn d).role = .ROLE_SINK :=
    fun hr => hr.role.elim (·.trans hd) id
  have hupdate : ∀ (c : ℕ) (v : Conn), v.role = (s.conn c).role →
      (Function.update s.sys.conn c v d).role = .ROLE_SINK := by
    intro c v hv
    by_cases hc : d = c
    · subst hc; rw [Function.update_self, hv, hd]
    · rw [Function.update_of_ne hc]; exact hd
  cases h with
  | look r p honly => exact hside (honly.side d)
  | ctrl m q _ _ _ honly => exact hside (honly.side d)
  | unpark | rpush | take => exact hd
  | rclear c _ => exact hupdate c _ rfl
  | radd c _ => exact hupdate c _ (by unfold epollAdd; split_ifs <;> rfl)
  | final r _ honly _ =>
    simp only [aggFreeState]
    split_ifs <;> exact hside (honly.side d)

/-- they change a connection that is no sink in `resumeParked` only -/
theorem Shift.untouched (hg : Good s) (h : Shift s.sys u) (hrole : (u.conn d).role ≠ .ROLE_SINK) (hpc : s.sys.pc ≠ .radd d) :
    u.conn d = s.conn d ∨ u.conn d = { s.conn d with pendingMsg := none } := by
  -- a connection with the aggregator is a sink, and stays one
  refine h.leaves (fun hc => ?_) (fun hc => ?_) hpc
  · exact hrole (h.role_sink ((hg.fine d).fits .ctrl hc).2)
  · exact hrole (h.role_sink ((hg.fine d).fits .sink hc).2)

/-- they let go of it in `epoll_ctl(ADD)` and at the end of the thread only -/
theorem Shift.owned (hg : Good s) (h : Shift s.sys u) (hrole : (u.conn d).role ≠ .ROLE_SINK) (hpc : s.sys.pc ≠ .radd d)
    (hfinal : s.sys.pc = .final → s.sys.park = []) (hd : Owned s.cell d) : Owned ({ s with sys := u } : Srv).cell d := by
  have hs : (s.conn d).role ≠ .ROLE_SINK := by
    rcases h.untouched hg hrole hpc with h1 | h1 <;> rw [h1] at hrole <;> exact hrole
  obtain ⟨p, hp⟩ := hd
  cases p with
  | ctrl => exact absurd ((hg.fine d).fits .ctrl hp).2 hs
  | sink => exact absurd ((hg.fine d).fits .sink hp).2 hs
  | fetched => exact ⟨.fetched, hp⟩
  | queue => exact ⟨.queue, hp⟩
  | worker w => exact ⟨.worker w, hp⟩
  | park =>
    have hp' : d ∈ s.sys.park := hp
    cases h with
    | look r p honly => exact ⟨.park, show d ∈ r.park by rw [honly.park]; exact hp⟩
    | ctrl m q _ _ _ honly => exact ⟨.park, show d ∈ u.park by rw [honly.park]; exact hp⟩
    | unpark c park _ hpark =>
      rw [hpark, List.mem_cons] at hp'
      rcases hp' with rfl | hp'
      · exact ⟨.hand, List.mem_singleton_self _⟩
      · exact ⟨.park, hp'⟩
    | rpush | rclear | radd | take => exact ⟨.park, hp⟩
    | final r hc => rw [hfinal hc] at hp'; cases hp'
  | hand =>
    have hp' : s.sys.pc.hand = some d := by simpa [Srv.cell] using hp
    cases h with
    | look r p _ hhand => rw [hhand] at hp'; cases hp'
    | ctrl m q _ _ hc => rw [hc] at hp'; cases hp'
    | unpark c park hc => rw [hc] at hp'; cases hp'
    | rpush c m hc =>
      rw [hc] at hp'
      exact ⟨.hand, by simpa [Srv.cell, AggPc.hand] using (Option.some.inj hp').symm⟩
    | rclear c hc =>
      rw [hc] at hp'
      exact ⟨.hand, by simpa [Srv.cell, AggPc.hand] using (Option.some.inj hp').symm⟩
    | radd c hc =>
      rw [hc] at hp'
      obtain rfl := Option.some.inj hp'
      exact absurd hc hpc
    | take m q hc => rw [hc] at hp'; cases hp'
    | final r hc => rw [hc] at hp'; cases hp'

/-! ## No connection is lost -/

/-- a connection that is no sink is armed, or someone has it -/
def Placed (s : Srv) : Prop :=
  ∀ c, (s.conn c).live = true → (s.conn c).role ≠ .ROLE_SINK → (∃ out, (s.conn c).reg = .armed out) ∨ Owned s.cell c

/-- the aggregator arms a parked connection behind the DEL of the worker that parked it, and does not end with
connections parked -/
def ResumeOk (s : Srv) : Act → Prop
  | .agg _ => match s.sys.pc with
    | .radd c => (s.conn c).reg = .absent
    | .final => s.sys.park = []
    | _ => True
  | _ => True

instance (s : Srv) (a : Act) : Decidable (ResumeOk s a) := by
  unfold ResumeOk; split
  · split <;> infer_instance
  · infer_instance

theorem applyDisposition_armed {c : Conn} {disp : Disposition} (hd : disp.decides) (hreg : c.reg ≠ .absent)
    (hlive : (applyDisposition c disp).live = true) : ∃ out, (applyDisposition c disp).reg = .armed out := by
  cases disp with
  | DISP_CLOSE => cases hlive
  | DISP_PARKED => exact absurd rfl hd.1
  | DISP_HANDOFF => exact absurd rfl hd.2
  | DISP_REARM_IN => exact ⟨false, by simp [applyDisposition, rearmEpoll, hreg]⟩
  | DISP_REARM_OUT => exact ⟨true, by simp [applyDisposition, rearmEpoll, hreg]⟩
  | DISP_REARM_INOUT => exact ⟨true, by simp [applyDisposition, rearmEpoll, hreg]⟩

theorem WShift.placed (hg : Good s) (hp : Placed s) (h : WShift conf s w t) : Placed t := by
  intro c hlive hrole
  by_cases happly : ∃ disp, s.workers w = .apply c disp
  · obtain ⟨disp, hw⟩ := happly
    obtain ⟨hreg, hl⟩ := hg.worker (c := c) (w := w) (by rw [hw]; rfl)
    rw [hw] at hreg hl
    cases h with
    | apply c' disp' hw' =>
      obtain ⟨rfl, rfl⟩ := WPc.apply.inj (hw.symm.trans hw')
      rw [goto_setConn] at hlive ⊢
      exact .inl (applyDisposition_armed hl (by rw [hreg]; nofun) hlive)
    | think c' v p hw' hp' htouch =>
      -- a worker at `apply` has nothing left to think about
      rw [hw] at hw'
      obtain rfl := Option.some.inj hw'
      exact .inr ⟨.worker w, mem_worker.2 (by simpa [Srv.goto] using (WPc.works_spec hp').1)⟩
    | take _ _ hw' | complete _ _ _ _ hw' | decide _ _ _ _ hw' | push _ _ _ hw' | parkStore _ _ hw' | parkPush _ hw'
    | parkDel _ hw' | handoffDel _ hw' | handoffPush _ hw' => rw [hw] at hw'; cases hw'
  push Not at happly
  by_cases howned : Owned s.cell c
  · exact .inr (h.owned howned happly)
  by_cases hdel : s.workers w = .parkDel c
  · -- its registration is spent, so someone has it
    obtain ⟨hreg, -⟩ := (hg.fine c).del w hdel
    cases h with
    | parkDel c' hw' =>
      obtain rfl := WPc.parkDel.inj (hdel.symm.trans hw')
      rw [goto_setConn] at hlive hrole
      rcases hp c hlive hrole with ⟨out, h1⟩ | h1
      · rw [hreg] at h1; cases h1
      · exact absurd h1 howned
    | think c' v p hw' => rw [hdel] at hw'; cases hw'
    | take _ _ hw' | complete _ _ _ _ hw' | decide _ _ _ _ hw' | push _ _ _ hw' | parkStore _ _ hw' | parkPush _ hw'
    | handoffDel _ hw' | handoffPush _ hw' | apply _ _ hw' => rw [hdel] at hw'; cases hw'
  · have hsame : t.conn c = s.conn c := by
      refine h.untouched ?_
      rintro (h1 | h1)
      · exact howned ⟨.worker w, mem_worker.2 h1⟩
      · exact hdel h1
    rw [hsame] at hlive hrole ⊢
    rcases hp c hlive hrole with h1 | h1
    · exact .inl h1
    · exact absurd h1 howned

theorem epollAdd_armed {c : Conn} (h : c.reg = .absent) : (epollAdd c).reg = .armed (0 < bufLen c.tx) := by
  unfold epollAdd; rw [if_pos h]

theorem Shift.placed {e : AggEnv} (hg : Good s) (hp : Placed s) (hok : ResumeOk s (.agg e)) (h : Shift s.sys u) :
    Placed { s with sys := u } := by
  intro c hlive hrole
  by_cases hpc : s.sys.pc = .radd c
  · cases h with
    | radd c' hc =>
      obtain rfl := AggPc.radd.inj (hpc.symm.trans hc)
      refine .inl ⟨_, (congrArg Conn.reg (Function.update_self _ _ _)).trans (epollAdd_armed ?_)⟩
      have hreg : (s.conn c).reg = .absent := by simpa only [ResumeOk, hpc] using hok
      exact hreg
    | look _ _ _ hhand => rw [hpc] at hhand; cases hhand
    | ctrl _ _ _ _ hc | unpark _ _ hc | rpush _ _ hc | rclear _ hc | take _ _ hc | final _ hc => rw [hpc] at hc; cases hc
  · have hsame := h.untouched hg hrole hpc
    rcases hp c (by rcases hsame with h1 | h1 <;> simpa [Srv.conn, h1] using hlive)
      (by rcases hsame with h1 | h1 <;> simpa [Srv.conn, h1] using hrole) with ⟨out, h1⟩ | h1
    · refine .inl ⟨out, ?_⟩
      rcases hsame with h2 | h2 <;> simpa [Srv.conn, h2] using h1
    · exact .inr (h.owned hg hrole hpc (fun hf => by simpa only [ResumeOk, hf] using hok) h1)

theorem srvStep_placed (hg : Good s) (hp : Placed s) (hok : ResumeOk s a) (h : srvStep conf s a = some t) : Placed t := by
  cases a with
  | accept =>
    obtain rfl := Option.some.inj h
    intro c hlive hrole
    by_cases hc : c = s.nextId
    · subst hc
      exact .inl ⟨false, congrArg Conn.reg (setConn_conn_self s s.nextId (connNew s.nextId))⟩
    · have hsame : (s.setConn s.nextId (connNew s.nextId)).conn c = s.conn c := setConn_conn_of_ne _ hc
      rcases hp c (hsame ▸ hlive) (hsame ▸ hrole) with ⟨out, h1⟩ | ⟨p, h1⟩
      · exact .inl ⟨out, hsame ▸ h1⟩
      · refine .inr ⟨p, ?_⟩
        cases p <;> exact h1
  | deliver c bytes fin =>
    simp only [srvStep] at h
    split_ifs at h
    obtain rfl := Option.some.inj h
    intro d hlive hrole
    have hsame : ∃ k, (s.setConn c { s.conn c with sock := ⟨(s.conn c).sock.inq ++ bytes, fin⟩ }).conn d =
        { s.conn d with sock := k } := by
      by_cases hd : d = c
      · subst hd; exact ⟨_, setConn_conn_self _ _ _⟩
      · exact ⟨(s.conn d).sock, setConn_conn_of_ne _ hd⟩
    obtain ⟨k, hk⟩ := hsame
    rw [hk] at hlive hrole ⊢
    rcases hp d hlive hrole with h1 | ⟨p, h1⟩
    · exact .inl h1
    · refine .inr ⟨p, ?_⟩
      cases p <;> exact h1
  | fetch c =>
    simp only [srvStep] at h
    split_ifs at h
    obtain rfl := Option.some.inj h
    intro d hlive hrole
    by_cases hd : d = c
    · subst hd; exact .inr ⟨.fetched, List.mem_append_right _ (List.mem_singleton_self _)⟩
    · have hsame : (s.setConn c { s.conn c with reg := .disabled }).conn d = s.conn d := setConn_conn_of_ne _ hd
      rcases hp d (hsame ▸ hlive) (hsame ▸ hrole) with ⟨out, h1⟩ | ⟨p, h1⟩
      · exact .inl ⟨out, hsame ▸ h1⟩
      · refine .inr ⟨p, ?_⟩
        cases p with
        | fetched => exact List.mem_append_left _ h1
        | _ => exact h1
  | enqueue c =>
    simp only [srvStep] at h
    split_ifs at h with hc
    obtain rfl := Option.some.inj h
    intro d hlive hrole
    rcases hp d hlive hrole with h1 | ⟨p, h1⟩
    · exact .inl h1
    right
    cases p with
    | fetched =>
      by_cases hd : d = c
      · subst hd; exact ⟨.queue, List.mem_append_right _ (List.mem_singleton_self _)⟩
      · exact ⟨.fetched, (List.mem_erase_of_ne hd).2 h1⟩
    | queue => exact ⟨.queue, List.mem_append_left _ h1⟩
    | worker w => exact ⟨.worker w, h1⟩
    | park => exact ⟨.park, h1⟩
    | hand => exact ⟨.hand, h1⟩
    | ctrl => exact ⟨.ctrl, h1⟩
    | sink => exact ⟨.sink, h1⟩
  | worker w e => exact (workerStep_shift h).placed hg hp
  | agg e =>
    simp only [srvStep, Option.map_eq_some_iff] at h
    obtain ⟨u, hu, rfl⟩ := h
    exact (aggStep_shift hg.dataQueue hg.draining hu).placed hg hp hok

/-- a thread works on the connection -/
def Srv.handled (s : Srv) (c : ℕ) : Prop := c ∈ s.fetched ∨ (∃ w, (s.workers w).about c) ∨ s.sys.pc.hand = some c

def Reg.arms : Reg → ℕ
  | .armed _ => 1
  | _ => 0

/-- exactly one of: armed, in the worker queue, in the park list -/
def InOnePlace (s : Srv) (c : ℕ) : Prop := (s.conn c).reg.arms + s.queue.items.count c + s.sys.park.count c = 1

/-- who is placed, and handled by no thread, is in one place -/
theorem Placed.inOnePlace (hg : Good s) (hp : Placed s) {c : ℕ} (hlive : (s.conn c).live = true)
    (hrole : (s.conn c).role = .ROLE_SOURCE) (hfree : ¬ s.handled c) : InOnePlace s c := by
  have hrole' : (s.conn c).role ≠ .ROLE_SINK := by rw [hrole]; nofun
  unfold InOnePlace
  rcases hp c hlive hrole' with ⟨out, hreg⟩ | ⟨p, hc⟩
  · have hfree := hg.armed_free hreg
    rw [hreg, List.count_eq_zero.2 (show c ∉ s.queue.items from hfree .queue),
      List.count_eq_zero.2 (show c ∉ s.sys.park from hfree .park)]
    rfl
  · have harms : (s.conn c).reg.arms = 0 := by
      cases hreg : (s.conn c).reg with
      | armed out => exact absurd hreg (((hg.fine c).fits p hc).unarmed out)
      | _ => rfl
    cases p with
    | queue =>
      have hone : s.queue.items.count c = 1 := List.count_eq_one_of_mem (hg.excl.nodup .queue) hc
      rw [harms, hone,
        List.count_eq_zero.2 (show c ∉ s.sys.park from fun h => nomatch hg.excl.only .park .queue c h hc)]
    | park =>
      have hone : s.sys.park.count c = 1 := List.count_eq_one_of_mem (hg.excl.nodup .park) hc
      rw [harms, hone,
        List.count_eq_zero.2 (show c ∉ s.queue.items from fun h => nomatch hg.excl.only .queue .park c h hc)]
    | fetched => exact absurd (.inl hc) hfree
    | worker w => exact absurd (.inr (.inl ⟨w, .inl (mem_worker.1 hc)⟩)) hfree
    | hand => exact absurd (.inr (.inr (by simpa [Srv.cell] using hc))) hfree
    | ctrl => exact absurd ((hg.fine c).fits .ctrl hc).2 hrole'
    | sink => exact absurd ((hg.fine c).fits .sink hc).2 hrole'

/-- **No connection is lost.** While the aggregator arms parked connections behind the DEL of the workers, an open source
that no thread handles is armed, queued or parked. -/
theorem no_conn_lost (conf : ServerConfig) (s : Srv) (h : Reach (srvStep conf) ResumeOk .start s) :
    ∀ c, (s.conn c).live = true → (s.conn c).state = .ST_WS_OPEN → (s.conn c).role = .ROLE_SOURCE → ¬ s.handled c →
      InOnePlace s c := by
  intro c hlive _ hrole hfree
  have hg : ∀ s, Reach (srvStep conf) ResumeOk .start s → Good s := fun s hs => reachable_good (hs.mono fun _ _ _ => trivial)
  have hstart : Placed .start := fun c hc => by cases hc
  have hp : Placed s := h.invariant_of hg hstart fun s a t hg hp hok hstep => srvStep_placed hg hp hok hstep
  exact hp.inOnePlace (hg s h) hlive hrole hfree

/-! ### A run that loses a connection -/

/-- only the worker that is scheduled moves -/
theorem srvStep_workers (h : srvStep conf s a = some t) (ha : ∀ e, a ≠ .worker w e) : t.workers w = s.workers w := by
  cases a with
  | accept => obtain rfl := Option.some.inj h; rfl
  | deliver => simp only [srvStep] at h; split_ifs at h; obtain rfl := Option.some.inj h; rfl
  | fetch => simp only [srvStep] at h; split_ifs at h; obtain rfl := Option.some.inj h; rfl
  | enqueue => simp only [srvStep] at h; split_ifs at h; obtain rfl := Option.some.inj h; rfl
  | agg e =>
    simp only [srvStep, Option.map_eq_some_iff] at h
    obtain ⟨u, -, rfl⟩ := h
    rfl
  | worker w' e =>
    have hne : w ≠ w' := by rintro rfl; exact ha e rfl
    have hother : ∀ (u : Srv) (p : WPc), u.workers w = s.workers w → (u.goto w' p).workers w = s.workers w := by
      intro u p hu
      rw [← hu]
      exact Function.update_of_ne hne _ _
    cases workerStep_shift h <;> exact hother _ _ rfl

theorem exec_workers {ls : List Act} (h : exec (srvStep conf) s ls = some t) (hl : ∀ e, Act.worker w e ∉ ls) :
    t.workers w = s.workers w := by
  induction ls generalizing s with
  | nil => obtain rfl := Option.some.inj h; rfl
  | cons a ls ih =>
    simp only [exec, Option.bind_eq_some_iff] at h
    obtain ⟨u, hu, hrest⟩ := h
    rw [ih hrest fun e he => hl e (List.mem_cons_of_mem _ he)]
    exact srvStep_workers hu fun e he => hl e (he ▸ List.mem_cons_self)

theorem parkRun_workers (more : Bytes) : ∀ w ≠ 0, ∀ e, Act.worker w e ∉ parkRun more := by
  rintro w hw e
  simp [parkRun, hw]

/-- where the run stands: one source, open, and no thread at it -/
def atRest (s : Srv) : Bool :=
  (s.conn 2).live ∧ (s.conn 2).state = .ST_WS_OPEN ∧ (s.conn 2).role = .ROLE_SOURCE ∧ s.fetched = [] ∧ s.workers 0 = .idle ∧
    s.sys.pc = .take

theorem exec_atRest {ls : List Act} (hl : ∀ w ≠ 0, ∀ e, Act.worker w e ∉ ls)
    (h : exec (srvStep conf) .start ls = some s) (hrest : atRest s = true) : ¬ s.handled 2 := by
  simp only [atRest, decide_eq_true_eq] at hrest
  obtain ⟨-, -, -, hfetched, hidle, hpc⟩ := hrest
  rintro (h1 | ⟨w, h1⟩ | h1)
  · rw [hfetched] at h1; cases h1
  · have hw : s.workers w = .idle := by
      by_cases hw : w = 0
      · rw [hw]; exact hidle
      · exact exec_workers h (hl w hw)
    rw [hw] at h1
    rcases h1 with h1 | h1 <;> cases h1
  · rw [hpc] at h1; cases h1

/-- the aggregator resumes the source before the worker has done its DEL: ADD fails, and then DEL takes it out -/
def lostRun : List Act := parkRun [] ++ List.replicate 9 (Act.agg calmAgg) ++ [Act.worker 0 calmWork]

set_option maxRecDepth 100000 in
theorem lostRun_lost : (exec (srvStep tinyConf) .start lostRun).map (fun s =>
    atRest s && decide ((s.conn 2).reg.arms + s.queue.items.count 2 + s.sys.park.count 2 = 0)) = some true := by
  decide +kernel

/-- an open source is in none of the three, and no thread has it -/
theorem add_before_del : ∃ s, Reachable (srvStep tinyConf) .start s ∧ ∃ c, (s.conn c).live = true ∧
    (s.conn c).state = .ST_WS_OPEN ∧ (s.conn c).role = .ROLE_SOURCE ∧ ¬ s.handled c ∧ ¬ InOnePlace s c := by
  obtain ⟨s, hs, hp⟩ := Option.map_eq_some_iff.1 lostRun_lost
  rw [Bool.and_eq_true] at hp
  have hrest := hp.1
  have hnone := of_decide_eq_true hp.2
  have hfree : ¬ s.handled 2 := by
    refine exec_atRest (fun w hw e => ?_) hs hrest
    simp [lostRun, hw, parkRun_workers [] w hw e]
  simp only [atRest, decide_eq_true_eq] at hrest
  obtain ⟨hlive, hstate, hrole, -⟩ := hrest
  refine ⟨s, .of_exec (allOk_true _ _) hs, 2, hlive, hstate, hrole, hfree, fun h => ?_⟩
  unfold InOnePlace at h
  omega

/-- the same run with the DEL in time -/
def resumedRun (more : Bytes) : List Act := parkRun more ++ [Act.worker 0 calmWork] ++ List.replicate 9 (Act.agg calmAgg)

set_option maxRecDepth 100000 in
theorem resumedRun_rests : (exec (guarded (srvStep tinyConf) ResumeOk) .start (resumedRun [])).map atRest = some true := by
  decide +kernel

theorem no_conn_lost_resumed : ∃ s, Reach (srvStep tinyConf) ResumeOk .start s ∧ atRest s = true ∧ InOnePlace s 2 := by
  obtain ⟨s, hs, hrest⟩ := Option.map_eq_some_iff.1 resumedRun_rests
  have hfree : ¬ s.handled 2 := by
    refine exec_atRest (fun w hw e => ?_) (exec_of_guarded hs).1 hrest
    simp [resumedRun, hw, parkRun_workers [] w hw e]
  have hreach : Reach (srvStep tinyConf) ResumeOk .start s := .of_guarded .start hs
  refine ⟨s, hreach, hrest, ?_⟩
  simp only [atRest, decide_eq_true_eq] at hrest
  obtain ⟨hlive, hstate, hrole, -⟩ := hrest
  exact no_conn_lost tinyConf s hreach 2 hlive hstate hrole hfree

/-! ## No frame is left in rx -/

/-- an event will come: bytes to read, the end of the stream, or something to write -/
def Coming (c : Conn) : Prop := c.sock.inq ≠ [] ∨ c.sock.fin ≠ .open ∨ bufLen c.tx ≠ 0

instance (c : Conn) : Decidable (Coming c) := by unfold Coming; infer_instance

instance (conf : ServerConfig) (c : Conn) : Decidable (HoldsFrame conf c) := by unfold HoldsFrame; infer_instance

/-- an armed open source has an event coming when it holds a frame -/
def Awake (conf : ServerConfig) (s : Srv) : Prop :=
  ∀ c out, (s.conn c).reg = .armed out → (s.conn c).state = .ST_WS_OPEN → (s.conn c).role ≠ .ROLE_SINK →
    HoldsFrame conf (s.conn c) → Coming (s.conn c)

/-- a connection that comes back from the park list holds no frame, or has an event coming -/
def RefillOk (conf : ServerConfig) (s : Srv) : Act → Prop
  | .agg _ => match s.sys.pc with
    | .radd c => (s.conn c).reg = .absent → HoldsFrame conf (s.conn c) → Coming (s.conn c)
    | _ => True
  | _ => True

instance (conf : ServerConfig) (s : Srv) (a : Act) : Decidable (RefillOk conf s a) := by
  unfold RefillOk; split
  · split <;> infer_instance
  · infer_instance

/-- behind its loop no worker has left a frame in rx -/
def LoopsDone (conf : ServerConfig) (s : Srv) : Prop :=
  ∀ w c, (s.workers w).holds = some c → LoopDone conf (s.workers w) (s.conn c)

theorem LoopDone.congr {p : WPc} {a b : Conn} (h : LoopDone conf p a) (hstate : b.state = a.state)
    (hclose : b.closeAfterSend = a.closeAfterSend) (hrx : b.rx = a.rx) : LoopDone conf p b := by
  cases p with
  | flush c eof => exact fun hf => h (hf.congr hclose.symm hrx.symm)
  | apply c disp => exact fun hd hs hf => h hd (hstate.symm.trans hs) (hf.congr hclose.symm hrx.symm)
  | _ => trivial

/-- who is with one worker is with no other -/
theorem Good.not_about {w' : ℕ} {c : ℕ} (hg : Good s) (hw : (s.workers w').holds = some c) (hne : w' ≠ w) :
    ¬ (s.workers w).about c := by
  have hmem := mem_worker.2 hw
  rintro (h | h)
  · exact hne (Place.worker.inj (hg.excl.only (.worker w') (.worker w) c hmem (mem_worker.2 h)))
  · rcases ((hg.fine c).del w h).2 _ hmem with h1 | h1 <;> cases h1

theorem WShift.loopsDone (hg : Good s) (hl : LoopsDone conf s) (h : WShift conf s w t) : LoopsDone conf t := by
  intro w' c hc
  by_cases hne : w' = w
  · subst hne
    have hmoved : ∀ (r : Srv) (p : WPc), (r.goto w' p).workers w' = p := fun _ _ => Function.update_self _ _ _
    cases h with
    | think c' v p hw hp _ hserved =>
      obtain ⟨hw1, -⟩ := WPc.works_spec hw
      rw [hmoved] at hc ⊢
      obtain rfl := Option.some.inj (((WPc.works_spec hp).1).symm.trans hc)
      rw [goto_setConn]
      exact (hserved (hg.worker hw1).2).2 (hl w' c' hw1)
    | decide c' eof m p _ hp =>
      rw [hmoved]
      rcases hp with rfl | rfl <;> trivial
    | _ => rw [hmoved]; trivial
  · have hsame : t.workers w' = s.workers w' := by
      cases h <;> exact Function.update_of_ne hne _ _
    rw [hsame] at hc ⊢
    rw [h.untouched (hg.not_about hc hne)]
    exact hl w' c hc

/-- the other threads change no connection that a worker has, but for the message stored with it -/
theorem srvStep_loopsDone (hg : Good s) (hl : LoopsDone conf s) (h : srvStep conf s a = some t) : LoopsDone conf t := by
  by_cases hwork : ∃ w e, a = .worker w e
  · obtain ⟨w, e, rfl⟩ := hwork
    exact (workerStep_shift h).loopsDone hg hl
  push Not at hwork
  intro w c hc
  have hworkers : t.workers w = s.workers w := srvStep_workers h (hwork w)
  rw [hworkers] at hc ⊢
  have hmem := mem_worker.2 hc
  have hsame : ∃ v, t.conn c = v ∧ v.state = (s.conn c).state ∧ v.closeAfterSend = (s.conn c).closeAfterSend ∧
      v.rx = (s.conn c).rx := by
    cases a with
    | worker w' e => exact absurd rfl (hwork w' e)
    | accept =>
      obtain rfl := Option.some.inj h
      have hold : c ≠ s.nextId := (hg.known hmem).ne
      exact ⟨_, setConn_conn_of_ne _ hold, rfl, rfl, rfl⟩
    | deliver d bytes fin =>
      simp only [srvStep] at h
      split_ifs at h
      obtain rfl := Option.some.inj h
      by_cases hd : c = d
      · subst hd; exact ⟨_, setConn_conn_self _ _ _, rfl, rfl, rfl⟩
      · exact ⟨_, setConn_conn_of_ne _ hd, rfl, rfl, rfl⟩
    | fetch d =>
      simp only [srvStep] at h
      split_ifs at h
      obtain rfl := Option.some.inj h
      by_cases hd : c = d
      · subst hd; exact ⟨_, setConn_conn_self _ _ _, rfl, rfl, rfl⟩
      · exact ⟨_, setConn_conn_of_ne _ hd, rfl, rfl, rfl⟩
    | enqueue d =>
      simp only [srvStep] at h
      split_ifs at h
      obtain rfl := Option.some.inj h
      exact ⟨_, rfl, rfl, rfl, rfl⟩
    | agg e =>
      obtain ⟨u, hu, rfl⟩ := Option.map_eq_some_iff.1 h
      have hfree : ∀ q, q ≠ .worker w → c ∉ s.cell q := fun q hq hin => hq (hg.excl.only q (.worker w) c hin hmem)
      have hpc : s.sys.pc ≠ .radd c := fun hpc => hfree .hand (by simp) (by simp [Srv.cell, hpc, AggPc.hand])
      rcases (aggStep_shift hg.dataQueue hg.draining hu).leaves (hfree .ctrl (by simp)) (hfree .sink (by simp)) hpc with h1 | h1
      · exact ⟨_, h1, rfl, rfl, rfl⟩
      · exact ⟨_, h1, rfl, rfl, rfl⟩
  obtain ⟨v, hv, hstate, hclose, hrx⟩ := hsame
  rw [hv]
  exact (hl w c hc).congr hstate hclose hrx

theorem WShift.awake (hl : LoopsDone conf s) (hw : Awake conf s) (h : WShift conf s w t) (ht : Good t) :
    Awake conf t := by
  intro c out hreg hstate hrole hframe
  have hfree := ht.armed_free hreg
  by_cases happly : ∃ disp, s.workers w = .apply c disp
  · obtain ⟨disp, hpc⟩ := happly
    have hdone := hl w c (by rw [hpc]; rfl)
    rw [hpc] at hdone
    cases h with
    | apply c' disp' hw' =>
      obtain ⟨rfl, rfl⟩ := WPc.apply.inj (hpc.symm.trans hw')
      rw [goto_setConn] at hreg hstate hframe
      have hclose : disp ≠ .DISP_CLOSE := by rintro rfl; cases hreg
      have hsame := applyDisposition_same conf (s.conn c) disp
      exact absurd (hsame.2.1 hframe) (hdone hclose (hsame.1.symm.trans hstate))
    | think c' v p hw' hp' =>
      rw [hpc] at hw'
      obtain rfl := Option.some.inj hw'
      exact absurd (mem_worker.2 (by simpa [Srv.goto] using (WPc.works_spec hp').1)) (hfree (.worker w))
    | take _ _ hw' | complete _ _ _ _ hw' | decide _ _ _ _ hw' | push _ _ _ hw' | parkStore _ _ hw' | parkPush _ hw'
    | parkDel _ hw' | handoffDel _ hw' | handoffPush _ hw' => rw [hpc] at hw'; cases hw'
  push Not at happly
  have hsame : t.conn c = s.conn c := by
    refine h.untouched ?_
    rintro (h1 | h1)
    · obtain ⟨p, hp⟩ := h.owned ⟨.worker w, mem_worker.2 h1⟩ happly
      exact hfree p hp
    · have hdel : (t.conn c).reg = .absent := by
        cases h with
        | parkDel c' hw' =>
          obtain rfl := WPc.parkDel.inj (h1.symm.trans hw')
          rw [goto_setConn]
        | think c' v p hw' => rw [h1] at hw'; cases hw'
        | take _ _ hw' | complete _ _ _ _ hw' | decide _ _ _ _ hw' | push _ _ _ hw' | parkStore _ _ hw' | parkPush _ hw'
        | handoffDel _ hw' | handoffPush _ hw' | apply _ _ hw' => rw [h1] at hw'; cases hw'
      rw [hreg] at hdel
      cases hdel
  rw [hsame] at hreg hstate hrole hframe ⊢
  exact hw c out hreg hstate hrole hframe

theorem Shift.awake {e : AggEnv} (hg : Good s) (hw : Awake conf s) (hok : RefillOk conf s (.agg e)) (h : Shift s.sys u) :
    Awake conf { s with sys := u } := by
  intro c out hreg hstate hrole hframe
  by_cases hpc : s.sys.pc = .radd c
  · cases h with
    | radd c' hc =>
      obtain rfl := AggPc.radd.inj (hpc.symm.trans hc)
      have hconn : ({ s with sys := { s.sys with
          conn := Function.update s.sys.conn c (epollAdd (s.sys.conn c)), pc := .take } } : Srv).conn c =
          epollAdd (s.conn c) := Function.update_self _ _ _
      rw [hconn] at hreg hframe ⊢
      have hok' : (s.conn c).reg = .absent → HoldsFrame conf (s.conn c) → Coming (s.conn c) := by
        simpa only [RefillOk, hpc] using hok
      -- its registration is spent or gone, and ADD succeeds on the second only
      have habs : (s.conn c).reg = .absent := by
        by_contra hne
        unfold epollAdd at hreg
        rw [if_neg hne] at hreg
        exact ((hg.fine c).fits .hand (by simp [Srv.cell, hpc, AggPc.hand])).unarmed out hreg
      have heq : epollAdd (s.conn c) = { s.conn c with reg := .armed (0 < bufLen (s.conn c).tx) } := by
        unfold epollAdd; rw [if_pos habs]
      rw [heq] at hframe ⊢
      exact hok' habs (hframe.congr rfl rfl)
    | look _ _ _ hhand => rw [hpc] at hhand; cases hhand
    | ctrl _ _ _ _ hc | unpark _ _ hc | rpush _ _ hc | rclear _ hc | take _ _ hc | final _ hc => rw [hpc] at hc; cases hc
  · have hkeep : ({ s with sys := u } : Srv).conn c = u.conn c := rfl
    rw [hkeep] at hreg hstate hrole hframe ⊢
    rcases h.untouched hg hrole hpc with h1 | h1
    · rw [h1] at hreg hstate hrole hframe ⊢
      exact hw c out hreg hstate hrole hframe
    · rw [h1] at hreg hstate hrole hframe ⊢
      exact hw c out hreg hstate hrole (hframe.congr rfl rfl)

theorem srvStep_awake (hg : Good s) (hl : LoopsDone conf s) (hw : Awake conf s) (hok : RefillOk conf s a)
    (h : srvStep conf s a = some t) : Awake conf t := by
  have ht := srvStep_good hg h
  cases a with
  | accept =>
    obtain rfl := Option.some.inj h
    intro c out hreg hstate hrole hframe
    by_cases hc : c = s.nextId
    · subst hc
      have hnew : (s.setConn s.nextId (connNew s.nextId)).conn s.nextId = connNew s.nextId := setConn_conn_self _ _ _
      have hstate' := (congrArg Conn.state hnew).symm.trans hstate
      cases hstate'
    · have hsame : (s.setConn s.nextId (connNew s.nextId)).conn c = s.conn c := setConn_conn_of_ne _ hc
      exact hsame ▸ hw c out (hsame ▸ hreg) (hsame ▸ hstate) (hsame ▸ hrole) (hsame ▸ hframe)
  | deliver c bytes fin =>
    simp only [srvStep] at h
    split_ifs at h with hc
    obtain rfl := Option.some.inj h
    intro d out hreg hstate hrole hframe
    by_cases hd : d = c
    · subst hd
      rw [setConn_conn_self] at hreg hstate hrole hframe ⊢
      rcases hw d out hreg hstate hrole (hframe.congr rfl rfl) with h1 | h1 | h1
      · exact .inl (by simp [h1])
      · exact absurd hc.2 h1
      · exact .inr (.inr h1)
    · rw [setConn_conn_of_ne _ hd] at hreg hstate hrole hframe ⊢
      exact hw d out hreg hstate hrole hframe
  | fetch c =>
    simp only [srvStep] at h
    split_ifs at h
    obtain rfl := Option.some.inj h
    intro d out hreg hstate hrole hframe
    have hd : d ≠ c := by
      rintro rfl
      exact ht.armed_free hreg .fetched (List.mem_append_right _ (List.mem_singleton_self _))
    have hsame : (s.setConn c { s.conn c with reg := .disabled }).conn d = s.conn d := setConn_conn_of_ne _ hd
    exact hsame ▸ hw d out (hsame ▸ hreg) (hsame ▸ hstate) (hsame ▸ hrole) (hsame ▸ hframe)
  | enqueue c =>
    simp only [srvStep] at h
    split_ifs at h
    obtain rfl := Option.some.inj h
    exact hw
  | worker w e => exact (workerStep_shift h).awake hl hw ht
  | agg e =>
    simp only [srvStep, Option.map_eq_some_iff] at h
    obtain ⟨u, hu, rfl⟩ := h
    exact (aggStep_shift hg.dataQueue hg.draining hu).awake hg hw hok

/-- **No frame is left behind.** While every connection that comes back from the park list holds no frame the loop of
`handleWsOpen` would act on, or has an event coming, an armed open source with no event to come holds none. -/
theorem no_frame_left (conf : ServerConfig) (s : Srv) (h : Reach (srvStep conf) (RefillOk conf) .start s) :
    ∀ c, (s.conn c).live = true → (s.conn c).state = .ST_WS_OPEN → (s.conn c).role = .ROLE_SOURCE →
      (∃ out, (s.conn c).reg = .armed out) → (s.conn c).sock.inq = [] → (s.conn c).sock.fin = .open →
      bufLen (s.conn c).tx = 0 → c ∉ s.queue.items → (∀ w, ¬ (s.workers w).about c) → c ∉ s.sys.park →
      ¬ HoldsFrame conf (s.conn c) := by
  intro c _ hstate hrole harmed hinq hfin htx _ _ _ hframe
  obtain ⟨out, hreg⟩ := harmed
  have hg : ∀ s, Reach (srvStep conf) (RefillOk conf) .start s → Good s := fun s hs => reachable_good (hs.mono fun _ _ _ => trivial)
  have hdone : ∀ s, Reach (srvStep conf) (RefillOk conf) .start s → Good s ∧ LoopsDone conf s := fun s hs =>
    ⟨hg s hs, hs.invariant_of hg (fun w c hc => by cases hc) fun s a t hg hl _ hstep => srvStep_loopsDone hg hl hstep⟩
  have hw : Awake conf s := h.invariant_of hdone (fun c out hc => by cases hc) fun s a t hd hw hok hstep =>
    srvStep_awake hd.1 hd.2 hw hok hstep
  rcases hw c out hreg hstate (by rw [hrole]; nofun) hframe with h1 | h1 | h1
  · exact h1 hinq
  · exact h1 hfin
  · exact h1 htx

/-- the source is armed and nothing is to come -/
def quietSource (s : Srv) : Bool :=
  (s.conn 2).reg = .armed false ∧ (s.conn 2).sock.inq = [] ∧ (s.conn 2).sock.fin = .open ∧ bufLen (s.conn 2).tx = 0 ∧
    s.queue.items = [] ∧ s.sys.park = []

set_option maxRecDepth 100000 in
theorem stuckRun_stuck : (exec (srvStep tinyConf) .start (resumedRun (binFrame 4))).map (fun s =>
    atRest s && quietSource s && decide (HoldsFrame tinyConf (s.conn 2))) = some true := by
  decide +kernel

/-- a fourth message came in the segment that caused the park: it is complete in rx, and no event will come for it -/
theorem frame_left_behind : ∃ s, Reachable (srvStep tinyConf) .start s ∧ ∃ c, (s.conn c).live = true ∧
    (s.conn c).state = .ST_WS_OPEN ∧ (s.conn c).role = .ROLE_SOURCE ∧ (∃ out, (s.conn c).reg = .armed out) ∧
    (s.conn c).sock.inq = [] ∧ (s.conn c).sock.fin = .open ∧ bufLen (s.conn c).tx = 0 ∧ c ∉ s.queue.items ∧
    (∀ w, ¬ (s.workers w).about c) ∧ c ∉ s.sys.park ∧ HoldsFrame tinyConf (s.conn c) := by
  obtain ⟨s, hs, hp⟩ := Option.map_eq_some_iff.1 stuckRun_stuck
  simp only [Bool.and_eq_true] at hp
  obtain ⟨⟨hrest, hquiet⟩, hframe⟩ := hp
  have hfree : ¬ s.handled 2 := by
    refine exec_atRest (fun w hw e => ?_) hs hrest
    simp [resumedRun, hw, parkRun_workers (binFrame 4) w hw e]
  simp only [atRest, decide_eq_true_eq] at hrest
  simp only [quietSource, decide_eq_true_eq] at hquiet
  obtain ⟨hlive, hstate, hrole, -⟩ := hrest
  obtain ⟨hreg, hinq, hfin, htx, hqueue, hpark⟩ := hquiet
  refine ⟨s, .of_exec (allOk_true _ _) hs, 2, hlive, hstate, hrole, ⟨false, hreg⟩, hinq, hfin, htx, ?_, fun w h => ?_, ?_,
    of_decide_eq_true hframe⟩
  · rw [hqueue]; exact List.not_mem_nil
  · exact hfree (.inr (.inl ⟨w, h⟩))
  · rw [hpark]; exact List.not_mem_nil

set_option maxRecDepth 100000 in
theorem resumedRun_quiet : (exec (guarded (srvStep tinyConf) (RefillOk tinyConf)) .start (resumedRun [])).map
    (fun s => atRest s && quietSource s) = some true := by
  decide +kernel

theorem no_frame_left_resumed : ∃ s, Reach (srvStep tinyConf) (RefillOk tinyConf) .start s ∧ quietSource s = true ∧
    ¬ HoldsFrame tinyConf (s.conn 2) := by
  obtain ⟨s, hs, hp⟩ := Option.map_eq_some_iff.1 resumedRun_quiet
  simp only [Bool.and_eq_true] at hp
  obtain ⟨hrest, hquiet⟩ := hp
  have hfree : ¬ s.handled 2 := by
    refine exec_atRest (fun w hw e => ?_) (exec_of_guarded hs).1 hrest
    simp [resumedRun, hw, parkRun_workers [] w hw e]
  have hreach : Reach (srvStep tinyConf) (RefillOk tinyConf) .start s := .of_guarded .start hs
  refine ⟨s, hreach, hquiet, ?_⟩
  simp only [atRest, decide_eq_true_eq] at hrest
  simp only [quietSource, decide_eq_true_eq] at hquiet
  obtain ⟨hlive, hstate, hrole, -⟩ := hrest
  obtain ⟨hreg, hinq, hfin, htx, hqueue, hpark⟩ := hquiet
  refine no_frame_left tinyConf s hreach 2 hlive hstate hrole ⟨false, hreg⟩ hinq hfin htx ?_ (fun w h => ?_) ?_
  · rw [hqueue]; exact List.not_mem_nil
  · exact hfree (.inr (.inl ⟨w, h⟩))
  · rw [hpark]; exact List.not_mem_nil

end WsServer
