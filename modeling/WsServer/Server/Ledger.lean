/-
Where every message of a source is.

A message completed in `handleWsOpen` is in the worker's hands, in `pendingMsg` of the parked connection, in dataQueue, or
taken by the aggregator. `Booked` says that the messages a source completed are, in order, those taken, those queued and the
one in somebody's hands; `Srv.inHand` is the message a place holds for a connection.

- `srvStep_ledger`: every step keeps the books.
- `each_message_once`: nothing is lost, doubled or reordered up to the sink, and the end of a sink costs one frame at most.
-/
import Mathlib
import WsServer.Agg.Wire
import WsServer.Server.Owners

namespace WsServer

open Ws Packets Places Machine

variable {conf : ServerConfig} {s t : Srv} {u : AggSys} {w d : ℕ} {a : Act}

/-- the messages of a source that reached dataQueue -/
def Srv.queued (s : Srv) (c : ℕ) : List Msg :=
  s.sys.popped.filter (·.srcId = c) ++ s.sys.dataQueue.items.filter (·.srcId = c)

/-- the message a worker holds for the connection `v` it has -/
def WPc.msg (p : WPc) (v : Conn) : Option Msg :=
  match p with
  | .check _ _ m | .push _ _ m | .parkStore _ m => some m
  | .parkPush _ => v.pendingMsg
  | _ => none

theorem WPc.works_msg {p : WPc} {c : ℕ} (h : p.works = some c) (v : Conn) : p.msg v = none := by
  cases p with
  | check | push | parkStore | parkPush => cases h
  | _ => rfl

/-- the message a place holds -/
def Srv.inHand (s : Srv) (p : Place) (v : Conn) : Option Msg :=
  match p with
  | .worker w => (s.workers w).msg v
  | .park => v.pendingMsg
  | .hand => match s.sys.pc with
    | .rpush _ => v.pendingMsg
    | _ => none
  | _ => none

/-- `o` is what is in somebody's hands for connection `c` -/
def HandIs (s : Srv) (c : ℕ) (o : Option Msg) : Prop :=
  (∃ p, c ∈ s.cell p ∧ o = s.inHand p (s.conn c)) ∨ ¬ Owned s.cell c ∧ o = none

theorem HandIs.exists (s : Srv) (c : ℕ) : ∃ o, HandIs s c o := by
  by_cases h : Owned s.cell c
  · obtain ⟨p, hp⟩ := h; exact ⟨_, .inl ⟨p, hp, rfl⟩⟩
  · exact ⟨none, .inr ⟨h, rfl⟩⟩

/-- the books of one source -/
structure Booked (s : Srv) (c : ℕ) : Prop where
  src : ∀ m ∈ s.completed c, m.srcId = c
  hand : s.sys.pc ≠ .done → ∀ o, HandIs s c o → s.completed c = s.queued c ++ o.toList

/-- a step that moves nothing of this source -/
theorem Booked.same (h : Booked s d) (hdone : t.sys.pc ≠ .done → s.sys.pc ≠ .done) (hc : t.completed d = s.completed d)
    (hq : t.sys.pc ≠ .done → t.queued d = s.queued d) (hhand : t.sys.pc ≠ .done → ∀ o, HandIs t d o → HandIs s d o) :
    Booked t d where
  src := by rw [hc]; exact h.src
  hand hpc o ho := by rw [hc, hq hpc]; exact h.hand (hdone hpc) o (hhand hpc o ho)

/-- the places of this source and what they hold are the same -/
theorem HandIs.of_cells {o : Option Msg} (hcell : ∀ p, d ∈ t.cell p ↔ d ∈ s.cell p)
    (hin : ∀ p, d ∈ s.cell p → t.inHand p (t.conn d) = s.inHand p (s.conn d)) (h : HandIs t d o) : HandIs s d o := by
  rcases h with ⟨p, hp, rfl⟩ | ⟨hn, rfl⟩
  · exact .inl ⟨p, (hcell p).1 hp, hin p ((hcell p).1 hp)⟩
  · exact .inr ⟨fun ⟨p, hp⟩ => hn ⟨p, (hcell p).2 hp⟩, rfl⟩

/-- the message of a place, read off the state before the step -/
theorem HandIs.at {p : Place} (hg : Good s) {o : Option Msg} (hp : d ∈ s.cell p) (h : HandIs s d o) :
    o = s.inHand p (s.conn d) := by
  rcases h with ⟨q, hq, rfl⟩ | ⟨hn, -⟩
  · rw [hg.excl.only q p d hq hp]
  · exact absurd ⟨p, hp⟩ hn

/-- only the pending message of a connection counts -/
theorem inHand_congr {p : Place} {v v' : Conn} (h : v.pendingMsg = v'.pendingMsg) : s.inHand p v = s.inHand p v' := by
  cases p with
  | worker w =>
    simp only [Srv.inHand]
    cases s.workers w <;> first | rfl | exact h
  | park => exact h
  | hand => simp only [Srv.inHand, h]
  | _ => rfl

/-! ## The workers -/

variable {c : ℕ} {p : WPc}

/-- what a step of worker `w` leaves alone is in the same hands -/
theorem HandIs.others {o : Option Msg} (h : HandIs t d o) (hworkers : t.workers = Function.update s.workers w p)
    (h1 : (s.workers w).holds ≠ some d) (h2 : p.holds ≠ some d) (hpm : (t.conn d).pendingMsg = (s.conn d).pendingMsg)
    (hrest : ∀ q, (∀ w', q ≠ .worker w') → (d ∈ t.cell q ↔ d ∈ s.cell q)) (hpc : t.sys.pc = s.sys.pc) : HandIs s d o := by
  have hw : ∀ w', w' ≠ w → t.workers w' = s.workers w' := fun w' hne => by rw [hworkers, Function.update_of_ne hne]
  refine h.of_cells (fun q => ?_) fun q hq => ?_
  · cases q with
    | worker w' =>
      by_cases hne : w' = w
      · subst hne
        rw [mem_worker, mem_worker, hworkers, Function.update_self]
        exact ⟨fun h => absurd h h2, fun h => absurd h h1⟩
      · rw [mem_worker, mem_worker, hw w' hne]
    | _ => exact hrest _ nofun
  · rw [inHand_congr hpm]
    cases q with
    | worker w' =>
      have hne : w' ≠ w := by rintro rfl; exact h1 (mem_worker.1 hq)
      simp only [Srv.inHand, hw w' hne]
    | hand => simp only [Srv.inHand, hpc]
    | _ => rfl

theorem holds_ne (h : p.holds = some c) (hd : d ≠ c) : p.holds ≠ some d := by
  rw [h]; exact fun h' => hd (Option.some.inj h').symm

theorem holds_none (h : p.holds = none) : p.holds ≠ some d := by
  rw [h]; exact (Option.some_ne_none d).symm

/-- a worker keeps the connection; what it holds for it is judged before and behind the step -/
theorem booked_stay (ht : Good t) (hb : ∀ c, Booked s c) (hs : (s.workers w).holds = some c) (hp : p.holds = some c)
    (hworkers : t.workers = Function.update s.workers w p) (hrest : ∀ q, (∀ w', q ≠ .worker w') → t.cell q = s.cell q)
    (hconn : ∀ d, d ≠ c → t.conn d = s.conn d) (hpc : t.sys.pc = s.sys.pc)
    (hcompleted : ∀ d, d ≠ c → t.completed d = s.completed d) (hqueued : s.sys.pc ≠ .done → ∀ d, d ≠ c → t.queued d = s.queued d)
    (hsrc : ∀ m ∈ t.completed c, m.srcId = c)
    (heq : s.completed c = s.queued c ++ ((s.workers w).msg (s.conn c)).toList →
      t.completed c = t.queued c ++ (p.msg (t.conn c)).toList) : ∀ d, Booked t d := by
  intro d
  have hp' : t.workers w = p := by rw [hworkers, Function.update_self]
  by_cases hd : d = c
  · subst hd
    refine ⟨hsrc, fun hdone o ho => ?_⟩
    rw [ho.at ht (p := .worker w) (mem_worker.2 (by rw [hp', hp]))]
    simp only [Srv.inHand, hp']
    exact heq ((hb d).hand (hpc ▸ hdone) _ (.inl ⟨.worker w, mem_worker.2 hs, rfl⟩))
  · exact (hb d).same (fun h => hpc ▸ h) (hcompleted d hd) (fun hdone => hqueued (hpc ▸ hdone) d hd)
      fun _ o ho =>
      ho.others hworkers (holds_ne hs hd) (holds_ne hp hd) (by rw [hconn d hd]) (fun q hq => by rw [hrest q hq]) hpc

/-- a step that moves no message; the connection it touches has none in hand before and behind -/
theorem Booked.untouched (hb : Booked s d) (hcompleted : t.completed = s.completed) (hpopped : t.sys.popped = s.sys.popped)
    (hdata : t.sys.dataQueue.items = s.sys.dataQueue.items) (hdone : t.sys.pc ≠ .done → s.sys.pc ≠ .done)
    (hhand : ∀ o, HandIs t d o → HandIs s d o) : Booked t d :=
  hb.same hdone (congrFun hcompleted d) (fun _ => by unfold Srv.queued; rw [hpopped, hdata]) fun _ => hhand

/-- **The workers keep the books.** -/
theorem WShift.booked (hg : Good s) (ht : Good t) (hb : ∀ c, Booked s c) (h : WShift conf s w t) : ∀ c, Booked t c := by
  cases h with
  | take c q hw hq hsd =>
    intro d
    refine (hb d).untouched rfl rfl rfl id fun o ho => ?_
    by_cases hd : d = c
    · subst hd
      refine .inl ⟨.queue, by simp [Srv.cell, hq], (ho.at ht (p := .worker w) (mem_worker.2 ?_)).trans ?_⟩
      · simp [Srv.goto, WPc.holds]
      · simp [Srv.inHand, Srv.goto, WPc.msg]
    · refine ho.others (s := s) (w := w) (p := .run c) rfl (holds_none (by rw [hw]; rfl)) (holds_ne rfl hd) rfl (fun r hr => ?_) rfl
      cases r with
      | worker w' => exact absurd rfl (hr w')
      | queue => simp [Srv.cell, Srv.goto, hq, hd]
      | _ => rfl
  | think c v p hw hp htouch _ =>
    refine booked_stay ht hb (WPc.works_spec hw).1 (WPc.works_spec hp).1 rfl
      (fun q hq => by cases q <;> first | rfl | exact absurd rfl (hq _)) (fun d hd => setConn_conn_of_ne v hd) rfl
      (fun _ _ => rfl) (fun _ _ _ => rfl) (hb c).src fun heq => ?_
    rw [WPc.works_msg hw] at heq
    rw [WPc.works_msg hp]
    exact heq
  | complete c eof m v hw htouch hid =>
    have hm : m.srcId = c := hid.trans (hg.fine c).id
    refine booked_stay (p := .check c eof m) ht hb (by rw [hw]; rfl) rfl rfl
      (fun q hq => by cases q <;> first | rfl | exact absurd rfl (hq _)) (fun d hd => setConn_conn_of_ne v hd) rfl
      (fun d hd => Function.update_of_ne hd _ _) (fun _ _ _ => rfl) (fun x hx => ?_) fun heq => ?_
    · simp only [Srv.goto, Function.update_self, List.mem_append, List.mem_singleton] at hx
      rcases hx with hx | rfl
      · exact (hb c).src x hx
      · exact hm
    · rw [hw] at heq
      simp only [Srv.goto, Function.update_self]
      rw [heq]
      simp [WPc.msg, Srv.queued, Srv.setConn]
  | decide c eof m p hw hp =>
    have hp1 : p.holds = some c ∧ ∀ v, p.msg v = some m := by rcases hp with rfl | rfl <;> exact ⟨rfl, fun _ => rfl⟩
    refine booked_stay ht hb (by rw [hw]; rfl) hp1.1 rfl (fun q hq => by cases q <;> first | rfl | exact absurd rfl (hq _))
      (fun _ _ => rfl) rfl (fun _ _ => rfl) (fun _ _ _ => rfl) (hb c).src fun heq => ?_
    rw [hw] at heq
    rw [hp1.2]
    exact heq
  | push c eof m hw =>
    have hs : (s.workers w).holds = some c := by rw [hw]; rfl
    have hm : s.completed c = s.queued c ++ [m] → m.srcId = c := fun heq => (hb c).src m (by rw [heq]; simp)
    refine booked_stay (p := .loop c eof) ht hb hs rfl rfl
      (fun q hq => by cases q <;> first | rfl | exact absurd rfl (hq _)) (fun _ _ => rfl) rfl (fun _ _ => rfl)
      (fun hdone d hd => ?_) (hb c).src fun heq => ?_
    · have hsrc := hm ((hb c).hand hdone (some m) (.inl ⟨.worker w, mem_worker.2 hs, by simp only [Srv.inHand, hw]; rfl⟩))
      have hne : m.srcId ≠ d := fun h => hd (h.symm.trans hsrc)
      simp [Srv.queued, Srv.goto, hne]
    · rw [hw] at heq
      have hsrc := hm heq
      simp only [Srv.queued, Srv.goto, push_items, List.filter_append] at heq ⊢
      rw [heq]
      simp [WPc.msg, hsrc]
  | parkStore c m hw =>
    refine booked_stay (p := .parkPush c) ht hb (by rw [hw]; rfl) rfl rfl
      (fun q hq => by cases q <;> first | rfl | exact absurd rfl (hq _)) (fun d hd => setConn_conn_of_ne _ hd) rfl
      (fun _ _ => rfl) (fun _ _ _ => rfl) (hb c).src fun heq => ?_
    rw [hw] at heq
    simp only [WPc.msg, goto_setConn]
    exact heq
  | handoffDel c hw =>
    refine booked_stay (p := .handoffPush c) ht hb (by rw [hw]; rfl) rfl rfl
      (fun q hq => by cases q <;> first | rfl | exact absurd rfl (hq _)) (fun d hd => setConn_conn_of_ne _ hd) rfl
      (fun _ _ => rfl) (fun _ _ _ => rfl) (hb c).src fun heq => ?_
    rw [hw] at heq
    exact heq
  | parkPush c hw =>
    have hs : (s.workers w).holds = some c := by rw [hw]; rfl
    intro d
    refine (hb d).untouched rfl rfl rfl id fun o ho => ?_
    by_cases hd : d = c
    · subst hd
      refine .inl ⟨.worker w, mem_worker.2 hs, (ho.at ht (p := .park) ?_).trans ?_⟩
      · simp [Srv.cell, Srv.goto]
      · simp only [Srv.inHand, hw]; rfl
    · refine ho.others (s := s) (w := w) (p := .parkDel c) rfl (holds_ne hs hd) (holds_none rfl) rfl (fun r hr => ?_) rfl
      cases r with
      | worker w' => exact absurd rfl (hr w')
      | park => simp [Srv.cell, Srv.goto, hd]
      | _ => rfl
  | parkDel c hw =>
    intro d
    refine (hb d).untouched rfl rfl rfl id fun o ho => ?_
    refine ho.others (s := s) (w := w) (p := .idle) rfl (holds_none (by rw [hw]; rfl)) (holds_none rfl) ?_
      (fun r hr => ?_) rfl
    · by_cases hd : d = c
      · subst hd; rw [goto_setConn]
      · exact congrArg Conn.pendingMsg (setConn_conn_of_ne _ hd)
    · cases r with
      | worker w' => exact absurd rfl (hr w')
      | _ => rfl
  | handoffPush c hw =>
    have hs : (s.workers w).holds = some c := by rw [hw]; rfl
    intro d
    refine (hb d).untouched rfl rfl rfl id fun o ho => ?_
    by_cases hd : d = c
    · subst hd
      refine .inl ⟨.worker w, mem_worker.2 hs, (ho.at ht (p := .ctrl) ?_).trans ?_⟩
      · simp [Srv.cell, Srv.goto, msgNewSinkAdd, Msg.sinkAdd]
      · simp only [Srv.inHand, hw]; rfl
    · refine ho.others (s := s) (w := w) (p := .idle) rfl (holds_ne hs hd) (holds_none rfl) rfl (fun r hr => ?_) rfl
      cases r with
      | worker w' => exact absurd rfl (hr w')
      | ctrl => simp [Srv.cell, Srv.goto, msgNewSinkAdd, Msg.sinkAdd, hd]
      | _ => rfl
  | apply c disp hw =>
    have hs : (s.workers w).holds = some c := by rw [hw]; rfl
    have hrest : ∀ r, (∀ w', r ≠ .worker w') →
        ((s.setConn c (applyDisposition (s.conn c) disp)).goto w .idle).cell r = s.cell r :=
      fun q hq => by cases q <;> first | rfl | exact absurd rfl (hq _)
    intro d
    refine (hb d).untouched rfl rfl rfl id fun o ho => ?_
    by_cases hd : d = c
    · -- the worker held no message, and now nobody has the connection
      subst hd
      have hnone : o = none := by
        rcases ho with ⟨r, hr, -⟩ | ⟨-, h⟩
        · exfalso
          cases r with
          | worker w' =>
            by_cases hw' : w' = w
            · subst hw'
              rw [mem_worker] at hr
              simp [Srv.goto, WPc.holds] at hr
            · have hr' : d ∈ s.cell (.worker w') := by
                rw [mem_worker] at hr ⊢
                simpa [Srv.goto, Srv.setConn, hw'] using hr
              exact hw' (Place.worker.inj (hg.excl.only _ _ d hr' (mem_worker.2 hs)))
          | _ => rw [hrest _ (by rintro _ ⟨⟩)] at hr; cases hg.excl.only _ _ d hr (mem_worker.2 hs)
        · exact h
      exact .inl ⟨.worker w, mem_worker.2 hs, by rw [hnone]; simp only [Srv.inHand, hw]; rfl⟩
    · exact ho.others (s := s) (w := w) (p := .idle) rfl (holds_ne hs hd) (holds_none rfl)
        (congrArg Conn.pendingMsg (setConn_conn_of_ne _ hd)) (fun q hq => by rw [hrest q hq]) rfl

/-! ## The aggregator -/

/-- what has to do with the sink holds no message -/
theorem HandIs.sink {o : Option Msg} (hg : Good s) (h : HandIs t d o) (hhand : s.sys.pc.hand = none)
    (hworkers : t.workers = s.workers) (hrest : ∀ q, q ≠ .ctrl → q ≠ .sink → t.cell q = s.cell q)
    (hfrom : d ∈ t.cell .ctrl ∨ d ∈ t.cell .sink → d ∈ s.cell .ctrl ∨ d ∈ s.cell .sink)
    (hconn : d ∉ s.cell .ctrl → d ∉ s.cell .sink → t.conn d = s.conn d) : HandIs s d o := by
  by_cases hd : d ∈ s.cell .ctrl ∨ d ∈ s.cell .sink
  · have hnone : o = none := by
      rcases h with ⟨q, hq, rfl⟩ | ⟨-, h⟩
      · by_cases h1 : q = .ctrl
        · rw [h1]; rfl
        by_cases h2 : q = .sink
        · rw [h2]; rfl
        rw [hrest q h1 h2] at hq
        rcases hd with hd | hd
        · exact absurd (hg.excl.only _ _ d hq hd) h1
        · exact absurd (hg.excl.only _ _ d hq hd) h2
      · exact h
    rcases hd with hd | hd <;> exact .inl ⟨_, hd, hnone⟩
  · have hd' : ¬ (d ∈ t.cell .ctrl ∨ d ∈ t.cell .sink) := fun h => hd (hfrom h)
    push Not at hd hd'
    refine h.of_cells (fun q => ?_) fun q hq => ?_
    · by_cases h1 : q = .ctrl
      · subst h1; exact ⟨fun h => absurd h hd'.1, fun h => absurd h hd.1⟩
      by_cases h2 : q = .sink
      · subst h2; exact ⟨fun h => absurd h hd'.2, fun h => absurd h hd.2⟩
      rw [hrest q h1 h2]
    · rw [hconn hd.1 hd.2]
      cases q with
      | worker w => simp only [Srv.inHand, hworkers]
      | hand => simp [Srv.cell, hhand] at hq
      | _ => rfl

/-- **The aggregator keeps the books.** -/
theorem Shift.booked (hg : Good s) (ht : Good { s with sys := u }) (hpc : s.sys.pc ≠ .done) (hb : ∀ c, Booked s c)
    (h : Shift s.sys u) : ∀ c, Booked { s with sys := u } c := by
  intro d
  cases h with
  | look r p honly hhand hp _ _ =>
    refine (hb d).untouched rfl honly.popped (congrArg Queue.items honly.dataQueue) (fun _ => hpc) fun o ho => ?_
    refine ho.sink hg hhand rfl (fun q h1 h2 => ?_) (fun h1 => ?_) fun _ h2 => ?_
    · cases q with
      | park => exact honly.park
      | hand => simp [Srv.cell, hhand, hp]
      | ctrl => exact absurd rfl h1
      | sink => exact absurd rfl h2
      | _ => rfl
    · rcases h1 with h1 | h1
      · left; simpa only [Srv.cell, honly.ctrlQueue] using h1
      · right
        rcases honly.sink with h2 | h2 | ⟨_, h2, -⟩
        · simpa only [Srv.cell, h2] using h1
        · simp [Srv.cell, h2] at h1
        · exact h2.elim
    · exact honly.conn d (fun h => h2 (by simp [Srv.cell, h])) id
  | ctrl m q _ hq hc honly =>
    have hitems := (trypop_eq_some.1 hq).1
    have hhand : s.sys.pc.hand = none := by rw [hc]; rfl
    have hhand' : u.pc.hand = none := by rw [honly.pc]; exact hhand
    refine (hb d).untouched rfl honly.popped (congrArg Queue.items honly.dataQueue) (fun _ => hpc) fun o ho => ?_
    have hmem : ∀ c, m.adds c → c ∈ s.cell .ctrl := fun c hadd => by
      rw [Srv.cell, hitems]
      exact List.mem_filterMap.2 ⟨m, List.mem_cons_self, sinkAdd_eq_some.2 hadd⟩
    refine ho.sink hg hhand rfl (fun q h1 h2 => ?_) (fun h1 => ?_) fun h1 h2 => ?_
    · cases q with
      | park => exact honly.park
      | hand => simp [Srv.cell, hhand, hhand']
      | ctrl => exact absurd rfl h1
      | sink => exact absurd rfl h2
      | _ => rfl
    · rcases h1 with h1 | h1
      · left
        rw [Srv.cell, honly.ctrlQueue] at h1
        rw [Srv.cell, hitems, List.filterMap_cons]
        split
        · exact h1
        · exact List.mem_cons_of_mem _ h1
      · rcases honly.sink with h2 | h2 | ⟨c, hc, h2⟩
        · right; simpa only [Srv.cell, h2] using h1
        · simp [Srv.cell, h2] at h1
        · left
          have hdc : d = c := by simpa [Srv.cell, h2, eq_comm] using h1
          exact hdc ▸ hmem c hc
    · exact honly.conn d (fun h => h2 (by simp [Srv.cell, show s.sys.agg.sink = some d from h])) fun hadd => h1 (hmem d hadd)
  | unpark c park hc hpark =>
    refine (hb d).untouched rfl rfl rfl (fun _ => hpc) fun o ho => ?_
    by_cases hd : d = c
    · subst hd
      have ho' := ho.at ht (p := .hand) (by simp [Srv.cell, AggPc.hand])
      exact .inl ⟨.park, by simp [Srv.cell, hpark], ho'⟩
    · refine ho.of_cells (fun q => ?_) fun q hq => ?_
      · cases q with
        | park => simp [Srv.cell, hpark, hd]
        | hand => simpa [Srv.cell, hc, AggPc.hand] using hd
        | _ => rfl
      · cases q with
        | hand => simp [Srv.cell, hc, AggPc.hand] at hq
        | _ => rfl
  | rpush c m hc hm =>
    have hmem : c ∈ s.cell .hand := by simp [Srv.cell, hc, AggPc.hand]
    have hbook := (hb c).hand hpc (some m) (.inl ⟨.hand, hmem, by simp only [Srv.inHand, hc]; exact hm.symm⟩)
    have hsrc : m.srcId = c := (hb c).src m (by rw [hbook]; simp)
    by_cases hd : d = c
    · subst hd
      refine ⟨(hb d).src, fun _ o ho => ?_⟩
      have hnone : o = none := ho.at ht (p := .hand) (by simp [Srv.cell, AggPc.hand])
      rw [hnone]
      simp only [Srv.queued, push_items, List.filter_append] at hbook ⊢
      rw [hbook]
      simp [hsrc]
    · have hne : m.srcId ≠ d := fun h => hd (h.symm.trans hsrc)
      refine (hb d).same (fun _ => hpc) rfl (fun _ => by simp [Srv.queued, hne]) fun _ o ho => ?_
      refine ho.of_cells (fun q => ?_) fun q hq => ?_
      · cases q with
        | hand => simp [Srv.cell, hc, AggPc.hand]
        | _ => rfl
      · cases q with
        | hand => exact absurd (by simpa [Srv.cell, hc, AggPc.hand] using hq) hd
        | _ => rfl
  | rclear c hc =>
    refine (hb d).untouched rfl rfl rfl (fun _ => hpc) fun o ho => ?_
    refine ho.of_cells (fun q => ?_) fun q hq => ?_
    · cases q with
      | hand => simp [Srv.cell, hc, AggPc.hand]
      | _ => rfl
    · by_cases hd : d = c
      · subst hd
        -- it is in the aggregator's hands, with its message already pushed
        have hq' := hg.excl.only q .hand d hq (by simp [Srv.cell, hc, AggPc.hand])
        subst hq'
        simp only [Srv.inHand, hc]
      · have hconn : ({ s with sys := { s.sys with
            conn := Function.update s.sys.conn c { s.sys.conn c with pendingMsg := none }, pc := .radd c } } : Srv).conn d =
            s.conn d := Function.update_of_ne hd _ _
        rw [hconn]
        cases q with
        | hand => simp only [Srv.inHand, hc]
        | _ => rfl
  | radd c hc =>
    have hmem : c ∈ s.cell .hand := by simp [Srv.cell, hc, AggPc.hand]
    refine (hb d).untouched rfl rfl rfl (fun _ => hpc) fun o ho => ?_
    by_cases hd : d = c
    · subst hd
      have hnone : o = none := by
        rcases ho with ⟨q, hq, -⟩ | ⟨-, h⟩
        · exfalso
          have hq' : q ≠ .hand ∧ d ∈ s.cell q := by
            cases q with
            | hand => simp [Srv.cell, AggPc.hand] at hq
            | _ => exact ⟨by rintro ⟨⟩, hq⟩
          exact hq'.1 (hg.excl.only q .hand d hq'.2 hmem)
        · exact h
      exact .inl ⟨.hand, hmem, by rw [hnone]; simp only [Srv.inHand, hc]⟩
    · refine ho.of_cells (fun q => ?_) fun q hq => ?_
      · cases q with
        | hand => simpa [Srv.cell, hc, AggPc.hand] using hd
        | _ => rfl
      · have hconn : ({ s with sys := { s.sys with
            conn := Function.update s.sys.conn c (epollAdd (s.sys.conn c)), pc := .take } } : Srv).conn d = s.conn d :=
          Function.update_of_ne hd _ _
        rw [hconn]
        cases q with
        | hand => simp only [Srv.inHand, hc]
        | _ => rfl
  | take m q hc hq =>
    have hitems := (trypop_eq_some.1 hq).1
    refine (hb d).same (fun _ => hpc) rfl (fun _ => ?_) fun _ o ho => ?_
    · simp [Srv.queued, takeMessage, aggOnMessage, hitems, List.filter_append, List.filter_cons]
      split_ifs <;> simp
    · refine ho.of_cells (fun q => ?_) fun q hq => ?_
      · cases q with
        | hand => simp [Srv.cell, hc, AggPc.hand, takeMessage, aggOnMessage]
        | _ => rfl
      · cases q with
        | hand => simp [Srv.cell, hc, AggPc.hand] at hq
        | _ => rfl
  | final r hc honly hsink => exact ⟨(hb d).src, fun h => absurd rfl h⟩

/-! ## Every step -/

theorem aggStep_running {sys : AggSys} {e : AggEnv} (h : aggStep conf sys e = some u) : sys.pc ≠ .done := by
  intro hpc
  unfold aggStep at h
  simp only [hpc] at h
  cases h

/-- the aggregator takes what is queued, in order, and makes one frame of each message -/
theorem Shift.taken {sys : AggSys} (h : Shift sys u) :
    u.popped = sys.popped ∧ u.encoded = sys.encoded ∨
      ∃ m f, sys.pc = .take ∧ u.popped = sys.popped ++ [m] ∧ u.encoded = sys.encoded ++ [(m, f)] ∧ u.pc ≠ .done := by
  cases h with
  | look r p honly => exact .inl ⟨honly.popped, honly.encoded⟩
  | ctrl m q _ _ _ honly => exact .inl ⟨honly.popped, honly.encoded⟩
  | unpark | rpush | rclear | radd => exact .inl ⟨rfl, rfl⟩
  | take m q hc => exact .inr ⟨m, (aggOnMessage _ m).1, hc, rfl, rfl, nofun⟩
  | final r _ honly => exact .inl ⟨honly.popped, honly.encoded⟩

/-- what holds in every run -/
structure Ledger (s : Srv) : Prop where
  booked : ∀ c, Booked s c
  past : ∀ c, s.sys.popped.filter (·.srcId = c) <+: s.completed c
  encoded : s.sys.encoded.map Prod.fst = s.sys.popped
  agg : AggInv s.sys
  spared : Spared s.sys.sender

theorem WShift.record (h : WShift conf s w t) :
    t.sys.popped = s.sys.popped ∧ t.sys.encoded = s.sys.encoded ∧ t.sys.sender = s.sys.sender ∧ t.sys.pc = s.sys.pc ∧
      t.sys.agg = s.sys.agg ∧ t.sys.cut = s.sys.cut ∧ t.sys.made = s.sys.made ∧ ∀ c, s.completed c <+: t.completed c := by
  cases h with
  | complete c =>
    refine ⟨rfl, rfl, rfl, rfl, rfl, rfl, rfl, fun d => ?_⟩
    by_cases hd : d = c
    · subst hd; simp [Srv.goto]
    · simp [Srv.goto, hd, Srv.setConn]
  | _ => exact ⟨rfl, rfl, rfl, rfl, rfl, rfl, rfl, fun _ => List.prefix_refl _⟩

/-- the other threads do not touch what the aggregator keeps for itself -/
theorem Ledger.frame (h : Ledger s) (hb : ∀ c, Booked t c) (hpopped : t.sys.popped = s.sys.popped)
    (hencoded : t.sys.encoded = s.sys.encoded) (hsender : t.sys.sender = s.sys.sender) (hpc : t.sys.pc = s.sys.pc)
    (hagg : t.sys.agg = s.sys.agg) (hcut : t.sys.cut = s.sys.cut) (hmade : t.sys.made = s.sys.made)
    (hcompleted : ∀ c, s.completed c <+: t.completed c) : Ledger t where
  booked := hb
  past c := by rw [hpopped]; exact (h.past c).trans (hcompleted c)
  encoded := by rw [hencoded, hpopped]; exact h.encoded
  agg := {
    accounted := hsender ▸ h.agg.accounted
    at_pc := ⟨hpc ▸ hagg ▸ h.agg.at_pc.pumped, hpc ▸ hagg ▸ h.agg.at_pc.draining, hpc ▸ hcut ▸ h.agg.at_pc.cut⟩
    frames := hmade ▸ h.agg.frames
    messages := hencoded ▸ h.agg.messages }
  spared := hsender ▸ h.spared

/-- before the shutdown nothing is tried once and given up -/
theorem StepMove.undrained {sys : AggSys} {e : AggEnv} (hp : sys.pc.draining = false) {v : Sender UInt8 Msg}
    {m : Move UInt8 Msg} (h : StepMove sys e v m) : undrained v m := by
  cases m with
  | drain m body n =>
    have hpc : sys.pc = .drainData := h.1
    rw [hpc] at hp
    cases hp
  | _ => trivial

theorem srvStep_ledger (hg : Good s) (hl : Ledger s) (h : srvStep conf s a = some t) : Ledger t := by
  have ht := srvStep_good hg h
  cases a with
  | accept =>
    obtain rfl := Option.some.inj h
    refine hl.frame (fun d => ?_) rfl rfl rfl rfl rfl rfl rfl fun _ => List.prefix_refl _
    refine (hl.booked d).untouched rfl rfl rfl id fun o ho => ho.of_cells (fun q => ?_) fun q hq => ?_
    · cases q <;> exact Iff.rfl
    · -- the new connection is in no place yet
      have hd : d ≠ s.nextId := fun h => lt_irrefl _ (h ▸ hg.known hq)
      refine (inHand_congr (congrArg Conn.pendingMsg (setConn_conn_of_ne _ hd))).trans ?_
      cases q <;> rfl
  | deliver c bytes fin =>
    simp only [srvStep] at h
    split_ifs at h
    obtain rfl := Option.some.inj h
    refine hl.frame (fun d => ?_) rfl rfl rfl rfl rfl rfl rfl fun _ => List.prefix_refl _
    refine (hl.booked d).untouched rfl rfl rfl id fun o ho => ho.of_cells (fun q => ?_) fun q hq => ?_
    · cases q <;> exact Iff.rfl
    · have hpm : ((s.setConn c { s.conn c with sock := ⟨(s.conn c).sock.inq ++ bytes, fin⟩ }).conn d).pendingMsg =
          (s.conn d).pendingMsg := by
        by_cases hd : d = c
        · subst hd; rw [setConn_conn_self]
        · rw [setConn_conn_of_ne _ hd]
      refine (inHand_congr hpm).trans ?_
      cases q <;> rfl
  | fetch c =>
    simp only [srvStep] at h
    split_ifs at h with hc
    obtain rfl := Option.some.inj h
    obtain ⟨-, ⟨out, hreg⟩, -⟩ := hc
    refine hl.frame (fun d => ?_) rfl rfl rfl rfl rfl rfl rfl fun _ => List.prefix_refl _
    refine (hl.booked d).untouched rfl rfl rfl id fun o ho => ?_
    by_cases hd : d = c
    · subst hd
      exact .inr ⟨not_exists.2 (hg.armed_free hreg), ho.at ht (p := .fetched) (by simp [Srv.cell])⟩
    · refine ho.of_cells (fun q => ?_) fun q hq => ?_
      · cases q with
        | fetched => simp [Srv.cell, hd]
        | _ => exact Iff.rfl
      · refine (inHand_congr (congrArg Conn.pendingMsg (setConn_conn_of_ne _ hd))).trans ?_
        cases q <;> rfl
  | enqueue c =>
    simp only [srvStep] at h
    split_ifs at h with hc
    obtain rfl := Option.some.inj h
    refine hl.frame (fun d => ?_) rfl rfl rfl rfl rfl rfl rfl fun _ => List.prefix_refl _
    refine (hl.booked d).untouched rfl rfl rfl id fun o ho => ?_
    by_cases hd : d = c
    · subst hd
      exact .inl ⟨.fetched, hc, ho.at ht (p := .queue) (by simp [Srv.cell])⟩
    · refine ho.of_cells (fun q => ?_) fun q hq => ?_
      · cases q with
        | fetched => exact List.mem_erase_of_ne hd
        | queue => simp [Srv.cell, hd]
        | _ => exact Iff.rfl
      · cases q <;> rfl
  | worker w e =>
    have hw := workerStep_shift h
    obtain ⟨h1, h2, h3, h4, h5, h6, h7, h8⟩ := hw.record
    exact hl.frame (hw.booked hg ht hl.booked) h1 h2 h3 h4 h5 h6 h7 h8
  | agg e =>
    simp only [srvStep, Option.map_eq_some_iff] at h
    obtain ⟨u, hu, rfl⟩ := h
    have hshift := aggStep_shift hg.dataQueue hg.draining hu
    have hb := hshift.booked hg ht (aggStep_running hu) hl.booked
    have hmoves := (aggStep_moves hl.agg.slots hl.agg.at_pc hu).1
    refine ⟨hb, fun c => ?_, ?_, hl.agg.step hu, ?_⟩
    · rcases hshift.taken with ⟨h1, -⟩ | ⟨m, f, -, -, -, hpc⟩
      · exact h1 ▸ hl.past c
      · obtain ⟨o, ho⟩ := HandIs.exists { s with sys := u } c
        rw [(hb c).hand hpc o ho, Srv.queued, List.append_assoc]
        exact List.prefix_append _ _
    · rcases hshift.taken with ⟨h1, h2⟩ | ⟨m, f, -, h1, h2, -⟩
      · rw [h1, h2]; exact hl.encoded
      · rw [h1, h2, List.map_append, hl.encoded]; rfl
    · exact (hmoves.mono fun _ _ _ hq => hq.undrained hg.draining).spared hl.spared

theorem start_ledger : Ledger .start where
  booked c := ⟨nofun, fun _ o ho => by
    rcases ho with ⟨p, hp, -⟩ | ⟨-, rfl⟩
    · cases p <;> cases hp
    · rfl⟩
  past c := List.prefix_refl _
  encoded := rfl
  agg := .start _ _ _ _
  spared := ⟨List.nodup_nil, nofun⟩

theorem reachable_ledger (h : Reachable (srvStep conf) .start s) : Ledger s :=
  h.invariant_of (fun _ hs => reachable_good hs) start_ledger fun _ _ _ hg hl _ hstep => srvStep_ledger hg hl hstep

/-! ## Once, and in order -/

theorem aggStep_pending {sys : AggSys} {e : AggEnv} {f : Frame} (hi : AggInv sys) (h : aggStep conf sys e = some u)
    (hf : sys.agg.pending = some f) : u.agg.pending = some f ∨ u.agg.pending = none := by
  refine ((aggStep_moves hi.slots hi.at_pc h).1.mono fun v m _ hq => ?_).data_kept hf
  cases m with
  | load m body =>
    -- the thread takes a message behind a complete flush only
    have hpc : sys.pc = .take := hq.1
    have hnone := (hi.at_pc.pumped (by rw [hpc]; rfl)).2.1
    rw [hf] at hnone
    cases hnone
  | _ => trivial

/-- **Every message once, and in order.** In every run the messages taken from dataQueue are, source by source, the first of
those completed; each of them is made one frame; that frame is waiting in `pending` or has its fate, in full or in part
on one stream and on no other; a stream has at most one fate in part, and has ended then; and `pending` is never
overwritten. -/
theorem each_message_once (conf : ServerConfig) (s : Srv) (h : Reachable (srvStep conf) .start s) :
    (∀ c, s.sys.popped.filter (·.srcId = c) <+: s.completed c) ∧
      s.sys.encoded.map Prod.fst = s.sys.popped ∧ (s.sys.encoded.map fun e => e.2.id).Nodup ∧
      (∀ e ∈ s.sys.encoded, IsFrameOf e.1 e.2.body) ∧
      (∀ i m f, s.sys.encoded[i]? = some (m, f) → s.sys.agg.pending = some f ∧ i + 1 = s.sys.encoded.length ∨
        ∃ fate, s.sys.fates[i]? = some fate ∧ Settled s.sys.sender f fate) ∧
      Spared s.sys.sender ∧
      ∀ a t, srvStep conf s a = some t → ∀ f, s.sys.agg.pending = some f →
        t.sys.agg.pending = some f ∨ t.sys.agg.pending = none := by
  have hg := reachable_good h
  have hl := reachable_ledger h
  refine ⟨hl.past, hl.encoded, hl.agg.accounted.nodup, hl.agg.messages, fun i m f hi => ?_, hl.spared, fun a t hstep f hf => ?_⟩
  · have hlt : i < s.sys.encoded.length := (List.getElem?_eq_some_iff.1 hi).1
    rcases lt_or_ge i s.sys.fates.length with hfate | hfate
    · have hget : s.sys.fates[i]? = some s.sys.fates[i] := List.getElem?_eq_getElem hfate
      exact .inr ⟨_, hget, hl.agg.accounted.settled i (m, f) _ hi hget⟩
    · -- only the last frame has no fate yet
      cases hp : s.sys.agg.pending with
      | none =>
        have hidle : s.sys.encoded.length = s.sys.fates.length := hl.agg.accounted.idle hp
        omega
      | some g =>
        obtain ⟨m', hm', hlen⟩ := hl.agg.accounted.waiting g hp
        have hlen' : s.sys.encoded.length = s.sys.fates.length + 1 := hlen
        have hi' : i = s.sys.fates.length := by omega
        have hm'' : s.sys.encoded[i]? = some (m', g) := hi' ▸ hm'
        rw [hi] at hm''
        obtain ⟨-, rfl⟩ := Prod.mk.inj (Option.some.inj hm'')
        exact .inl ⟨rfl, by omega⟩
  · cases a with
    | accept => obtain rfl := Option.some.inj hstep; exact .inl hf
    | deliver => simp only [srvStep] at hstep; split_ifs at hstep; obtain rfl := Option.some.inj hstep; exact .inl hf
    | fetch => simp only [srvStep] at hstep; split_ifs at hstep; obtain rfl := Option.some.inj hstep; exact .inl hf
    | enqueue => simp only [srvStep] at hstep; split_ifs at hstep; obtain rfl := Option.some.inj hstep; exact .inl hf
    | worker w e =>
      obtain ⟨-, -, -, -, hagg, -⟩ := (workerStep_shift hstep).record
      exact .inl (hagg ▸ hf)
    | agg e =>
      simp only [srvStep, Option.map_eq_some_iff] at hstep
      obtain ⟨u, hu, rfl⟩ := hstep
      exact aggStep_pending hl.agg hu hf

/-- the first of three messages is on the sink's stream, in full -/
def firstSent (s : Srv) : Bool := s.sys.fates = [⟨0, true⟩] ∧ s.sys.agg.pending = none ∧ (s.completed 2).length = 3

set_option maxRecDepth 100000 in
theorem each_message_once_sent : ∃ s, Reachable (srvStep tinyConf) .start s ∧ firstSent s = true ∧
    s.sys.popped.filter (·.srcId = 2) <+: s.completed 2 := by
  have hrun : (exec (srvStep tinyConf) .start (parkRun [] ++ List.replicate 5 (.agg calmAgg))).map firstSent = some true := by
    decide +kernel
  obtain ⟨s, hs, hp⟩ := Reachable.of_check _ _ _ _ hrun
  exact ⟨s, hs, hp, (each_message_once tinyConf s hs).1 2⟩

end WsServer
