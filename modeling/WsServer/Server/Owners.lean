/-
Who has a connection in its hands.

`Srv.cell` says which connections each place of the system holds: a listener's batch, the ingest queue, a worker, the
park list, the aggregator's hands, ctrlQueue, the sink. `Good` is what holds in every run: a connection is in one place at
most, its registration is the one that place needs, and a worker's place agrees with the state of its connection.

- `Good.alone`: a step that touches one connection is judged on that connection alone.
- `WShift.good`, `Shift.good`: the steps of the workers and of the aggregator keep `Good`.
- `reachable_good`: hence `Good` holds in every reachable state.
-/
import Mathlib
import WsServer.Agg.Steps
import WsServer.Core.Machine
import WsServer.Core.Places
import WsServer.Server.Shift

namespace WsServer

open Ws Places Machine

inductive Place where
  | fetched
  | queue
  | worker (w : ℕ)
  | park
  | hand
  | ctrl
  | sink
deriving DecidableEq

/-- the connection a control message makes the sink -/
def Msg.sinkAdd (m : Msg) : Option ℕ := if m.kind = .MSG_SINK_ADD then m.conn else none

theorem sinkAdd_eq_some {m : Msg} {c : ℕ} : m.sinkAdd = some c ↔ m.adds c := by
  unfold Msg.sinkAdd Msg.adds
  split_ifs with h <;> simp [h]

def Srv.cell (s : Srv) : Place → List ℕ
  | .fetched => s.fetched
  | .queue => s.queue.items
  | .worker w => (s.workers w).holds.toList
  | .park => s.sys.park
  | .hand => s.sys.pc.hand.toList
  | .ctrl => s.sys.ctrlQueue.items.filterMap Msg.sinkAdd
  | .sink => s.sys.agg.sink.toList

/-! ## Every connection is in one place at most -/

variable {conf : ServerConfig} {s t : Srv} {w : ℕ}

/-- what a place asks of the connections it holds -/
def Srv.Fits (s : Srv) : Place → Conn → Prop
  | .fetched, v | .queue, v => v.reg = .disabled
  | .worker w, v => v.reg = (s.workers w).reg ∧ Local (s.workers w) v
  | .park, v | .hand, v => v.reg = .absent ∨ v.reg = .disabled
  | .ctrl, v | .sink, v => v.reg = .absent ∧ v.role = .ROLE_SINK

theorem Srv.Fits.unarmed {p : Place} {v : Conn} (h : s.Fits p v) (out : Bool) : v.reg ≠ .armed out := by
  intro hr
  cases p with
  | worker w =>
    have h1 : v.reg = (s.workers w).reg := h.1
    rw [hr] at h1
    cases hw : s.workers w <;> rw [hw] at h1 <;> cases h1
  | park | hand =>
    rcases h with h1 | h1 <;> rw [hr] at h1 <;> cases h1
  | ctrl | sink => have h1 : v.reg = .absent := h.1; rw [hr] at h1; cases h1
  | fetched | queue => have h1 : v.reg = .disabled := h; rw [hr] at h1; cases h1

/-- what holds of one connection -/
structure Fine (s : Srv) (c : ℕ) : Prop where
  id : (s.conn c).id = c
  fits : ∀ p, c ∈ s.cell p → s.Fits p (s.conn c)
  known : Owned s.cell c ∨ (∃ w, s.workers w = .parkDel c) → c < s.nextId
  dead : s.nextId ≤ c → (s.conn c).live = false
  del : ∀ w, s.workers w = .parkDel c → (s.conn c).reg = .disabled ∧ ∀ p, c ∈ s.cell p → p = .park ∨ p = .hand
  one : ∀ w w', s.workers w = .parkDel c → s.workers w' = .parkDel c → w = w'

structure Good (s : Srv) : Prop where
  excl : Exclusive s.cell
  fine : ∀ c, Fine s c
  dataQueue : s.sys.dataQueue.shutdown = false
  draining : s.sys.pc.draining = false

/-- the places see no difference between two versions of a connection -/
structure Alike (a b : Conn) : Prop where
  id : b.id = a.id
  reg : b.reg = a.reg
  live : b.live = a.live
  role : b.role = a.role
  state : b.state = a.state

theorem Alike.refl (a : Conn) : Alike a a := ⟨rfl, rfl, rfl, rfl, rfl⟩

theorem Alike.local {a b : Conn} (h : Alike a b) {p : WPc} (hl : Local p a) : Local p b := by
  cases p with
  | hsSend c => exact h.state.trans hl
  | handoffDel c => exact h.role.trans hl
  | handoffPush c => exact h.role.trans hl
  | apply c disp => exact hl
  | _ => trivial

theorem Srv.Fits.alike {a b : Conn} {p : Place} (hf : s.Fits p a) (h : Alike a b) : s.Fits p b := by
  cases p with
  | worker w => exact ⟨h.reg.trans hf.1, h.local hf.2⟩
  | fetched | queue => exact h.reg.trans hf
  | park | hand =>
    rcases hf with hf | hf
    · exact .inl (h.reg.trans hf)
    · exact .inr (h.reg.trans hf)
  | ctrl | sink => exact ⟨h.reg.trans hf.1, h.role.trans hf.2⟩

/-- a step leaves a connection it does not touch as it was -/
theorem Fine.frame {d : ℕ} (h : Fine s d) (hconn : Alike (s.conn d) (t.conn d))
    (hcell : ∀ p, d ∈ t.cell p → d ∈ s.cell p) (hwork : ∀ w, (t.workers w).about d → t.workers w = s.workers w)
    (hnext : s.nextId ≤ t.nextId) : Fine t d where
  id := hconn.id.trans h.id
  fits p hp := by
    have hf := (h.fits p (hcell p hp)).alike hconn
    cases p with
    | worker w =>
      have hw := hwork w (.inl (by simpa [Srv.cell] using hp))
      exact ⟨by rw [hw]; exact hf.1, by rw [hw]; exact hf.2⟩
    | _ => exact hf
  known hk := by
    refine lt_of_lt_of_le (h.known ?_) hnext
    rcases hk with ⟨p, hp⟩ | ⟨w, hw⟩
    · exact .inl ⟨p, hcell p hp⟩
    · exact .inr ⟨w, by rw [← hwork w (.inr hw)]; exact hw⟩
  dead hd := hconn.live.trans (h.dead (hnext.trans hd))
  del w hw := by
    obtain ⟨h1, h2⟩ := h.del w (by rw [← hwork w (.inr hw)]; exact hw)
    exact ⟨hconn.reg.trans h1, fun p hp => h2 p (hcell p hp)⟩
  one w w' hw hw' := h.one w w' (by rw [← hwork w (.inr hw)]; exact hw) (by rw [← hwork w' (.inr hw')]; exact hw')

/-- a connection in one place, which is not behind `parkListPush` -/
theorem Fine.held {c : ℕ} {p : Place} (hid : (t.conn c).id = c) (hat : ∀ q, c ∈ t.cell q → q = p)
    (hfits : t.Fits p (t.conn c)) (hc : c < t.nextId) (hdel : ∀ w, t.workers w ≠ .parkDel c) : Fine t c where
  id := hid
  fits q hq := by rw [hat q hq]; exact hfits
  known _ := hc
  dead hd := absurd hc (not_lt.2 hd)
  del w hw := absurd hw (hdel w)
  one w _ hw := absurd hw (hdel w)

/-- a connection in no place -/
theorem Fine.free {c : ℕ} (hid : (t.conn c).id = c) (hnone : ∀ q, c ∉ t.cell q) (hc : c < t.nextId)
    (hdel : ∀ w, t.workers w ≠ .parkDel c) : Fine t c where
  id := hid
  fits q hq := absurd hq (hnone q)
  known _ := hc
  dead hd := absurd hc (not_lt.2 hd)
  del w hw := absurd hw (hdel w)
  one w _ hw := absurd hw (hdel w)

theorem Good.known (hg : Good s) {c : ℕ} {p : Place} (hc : c ∈ s.cell p) : c < s.nextId :=
  (hg.fine c).known (.inl ⟨p, hc⟩)

/-- a connection in a place other than the park list and the aggregator's hands is not behind `parkListPush` -/
theorem Good.not_del (hg : Good s) {c : ℕ} {p : Place} (hc : c ∈ s.cell p) (hp : p ≠ .park) (hp' : p ≠ .hand) (w : ℕ) :
    s.workers w ≠ .parkDel c := by
  intro hw
  rcases ((hg.fine c).del w hw).2 p hc with h | h
  · exact hp h
  · exact hp' h

/-- **A step that touches one connection is judged on that connection alone.** -/
theorem Good.alone {c : ℕ} (hg : Good s) (hexcl : Exclusive t.cell) (hconn : ∀ d, d ≠ c → t.conn d = s.conn d)
    (hcell : ∀ p d, d ≠ c → d ∈ t.cell p → d ∈ s.cell p)
    (hwork : ∀ w d, d ≠ c → (t.workers w).about d → t.workers w = s.workers w) (hnext : s.nextId ≤ t.nextId)
    (hdata : t.sys.dataQueue.shutdown = s.sys.dataQueue.shutdown) (hpc : t.sys.pc.draining = false)
    (hc : Fine t c) : Good t where
  excl := hexcl
  fine d := by
    by_cases hd : d = c
    · rwa [hd]
    · exact (hg.fine d).frame (hconn d hd ▸ .refl _) (fun p => hcell p d hd) (fun w => hwork w d hd) hnext
  dataQueue := hdata.trans hg.dataQueue
  draining := hpc

/-! ### The places after a worker's step -/

theorem mem_worker {c : ℕ} : c ∈ s.cell (.worker w) ↔ (s.workers w).holds = some c := by
  simp [Srv.cell]

theorem setConn_conn_of_ne {c d : ℕ} (v : Conn) (h : d ≠ c) : (s.setConn c v).conn d = s.conn d := by
  simp [Srv.setConn, Srv.conn, h]

@[simp] theorem setConn_conn_self (s : Srv) (c : ℕ) (v : Conn) : (s.setConn c v).conn c = v := by
  simp [Srv.setConn, Srv.conn]

variable {p : WPc} {c : ℕ}

/-- the places of the workers, when one of them has moved -/
theorem cell_worker (hworkers : t.workers = Function.update s.workers w p) (w' : ℕ) :
    t.cell (.worker w') = Function.update s.cell (.worker w) p.holds.toList (.worker w') := by
  by_cases h : w' = w
  · subst h; simp [Srv.cell, hworkers]
  · rw [Function.update_of_ne (by simpa using h)]
    simp [Srv.cell, hworkers, h]

/-- a worker lets go of what it holds -/
theorem cell_idle (s : Srv) (w c : ℕ) (v : Conn) :
    ((s.setConn c v).goto w .idle).cell = Function.update s.cell (.worker w) [] := by
  funext r
  cases r with
  | worker w' => exact cell_worker (s := s) (p := .idle) rfl w'
  | _ => rfl

/-- the other workers stand where they stood -/
theorem about_stay (hworkers : t.workers = Function.update s.workers w p) (h : ∀ d, p.about d → d = c) (w' d : ℕ)
    (hd : d ≠ c) (ha : (t.workers w').about d) : t.workers w' = s.workers w' := by
  rw [hworkers] at ha ⊢
  by_cases hw : w' = w
  · subst hw
    rw [Function.update_self] at ha
    exact absurd (h d ha) hd
  · rw [Function.update_of_ne hw]

/-- so do all that are about a connection, when one becomes idle -/
theorem about_idle (hworkers : t.workers = Function.update s.workers w .idle) (w' d : ℕ) (ha : (t.workers w').about d) :
    t.workers w' = s.workers w' := by
  rw [hworkers] at ha ⊢
  by_cases hw : w' = w
  · subst hw
    rw [Function.update_self] at ha
    rcases ha with ha | ha <;> cases ha
  · rw [Function.update_of_ne hw]

theorem about_of_holds (hp : p.holds = some c) (d : ℕ) (hd : p.about d) : d = c := by
  rcases hd with hd | rfl
  · rw [hp] at hd; exact (Option.some.inj hd).symm
  · cases hp

theorem not_del_of (hworkers : t.workers = Function.update s.workers w p) (hp : p ≠ .parkDel c)
    (hdel : ∀ w', s.workers w' ≠ .parkDel c) (w' : ℕ) : t.workers w' ≠ .parkDel c := by
  rw [hworkers]
  by_cases hw : w' = w
  · subst hw; rwa [Function.update_self]
  · rw [Function.update_of_ne hw]; exact hdel w'

/-- a connection is handed over -/
theorem Good.transfer {l : List ℕ} (r r' : Place) (hg : Good s) (hperm : (s.cell r).Perm (c :: l)) (hr : r' ≠ r)
    (hcell : t.cell = Function.update (Function.update s.cell r l) r' (s.cell r' ++ [c]))
    (hconn : ∀ d, d ≠ c → t.conn d = s.conn d)
    (hwork : ∀ w d, d ≠ c → (t.workers w).about d → t.workers w = s.workers w) (hnext : t.nextId = s.nextId)
    (hdata : t.sys.dataQueue.shutdown = s.sys.dataQueue.shutdown) (hpc : t.sys.pc.draining = false)
    (hc : (∀ q, c ∈ t.cell q → q = r') → Fine t c) : Good t := by
  have hexcl := hg.excl.transfer hperm hr
  rw [← hcell] at hexcl
  refine hg.alone hexcl hconn (fun q d hd hq => ?_) hwork hnext.ge hdata hpc (hc fun q hq => ?_)
  · rw [hcell] at hq
    rcases mem_transfer hr hq with ⟨-, h⟩ | ⟨rfl, h⟩ | ⟨-, h⟩
    · exact absurd h hd
    · exact hperm.mem_iff.2 (List.mem_cons_of_mem _ h)
    · exact h
  · exact hexcl.only q r' c hq (by rw [hcell]; simp)

/-- a connection leaves its place, and is in none behind it -/
theorem Good.release {l : List ℕ} (r : Place) (hg : Good s) (hperm : (s.cell r).Perm (c :: l)) (hpark : r ≠ .park)
    (hhand : r ≠ .hand) (hcell : t.cell = Function.update s.cell r l) (hconn : ∀ d, d ≠ c → t.conn d = s.conn d)
    (hid : (t.conn c).id = (s.conn c).id) (hwork : ∀ w d, (t.workers w).about d → t.workers w = s.workers w)
    (hnext : t.nextId = s.nextId) (hdata : t.sys.dataQueue.shutdown = s.sys.dataQueue.shutdown)
    (hpc : t.sys.pc.draining = false) : Good t := by
  have hmem : c ∈ s.cell r := hperm.mem_iff.2 List.mem_cons_self
  have hnone : ∀ q, c ∉ t.cell q := by
    rw [hcell]
    exact hg.excl.drop_free hperm
  refine hg.alone (c := c) (hcell ▸ hg.excl.drop hperm) hconn (fun q d _ hq => ?_) (fun w d _ => hwork w d) hnext.ge hdata hpc ?_
  · rw [hcell] at hq
    rcases mem_update.1 hq with ⟨rfl, h⟩ | ⟨-, h⟩
    · exact hperm.mem_iff.2 (List.mem_cons_of_mem _ h)
    · exact h
  · refine Fine.free (hid.trans (hg.fine c).id) hnone (hnext ▸ hg.known hmem) fun w hw => ?_
    have hsame := hwork w c (.inr hw)
    exact hg.not_del hmem hpark hhand w (hsame.symm.trans hw)

/-- a worker keeps the connection it holds, and changes no connection but it -/
theorem Good.stay (hg : Good s) (hw : (s.workers w).holds = some c) (hp : p.holds = some c)
    (hworkers : t.workers = Function.update s.workers w p) (hrest : ∀ q, (∀ w', q ≠ .worker w') → t.cell q = s.cell q)
    (hconn : ∀ d, d ≠ c → t.conn d = s.conn d) (hid : (t.conn c).id = (s.conn c).id) (hreg : (t.conn c).reg = p.reg)
    (hl : Local p (t.conn c)) (hnext : t.nextId = s.nextId)
    (hdata : t.sys.dataQueue.shutdown = s.sys.dataQueue.shutdown) (hpc : t.sys.pc = s.sys.pc) : Good t := by
  have hmem : c ∈ s.cell (.worker w) := mem_worker.2 hw
  have hcell : t.cell = s.cell := by
    funext q
    cases q with
    | worker w' =>
      rw [cell_worker hworkers, hp, ← hw]
      exact congrFun (Function.update_eq_self (.worker w) s.cell) _
    | _ => exact hrest _ nofun
  refine hg.alone (c := c) (hcell ▸ hg.excl) hconn (fun r d _ hd => hcell ▸ hd)
    (about_stay hworkers (about_of_holds hp)) hnext.ge hdata (hpc ▸ hg.draining) ?_
  refine Fine.held (p := .worker w) (hid.trans (hg.fine c).id) (fun r hr => ?_) ?_ (hnext ▸ hg.known hmem) ?_
  · rw [hcell] at hr
    exact hg.excl.only r _ c hr hmem
  · have : t.workers w = p := by rw [hworkers, Function.update_self]
    exact ⟨this ▸ hreg, this ▸ hl⟩
  · exact not_del_of hworkers (by rintro rfl; cases hp) (hg.not_del hmem nofun nofun)

theorem goto_setConn (s : Srv) (w c : ℕ) (v : Conn) (p : WPc) : ((s.setConn c v).goto w p).conn c = v :=
  setConn_conn_self s c v

/-- what a worker holds is registered as its place asks -/
theorem Good.worker (hg : Good s) (hw : (s.workers w).holds = some c) :
    (s.conn c).reg = (s.workers w).reg ∧ Local (s.workers w) (s.conn c) :=
  (hg.fine c).fits _ (mem_worker.2 hw)

/-- a worker's step keeps everything in its place -/
theorem WShift.good (hg : Good s) (h : WShift conf s w t) : Good t := by
  cases h with
  | take c q hw hq _ =>
    have hmem : c ∈ s.cell .queue := by simp [Srv.cell, hq]
    refine hg.transfer .queue (.worker w) (c := c) (l := q.items) (by simp [Srv.cell, hq]) nofun ?_
      (fun _ _ => rfl) (about_stay rfl (about_of_holds rfl)) rfl rfl hg.draining fun hat => ?_
    · have hidle : s.cell (.worker w) = [] := by simp [Srv.cell, hw, WPc.holds]
      funext r
      rw [hidle]
      cases r with
      | worker w' =>
        rw [cell_worker (s := s) (p := .run c) rfl w']
        by_cases h : w' = w
        · subst h; simp; rfl
        · simp [h]
      | _ => rfl
    · have hreg : (s.conn c).reg = .disabled := (hg.fine c).fits _ hmem
      refine Fine.held (hg.fine c).id hat ?_ (hg.known hmem) (not_del_of (s := s) rfl nofun (hg.not_del hmem nofun nofun))
      refine ⟨?_, ?_⟩ <;> simp only [Srv.goto, Function.update_self]
      · exact hreg
      · trivial
  | think c v p hw hp htouch hl =>
    obtain ⟨hw1, -, hw3, -⟩ := WPc.works_spec hw
    obtain ⟨hp1, -, hp3, -⟩ := WPc.works_spec hp
    obtain ⟨hreg, hlocal⟩ := hg.worker hw1
    refine hg.stay hw1 hp1 rfl (fun q hq => by cases q <;> first | rfl | exact absurd rfl (hq _))
      (fun d hd => setConn_conn_of_ne v hd) ?_ ?_ ?_ rfl rfl rfl
    · rw [goto_setConn]; exact htouch.id
    · rw [goto_setConn]; exact htouch.reg.trans (hreg.trans (hw3.trans hp3.symm))
    · rw [goto_setConn]; exact (hl hlocal).1
  | complete c eof m v hw htouch _ =>
    have hw1 : (s.workers w).holds = some c := by rw [hw]; rfl
    have hreg : (s.conn c).reg = .disabled := by rw [(hg.worker hw1).1, hw]; rfl
    refine hg.stay hw1 (p := .check c eof m) rfl rfl (fun q hq => by cases q <;> first | rfl | exact absurd rfl (hq _))
      (fun d hd => setConn_conn_of_ne v hd) ?_ ?_ trivial rfl rfl rfl
    · exact (congrArg Conn.id (goto_setConn s w c v .idle)).trans htouch.id
    · exact (congrArg Conn.reg (goto_setConn s w c v .idle)).trans (htouch.reg.trans hreg)
  | decide c eof m p hw hp =>
    have hw1 : (s.workers w).holds = some c := by rw [hw]; rfl
    have hreg : (s.conn c).reg = .disabled := by rw [(hg.worker hw1).1, hw]; rfl
    rcases hp with rfl | rfl
    all_goals
      exact hg.stay hw1 rfl rfl (fun q hq => by cases q <;> first | rfl | exact absurd rfl (hq _))
        (fun d _ => rfl) rfl hreg trivial rfl rfl rfl
  | push c eof m hw =>
    have hw1 : (s.workers w).holds = some c := by rw [hw]; rfl
    have hreg : (s.conn c).reg = .disabled := by rw [(hg.worker hw1).1, hw]; rfl
    exact hg.stay (p := .loop c eof) hw1 rfl rfl (fun q hq => by cases q <;> first | rfl | exact absurd rfl (hq _))
      (fun d _ => rfl) rfl hreg trivial rfl rfl rfl
  | parkStore c m hw =>
    have hw1 : (s.workers w).holds = some c := by rw [hw]; rfl
    have hreg : (s.conn c).reg = .disabled := by rw [(hg.worker hw1).1, hw]; rfl
    refine hg.stay (p := .parkPush c) hw1 rfl rfl (fun q hq => by cases q <;> first | rfl | exact absurd rfl (hq _))
      (fun d hd => setConn_conn_of_ne _ hd) ?_ ?_ trivial rfl rfl rfl
    · rw [goto_setConn]
    · rw [goto_setConn]; exact hreg
  | handoffDel c hw =>
    have hw1 : (s.workers w).holds = some c := by rw [hw]; rfl
    have hrole : (s.conn c).role = .ROLE_SINK := by have hl := (hg.worker hw1).2; rwa [hw] at hl
    refine hg.stay (p := .handoffPush c) hw1 rfl rfl (fun q hq => by cases q <;> first | rfl | exact absurd rfl (hq _))
      (fun d hd => setConn_conn_of_ne _ hd) ?_ ?_ ?_ rfl rfl rfl
    · rw [goto_setConn]
    · rw [goto_setConn]; rfl
    · rw [goto_setConn]; exact hrole
  | parkPush c hw =>
    have hw1 : (s.workers w).holds = some c := by rw [hw]; rfl
    have hmem : c ∈ s.cell (.worker w) := mem_worker.2 hw1
    have hreg : (s.conn c).reg = .disabled := by rw [(hg.worker hw1).1, hw]; rfl
    have hdel := hg.not_del hmem nofun nofun
    -- the only worker behind `parkListPush` with `c` is this one
    have honly : ∀ w', (Function.update s.workers w (.parkDel c)) w' = .parkDel c → w' = w := by
      intro w' hw'
      by_contra hne
      rw [Function.update_of_ne hne] at hw'
      exact hdel w' hw'
    refine hg.transfer (.worker w) .park (c := c) (l := []) (by simp [Srv.cell, hw1]) nofun ?_
      (fun _ _ => rfl) (about_stay rfl ?_) rfl rfl hg.draining fun hat => ?_
    · funext r
      cases r with
      | worker w' => rw [cell_worker (s := s) (p := .parkDel c) rfl w']; simp; rfl
      | park => simp; rfl
      | _ => rfl
    · rintro d (hd | hd)
      · cases hd
      · exact (WPc.parkDel.inj hd).symm
    · exact {
        id := (hg.fine c).id
        fits := fun q hq => by rw [hat q hq]; exact .inr hreg
        known := fun _ => hg.known hmem
        dead := (hg.fine c).dead
        del := fun _ _ => ⟨hreg, fun q hq => .inl (hat q hq)⟩
        one := fun w1 w2 h1 h2 => (honly w1 h1).trans (honly w2 h2).symm }
  | parkDel c hw =>
    obtain ⟨-, hplace⟩ := (hg.fine c).del w hw
    have hcell : ((s.setConn c { s.conn c with reg := .absent }).goto w .idle).cell = s.cell := by
      funext q
      cases q with
      | worker w' =>
        rw [cell_worker (s := s) (p := .idle) rfl w', show (WPc.idle).holds = (s.workers w).holds by rw [hw]; rfl]
        exact congrFun (Function.update_eq_self (.worker w) s.cell) _
      | _ => rfl
    -- nobody is behind `parkListPush` with `c` any more
    have hnone : ∀ w', Function.update s.workers w .idle w' ≠ .parkDel c := by
      intro w'
      by_cases hne : w' = w
      · subst hne; rw [Function.update_self]; nofun
      · rw [Function.update_of_ne hne]; exact fun h => hne ((hg.fine c).one w' w h hw)
    have hconn := goto_setConn s w c { s.conn c with reg := .absent } .idle
    refine hg.alone (c := c) (hcell ▸ hg.excl) (fun d hd => setConn_conn_of_ne _ hd) (fun r d _ hd => hcell ▸ hd)
      (about_stay rfl ?_) le_rfl rfl hg.draining ?_
    · rintro d (hd | hd) <;> cases hd
    · exact {
        id := by rw [hconn]; exact (hg.fine c).id
        fits := fun q hq => by
          rw [hcell] at hq
          rw [hconn]
          rcases hplace q hq with rfl | rfl
          · exact .inl rfl
          · exact .inl rfl
        known := fun _ => (hg.fine c).known (.inr ⟨w, hw⟩)
        dead := fun hd => by rw [hconn]; exact (hg.fine c).dead hd
        del := fun w' hw' => absurd hw' (hnone w')
        one := fun w' _ hw' => absurd hw' (hnone w') }
  | handoffPush c hw =>
    have hw1 : (s.workers w).holds = some c := by rw [hw]; rfl
    have hmem : c ∈ s.cell (.worker w) := mem_worker.2 hw1
    obtain ⟨hreg, hl⟩ := hg.worker hw1
    rw [hw] at hreg hl
    refine hg.transfer (.worker w) .ctrl (c := c) (l := []) (by simp [Srv.cell, hw1]) nofun ?_
      (fun _ _ => rfl) (about_stay rfl ?_) rfl rfl hg.draining fun hat => ?_
    · funext r
      cases r with
      | worker w' => rw [cell_worker (s := s) (p := .idle) rfl w']; simp; rfl
      | ctrl => simp [Srv.cell, Srv.goto, msgNewSinkAdd, Msg.sinkAdd]
      | _ => rfl
    · rintro d (hd | hd) <;> cases hd
    · exact Fine.held (hg.fine c).id hat ⟨hreg, hl⟩ (hg.known hmem)
        (not_del_of (s := s) rfl nofun (hg.not_del hmem nofun nofun))
  | apply c disp hw =>
    have hw1 : (s.workers w).holds = some c := by rw [hw]; rfl
    have hperm : (s.cell (.worker w)).Perm (c :: []) := by simp [Srv.cell, hw1]
    refine hg.release (.worker w) hperm nofun nofun (cell_idle s w c _) (fun d hd => setConn_conn_of_ne _ hd) ?_
      (about_idle rfl) rfl rfl hg.draining
    rw [goto_setConn, applyDisposition_id]

/-- a connection the worker is not about stays as it is -/
theorem WShift.untouched {d : ℕ} (h : WShift conf s w t) (hd : ¬ (s.workers w).about d) : t.conn d = s.conn d := by
  have hne : ∀ {c : ℕ}, (s.workers w).about c → d ≠ c := by rintro c hc rfl; exact hd hc
  cases h with
  | take | decide | push | parkPush | handoffPush => rfl
  | think c v p hw => exact setConn_conn_of_ne v (hne (.inl (WPc.works_spec hw).1))
  | complete c eof m v hw => exact setConn_conn_of_ne v (hne (.inl (by rw [hw]; rfl)))
  | parkStore c m hw => exact setConn_conn_of_ne _ (hne (.inl (by rw [hw]; rfl)))
  | parkDel c hw => exact setConn_conn_of_ne _ (hne (.inr hw))
  | handoffDel c hw => exact setConn_conn_of_ne _ (hne (.inl (by rw [hw]; rfl)))
  | apply c disp hw => exact setConn_conn_of_ne _ (hne (.inl (by rw [hw]; rfl)))

theorem applyDisposition_live {v : Conn} {disp : Disposition} (h : disp ≠ .DISP_CLOSE) :
    (applyDisposition v disp).live = v.live := by
  have hrearm : ∀ out, (rearmEpoll v out).live = v.live := by
    intro out
    unfold rearmEpoll
    split_ifs <;> rfl
  cases disp with
  | DISP_REARM_IN => exact hrearm false
  | DISP_REARM_OUT | DISP_REARM_INOUT => exact hrearm true
  | DISP_CLOSE => exact absurd rfl h
  | DISP_PARKED | DISP_HANDOFF => rfl

theorem setConn_live {x : ℕ} {v : Conn} (h : v.live = (s.conn c).live) : ((s.setConn c v).conn x).live = (s.conn x).live := by
  by_cases hx : x = c
  · subst hx
    rw [setConn_conn_self]
    exact h
  · rw [setConn_conn_of_ne v hx]

/-- a worker closes a connection in `applyDisposition` only -/
theorem WShift.live {x : ℕ} (h : WShift conf s w t) (hw : s.workers w ≠ .apply x .DISP_CLOSE) :
    (t.conn x).live = (s.conn x).live := by
  cases h with
  | take | decide | push | parkPush | handoffPush => rfl
  | think c v p _ _ htouch => exact setConn_live htouch.live
  | complete c eof m v _ htouch => exact setConn_live htouch.live
  | parkStore | parkDel | handoffDel => exact setConn_live rfl
  | apply c disp happly =>
    by_cases hx : x = c
    · subst hx
      refine setConn_live (applyDisposition_live fun hdisp => hw ?_)
      rw [happly, hdisp]
    · exact congrArg Conn.live (setConn_conn_of_ne _ hx)

/-- the lists only grow, and the other workers stand where they stood -/
theorem owned_worker {d : ℕ} (hworkers : t.workers = Function.update s.workers w p) (hfetched : t.fetched = s.fetched)
    (hqueue : d ∈ s.queue.items → Owned t.cell d) (hpark : s.sys.park ⊆ t.sys.park) (hpc : t.sys.pc = s.sys.pc)
    (hctrl : s.sys.ctrlQueue.items ⊆ t.sys.ctrlQueue.items) (hsink : t.sys.agg.sink = s.sys.agg.sink)
    (hd : Owned s.cell d) (hw : (s.workers w).holds = some d → Owned t.cell d) : Owned t.cell d := by
  obtain ⟨q, hq⟩ := hd
  cases q with
  | worker w' =>
    by_cases h : w' = w
    · subst h; exact hw (mem_worker.1 hq)
    · refine ⟨.worker w', mem_worker.2 ?_⟩
      rw [hworkers, Function.update_of_ne h]
      exact mem_worker.1 hq
  | fetched => exact ⟨.fetched, by simpa only [Srv.cell, hfetched] using hq⟩
  | queue => exact hqueue hq
  | park => exact ⟨.park, hpark hq⟩
  | hand => exact ⟨.hand, by simpa only [Srv.cell, hpc] using hq⟩
  | ctrl =>
    obtain ⟨m, hm, hadd⟩ := List.mem_filterMap.1 hq
    exact ⟨.ctrl, List.mem_filterMap.2 ⟨m, hctrl hm, hadd⟩⟩
  | sink => exact ⟨.sink, by simpa only [Srv.cell, hsink] using hq⟩

/-- a worker loses hold of a connection in `applyDisposition` only -/
theorem WShift.owned {d : ℕ} (h : WShift conf s w t) (hd : Owned s.cell d) (hw : ∀ disp, s.workers w ≠ .apply d disp) :
    Owned t.cell d := by
  have hat : (t.workers w).holds = some d → Owned t.cell d := fun h => ⟨.worker w, mem_worker.2 h⟩
  have hsub : ∀ {α : Type} (l : List α), l ⊆ l := fun l => List.Subset.refl l
  cases h with
  | take c q hw1 hq _ =>
    refine owned_worker (s := s) (w := w) rfl rfl (fun h => ?_) (hsub _) rfl (hsub _) rfl hd fun h => ?_
    · rw [hq, List.mem_cons] at h
      rcases h with rfl | h
      · exact hat (by simp [Srv.goto, WPc.holds])
      · exact ⟨.queue, h⟩
    · rw [hw1] at h; cases h
  | think c v p hw1 hp _ _ =>
    refine owned_worker (s := s) (w := w) rfl rfl (fun h => ⟨.queue, h⟩) (hsub _) rfl (hsub _) rfl hd fun h => hat ?_
    rw [(WPc.works_spec hw1).1] at h
    simpa [Srv.goto] using (WPc.works_spec hp).1.trans h
  | complete c eof m v hw1 _ _ =>
    refine owned_worker (s := s) (w := w) rfl rfl (fun h => ⟨.queue, h⟩) (hsub _) rfl (hsub _) rfl hd fun h => hat ?_
    rw [hw1] at h
    simpa [Srv.goto, WPc.holds] using h
  | decide c eof m p hw1 hp =>
    refine owned_worker (s := s) (w := w) rfl rfl (fun h => ⟨.queue, h⟩) (hsub _) rfl (hsub _) rfl hd fun h => hat ?_
    rw [hw1] at h
    rcases hp with rfl | rfl <;> simpa [Srv.goto, WPc.holds] using h
  | push c eof m hw1 =>
    refine owned_worker (s := s) (w := w) rfl rfl (fun h => ⟨.queue, h⟩) (hsub _) rfl (hsub _) rfl hd fun h => hat ?_
    rw [hw1] at h
    simpa [Srv.goto, WPc.holds] using h
  | parkStore c m hw1 =>
    refine owned_worker (s := s) (w := w) rfl rfl (fun h => ⟨.queue, h⟩) (hsub _) rfl (hsub _) rfl hd fun h => hat ?_
    rw [hw1] at h
    simpa [Srv.goto, WPc.holds] using h
  | parkPush c hw1 =>
    refine owned_worker (s := s) (w := w) rfl rfl (fun h => ⟨.queue, h⟩) (List.subset_append_left _ _) rfl (hsub _) rfl hd
      fun h => ⟨.park, ?_⟩
    rw [hw1] at h
    obtain rfl := Option.some.inj h
    exact List.mem_append_right _ (List.mem_singleton_self _)
  | parkDel c hw1 =>
    refine owned_worker (s := s) (w := w) rfl rfl (fun h => ⟨.queue, h⟩) (hsub _) rfl (hsub _) rfl hd fun h => ?_
    rw [hw1] at h
    cases h
  | handoffDel c hw1 =>
    refine owned_worker (s := s) (w := w) rfl rfl (fun h => ⟨.queue, h⟩) (hsub _) rfl (hsub _) rfl hd fun h => hat ?_
    rw [hw1] at h
    simpa [Srv.goto, WPc.holds] using h
  | handoffPush c hw1 =>
    refine owned_worker (s := s) (w := w) rfl rfl (fun h => ⟨.queue, h⟩) (hsub _) rfl (List.subset_append_left _ _) rfl hd
      fun h => ⟨.ctrl, ?_⟩
    rw [hw1] at h
    obtain rfl := Option.some.inj h
    simp [Srv.cell, Srv.goto, msgNewSinkAdd, Msg.sinkAdd]
  | apply c disp hw1 =>
    refine owned_worker (s := s) (w := w) rfl rfl (fun h => ⟨.queue, h⟩) (hsub _) rfl (hsub _) rfl hd fun h => ?_
    rw [hw1] at h
    obtain rfl := Option.some.inj h
    exact absurd hw1 (hw disp)

/-! ### The other steps -/

/-- **A step that changes no connection in a way the places see**, and hands none over. -/
theorem Good.frame (hg : Good s) (hexcl : Exclusive t.cell) (hconn : ∀ d, Alike (s.conn d) (t.conn d))
    (hcell : ∀ p d, d ∈ t.cell p → d ∈ s.cell p) (hwork : t.workers = s.workers) (hnext : t.nextId = s.nextId)
    (hdata : t.sys.dataQueue.shutdown = s.sys.dataQueue.shutdown) (hpc : t.sys.pc.draining = false) : Good t where
  excl := hexcl
  fine d := (hg.fine d).frame (hconn d) (fun p => hcell p d) (fun w _ => congrFun hwork w) hnext.ge
  dataQueue := hdata.trans hg.dataQueue
  draining := hpc

/-- a new connection is in no place -/
theorem new_good (hg : Good s) {v : Conn} (hv : v.id = s.nextId) :
    Good { s.setConn s.nextId v with nextId := s.nextId + 1 } := by
  have hnew : ¬ (Owned s.cell s.nextId ∨ ∃ w, s.workers w = .parkDel s.nextId) := fun h =>
    lt_irrefl _ ((hg.fine s.nextId).known h)
  have hcell : ({ s.setConn s.nextId v with nextId := s.nextId + 1 } : Srv).cell = s.cell := by
    funext p; cases p <;> rfl
  refine hg.alone (c := s.nextId) (hcell ▸ hg.excl) (fun d hd => setConn_conn_of_ne _ hd) (fun p d _ hd => hcell ▸ hd)
    (fun w d _ _ => rfl) (Nat.le_succ _) rfl hg.draining ?_
  refine Fine.free ?_ (fun p hp => ?_) (Nat.lt_succ_self _) fun w hw => hnew (.inr ⟨w, hw⟩)
  · exact (congrArg Conn.id (setConn_conn_self s s.nextId v)).trans hv
  · rw [hcell] at hp
    exact hnew (.inl ⟨p, hp⟩)

theorem deliver_good (hg : Good s) (c : ℕ) (k : Sock) : Good (s.setConn c { s.conn c with sock := k }) := by
  have hcell : (s.setConn c { s.conn c with sock := k }).cell = s.cell := by funext p; cases p <;> rfl
  refine hg.frame (hcell ▸ hg.excl) (fun d => ?_) (fun p d hd => hcell ▸ hd) rfl rfl rfl hg.draining
  by_cases hd : d = c
  · subst hd; rw [setConn_conn_self]; exact ⟨rfl, rfl, rfl, rfl, rfl⟩
  · rw [setConn_conn_of_ne _ hd]; exact .refl _

/-- an armed connection is in no place -/
theorem Good.armed_free (hg : Good s) {out : Bool} (h : (s.conn c).reg = .armed out) (p : Place) : c ∉ s.cell p :=
  fun hc => ((hg.fine c).fits p hc).unarmed out h

theorem Good.armed_not_del (hg : Good s) {out : Bool} (h : (s.conn c).reg = .armed out) (w : ℕ) :
    s.workers w ≠ .parkDel c := by
  intro hw
  have h1 := ((hg.fine c).del w hw).1
  rw [h] at h1
  cases h1

theorem fetch_good (hg : Good s) (hlive : (s.conn c).live = true) {out : Bool} (hreg : (s.conn c).reg = .armed out) :
    Good { s.setConn c { s.conn c with reg := .disabled } with fetched := s.fetched ++ [c] } := by
  have hfree := hg.armed_free hreg
  have hcell : ({ s.setConn c { s.conn c with reg := .disabled } with fetched := s.fetched ++ [c] } : Srv).cell =
      Function.update s.cell .fetched (s.cell .fetched ++ [c]) := by
    funext p; cases p <;> rfl
  have hexcl : Exclusive (Function.update s.cell .fetched (s.cell .fetched ++ [c])) := hg.excl.enter hfree
  rw [← hcell] at hexcl
  refine hg.alone (c := c) hexcl (fun d hd => setConn_conn_of_ne _ hd) (fun p d hd hp => ?_) (fun w d _ _ => rfl) le_rfl rfl
    hg.draining ?_
  · rw [hcell] at hp
    rcases mem_update.1 hp with ⟨rfl, h⟩ | ⟨-, h⟩
    · rcases List.mem_append.1 h with h | h
      · exact h
      · exact absurd (List.mem_singleton.1 h) hd
    · exact h
  · have hlt : c < s.nextId := by
      by_contra h
      rw [(hg.fine c).dead (not_lt.1 h)] at hlive
      cases hlive
    refine Fine.held (p := .fetched) ?_ (fun q hq => hexcl.only q _ c hq ?_) ?_ hlt (hg.armed_not_del hreg)
    · exact (congrArg Conn.id (setConn_conn_self s c _)).trans (hg.fine c).id
    · rw [hcell]; simp
    · exact congrArg Conn.reg (setConn_conn_self s c { s.conn c with reg := .disabled })

theorem enqueue_good (hg : Good s) (hc : c ∈ s.fetched) :
    Good { s with fetched := s.fetched.erase c, queue := push s.queue c } := by
  refine hg.transfer .fetched .queue (c := c) (l := s.fetched.erase c) (List.perm_cons_erase hc) nofun ?_
    (fun _ _ => rfl) (fun w d _ _ => rfl) rfl rfl hg.draining fun hat => ?_
  · funext p; cases p <;> rfl
  · exact Fine.held (hg.fine c).id hat ((hg.fine c).fits .fetched hc) (hg.known (p := .fetched) hc)
      (hg.not_del (p := .fetched) hc nofun nofun)

/-! ### The aggregator's steps -/

variable {u : AggSys}

/-- **A step about the sink**: it may drop the sink, and make it one that was waiting for it in ctrlQueue. -/
theorem Good.sinkStep (who : ℕ → Prop) (hg : Good s) (hexcl : Exclusive ({ s with sys := u } : Srv).cell)
    (hcell : ∀ p d, d ∈ ({ s with sys := u } : Srv).cell p → d ∈ s.cell p ∨ p = .sink ∧ who d)
    (hwho : ∀ d, who d → d ∈ s.cell .ctrl) (hconn : ∀ d, s.sys.agg.sink ≠ some d → ¬ who d → u.conn d = s.sys.conn d)
    (hside : ∀ d, SinkSide (s.sys.conn d) (u.conn d)) (hdata : u.dataQueue.shutdown = s.sys.dataQueue.shutdown)
    (hpc : u.pc.draining = false) : Good { s with sys := u } where
  excl := hexcl
  dataQueue := hdata.trans hg.dataQueue
  draining := hpc
  fine d := by
    by_cases hd : d ∈ s.cell .ctrl ∨ d ∈ s.cell .sink
    · -- it is with the aggregator already, and stays out of epoll
      obtain ⟨p, hp, hmem⟩ : ∃ p, (p = .ctrl ∨ p = .sink) ∧ d ∈ s.cell p := by
        rcases hd with hd | hd
        · exact ⟨.ctrl, .inl rfl, hd⟩
        · exact ⟨.sink, .inr rfl, hd⟩
      have hfits : (s.conn d).reg = .absent ∧ (s.conn d).role = .ROLE_SINK := by
        have := (hg.fine d).fits p hmem
        rcases hp with rfl | rfl <;> exact this
      have hdel : ∀ w, s.workers w ≠ .parkDel d := by
        rcases hp with rfl | rfl <;> exact hg.not_del hmem nofun nofun
      have hreg : (u.conn d).reg = .absent := (hside d).reg.elim (·.trans hfits.1) id
      have hrole : (u.conn d).role = .ROLE_SINK := (hside d).role.elim (·.trans hfits.2) id
      refine {
        id := (hside d).id.trans (hg.fine d).id
        fits := fun q hq => ?_
        known := fun _ => hg.known hmem
        dead := fun h => absurd (hg.known hmem) (not_lt.2 h)
        del := fun w hw => absurd hw (hdel w)
        one := fun w _ hw => absurd hw (hdel w) }
      have hq' : q = .ctrl ∨ q = .sink := by
        rcases hcell q d hq with h | ⟨rfl, -⟩
        · rw [hg.excl.only q p d h hmem]; exact hp
        · exact .inr rfl
      rcases hq' with rfl | rfl <;> exact ⟨hreg, hrole⟩
    · push Not at hd
      have hsame : u.conn d = s.sys.conn d :=
        hconn d (fun h => hd.2 (by simp [Srv.cell, h])) fun h => hd.1 (hwho d h)
      refine (hg.fine d).frame (show Alike (s.sys.conn d) (u.conn d) from hsame ▸ .refl _) (fun p hp => ?_)
        (fun _ _ => rfl) le_rfl
      rcases hcell p d hp with h | ⟨-, h⟩
      · exact h
      · exact absurd (hwho d h) hd.1

theorem look_good {r : AggSys} {p : AggPc} (hg : Good s) (honly : SinkOnly (fun _ => False) s.sys r)
    (hp : p.hand = none) (hdrain : p.draining = false) :
    Good { s with sys := { r with pc := p } } := by
  have hsub : ∀ q, (({ s with sys := { r with pc := p } } : Srv).cell q).Sublist (s.cell q) := by
    intro q
    cases q with
    | fetched | queue | worker w => exact List.Sublist.refl _
    | park => exact (show r.park = s.sys.park from honly.park) ▸ List.Sublist.refl _
    | hand => simp [Srv.cell, hp]
    | ctrl => simp only [Srv.cell, honly.ctrlQueue]; exact List.Sublist.refl _
    | sink =>
      rcases honly.sink with h | h | ⟨c, hc, -⟩
      · simp only [Srv.cell, h]; exact List.Sublist.refl _
      · simp [Srv.cell, h]
      · exact hc.elim
  exact hg.sinkStep (fun _ => False) (hg.excl.mono hsub) (fun q d hd => .inl ((hsub q).subset hd))
    (fun d hd => hd.elim) honly.conn honly.side (congrArg Queue.shutdown honly.dataQueue) hdrain

theorem ctrl_good {m : Msg} {q : Queue Msg} (hg : Good s) (hq : trypop s.sys.ctrlQueue = some (m, q))
    (honly : SinkOnly m.adds { s.sys with ctrlQueue := q } u) : Good { s with sys := u } := by
  have hitems := (trypop_eq_some.1 hq).1
  have hrest : ∀ p, p ≠ .ctrl → p ≠ .sink → ({ s with sys := u } : Srv).cell p = s.cell p := by
    intro p h1 h2
    cases p with
    | fetched | queue | worker w => rfl
    | park => exact honly.park
    | hand => exact congrArg (fun pc : AggPc => pc.hand.toList) honly.pc
    | ctrl => exact absurd rfl h1
    | sink => exact absurd rfl h2
  have hctrl : ({ s with sys := u } : Srv).cell .ctrl = q.items.filterMap Msg.sinkAdd := by
    simp only [Srv.cell, honly.ctrlQueue]
  have hdrain : u.pc.draining = false := by rw [honly.pc]; exact hg.draining
  have hdata : u.dataQueue.shutdown = s.sys.dataQueue.shutdown := congrArg Queue.shutdown honly.dataQueue
  cases hadd : m.sinkAdd with
  | none =>
    have hnot : ∀ d, ¬ m.adds d := fun d hd => by rw [sinkAdd_eq_some.2 hd] at hadd; cases hadd
    have hsub : ∀ p, (({ s with sys := u } : Srv).cell p).Sublist (s.cell p) := by
      intro p
      by_cases h1 : p = .ctrl
      · subst h1
        rw [hctrl]
        simp [Srv.cell, hitems, hadd]
      by_cases h2 : p = .sink
      · subst h2
        rcases honly.sink with h | h | ⟨d, hd, -⟩
        · simp only [Srv.cell, h]; exact List.Sublist.refl _
        · simp [Srv.cell, h]
        · exact absurd hd (hnot d)
      · rw [hrest p h1 h2]
    exact hg.sinkStep _ (hg.excl.mono hsub) (fun p d hd => .inl ((hsub p).subset hd)) (fun d hd => absurd hd (hnot d))
      honly.conn honly.side hdata hdrain
  | some c =>
    have hadds : ∀ d, m.adds d → d = c := fun d hd => by
      rw [sinkAdd_eq_some.2 hd] at hadd; exact Option.some.inj hadd
    have hperm : (s.cell .ctrl).Perm (c :: q.items.filterMap Msg.sinkAdd) := by simp [Srv.cell, hitems, hadd]
    have hmem : c ∈ s.cell .ctrl := hperm.mem_iff.2 List.mem_cons_self
    -- at most, `c` moves from ctrlQueue to the sink
    have hsub : ∀ p, (({ s with sys := u } : Srv).cell p).Sublist
        (Function.update (Function.update s.cell .ctrl (q.items.filterMap Msg.sinkAdd)) .sink (s.cell .sink ++ [c]) p) := by
      intro p
      by_cases h1 : p = .ctrl
      · subst h1
        rw [Function.update_of_ne (by simp), Function.update_self, hctrl]
      by_cases h2 : p = .sink
      · subst h2
        rw [Function.update_self]
        rcases honly.sink with h | h | ⟨d, hd, h⟩
        · simp only [Srv.cell, h]; exact List.sublist_append_left _ _
        · simp [Srv.cell, h]
        · rw [hadds d hd] at h
          simp only [Srv.cell, h]; exact List.sublist_append_right _ _
      · rw [Function.update_of_ne h2, Function.update_of_ne h1, hrest p h1 h2]
    have hexcl := (hg.excl.transfer (q := .sink) hperm nofun).mono hsub
    refine hg.sinkStep _ hexcl (fun p d hd => ?_) (fun d hd => hadds d hd ▸ hmem) honly.conn honly.side hdata hdrain
    rcases mem_transfer (p := Place.ctrl) (q := Place.sink) nofun ((hsub p).subset hd) with ⟨rfl, rfl⟩ | ⟨rfl, h⟩ | ⟨-, h⟩
    · exact .inr ⟨rfl, sinkAdd_eq_some.1 hadd⟩
    · exact .inl (hperm.mem_iff.2 (List.mem_cons_of_mem _ h))
    · exact .inl h

/-- the aggregator's steps keep everything in its place -/
theorem Shift.good (hg : Good s) (h : Shift s.sys u) : Good { s with sys := u } := by
  cases h with
  | look r p honly hhand hp hdrain _ => exact look_good hg honly hp hdrain
  | ctrl m q _ hq hpc honly => exact ctrl_good hg hq honly
  | unpark c park hpc hpark =>
    have hmem : c ∈ s.cell .park := by simp [Srv.cell, hpark]
    refine hg.transfer .park .hand (c := c) (l := park) (by simp [Srv.cell, hpark]) nofun ?_
      (fun _ _ => rfl) (fun _ _ _ _ => rfl) rfl rfl rfl fun hat => ?_
    · have hempty : s.cell .hand = [] := by simp [Srv.cell, hpc, AggPc.hand]
      funext p
      rw [hempty]
      cases p <;> rfl
    · exact {
        id := (hg.fine c).id
        fits := fun q hq => by rw [hat q hq]; exact (hg.fine c).fits .park hmem
        known := fun _ => hg.known hmem
        dead := (hg.fine c).dead
        del := fun w hw => ⟨((hg.fine c).del w hw).1, fun q hq => .inr (hat q hq)⟩
        one := (hg.fine c).one }
  | rpush c m hpc _ =>
    have hcell : ({ s with sys := { s.sys with dataQueue := push s.sys.dataQueue m, pc := .rclear c } } : Srv).cell =
        s.cell := by
      funext p; cases p <;> first | rfl | simp [Srv.cell, hpc, AggPc.hand]
    exact hg.frame (hcell ▸ hg.excl) (fun d => .refl _) (fun p d hd => hcell ▸ hd) rfl rfl rfl rfl
  | rclear c hpc =>
    have hcell : ({ s with sys := { s.sys with
        conn := Function.update s.sys.conn c { s.sys.conn c with pendingMsg := none }, pc := .radd c } } : Srv).cell =
        s.cell := by
      funext p; cases p <;> first | rfl | simp [Srv.cell, hpc, AggPc.hand]
    refine hg.frame (hcell ▸ hg.excl) (fun d => ?_) (fun p d hd => hcell ▸ hd) rfl rfl rfl rfl
    by_cases hd : d = c
    · subst hd
      simp only [Srv.conn, Function.update_self]
      exact ⟨rfl, rfl, rfl, rfl, rfl⟩
    · simp only [Srv.conn, Function.update_of_ne hd]
      exact .refl _
  | radd c hpc =>
    have hmem : c ∈ s.cell .hand := by simp [Srv.cell, hpc, AggPc.hand]
    have hperm : (s.cell .hand).Perm (c :: []) := by simp [Srv.cell, hpc, AggPc.hand]
    have hcell : ({ s with sys := { s.sys with
        conn := Function.update s.sys.conn c (epollAdd (s.sys.conn c)), pc := .take } } : Srv).cell =
        Function.update s.cell .hand [] := by
      funext p; cases p <;> rfl
    have hnone := hg.excl.drop_free hperm
    have hconn : ({ s with sys := { s.sys with
        conn := Function.update s.sys.conn c (epollAdd (s.sys.conn c)), pc := .take } } : Srv).conn c =
        epollAdd (s.conn c) := Function.update_self _ _ _
    refine hg.alone (c := c) (hcell ▸ hg.excl.drop hperm) (fun d hd => Function.update_of_ne hd _ _) (fun p d hd hp => ?_)
      (fun _ _ _ _ => rfl) le_rfl rfl rfl ?_
    · rw [hcell] at hp
      rcases mem_update.1 hp with ⟨-, h⟩ | ⟨-, h⟩
      · cases h
      · exact h
    · have hid : (epollAdd (s.conn c)).id = c := by
        unfold epollAdd; split_ifs <;> exact (hg.fine c).id
      exact {
        id := by rw [hconn]; exact hid
        fits := fun q hq => by rw [hcell] at hq; exact absurd hq (hnone q)
        known := fun _ => hg.known hmem
        dead := fun h => absurd (hg.known hmem) (not_lt.2 h)
        del := fun w hw => by
          -- a connection whose DEL is still to come is registered, so ADD fails
          have hreg := ((hg.fine c).del w hw).1
          refine ⟨?_, fun q hq => by rw [hcell] at hq; exact absurd hq (hnone q)⟩
          rw [hconn]
          unfold epollAdd
          rw [if_neg (by rw [hreg]; nofun)]
          exact hreg
        one := (hg.fine c).one }
  | take m q hpc hq =>
    have hcell : ({ s with sys := takeMessage { s.sys with dataQueue := q } m } : Srv).cell = s.cell := by
      funext p; cases p <;> first | rfl | simp [Srv.cell, hpc, AggPc.hand, takeMessage, aggOnMessage]
    exact hg.frame (hcell ▸ hg.excl) (fun d => .refl _) (fun p d hd => hcell ▸ hd) rfl rfl (trypop_eq_some.1 hq).2 rfl
  | final r hpc honly hsink =>
    have h1 := look_good (p := .final) hg honly rfl rfl
    have hsub : ∀ p, (({ s with sys := { aggFreeState r with pc := .done } } : Srv).cell p).Sublist
        (({ s with sys := { r with pc := .final } } : Srv).cell p) := by
      intro p
      cases p with
      | park => exact List.nil_sublist _
      | _ => exact List.Sublist.refl _
    refine h1.frame (h1.excl.mono hsub) (fun d => ?_) (fun p d hd => (hsub p).subset hd) rfl rfl rfl rfl
    simp only [Srv.conn, aggFreeState]
    split_ifs
    · exact ⟨rfl, rfl, rfl, rfl, rfl⟩
    · exact .refl _

/-! ### Every run -/

theorem start_good : Good .start where
  excl := by
    have hnil : ∀ p, Srv.start.cell p = [] := by intro p; cases p <;> rfl
    exact ⟨fun p => by rw [hnil]; exact List.nodup_nil, fun p q c hc => by rw [hnil] at hc; cases hc⟩
  dataQueue := rfl
  draining := rfl
  fine c := by
    have hnil : ∀ p, c ∉ Srv.start.cell p := by intro p; cases p <;> exact List.not_mem_nil
    exact {
      id := rfl
      fits := fun p hp => absurd hp (hnil p)
      known := fun h => by
        rcases h with ⟨p, hp⟩ | ⟨w, hw⟩
        · exact absurd hp (hnil p)
        · cases hw
      dead := fun _ => rfl
      del := fun w hw => by cases hw
      one := fun w w' hw => by cases hw }

/-- what a step of another thread leaves the aggregator -/
theorem srvStep_others {b : Act} (h : srvStep conf s b = some t) (hb : ∀ e, b ≠ .agg e) :
    t.sys = { s.sys with
      conn := t.sys.conn, dataQueue := t.sys.dataQueue, ctrlQueue := t.sys.ctrlQueue, park := t.sys.park } := by
  cases b with
  | accept => obtain rfl := Option.some.inj h; rfl
  | deliver => simp only [srvStep] at h; split_ifs at h; obtain rfl := Option.some.inj h; rfl
  | fetch => simp only [srvStep] at h; split_ifs at h; obtain rfl := Option.some.inj h; rfl
  | enqueue => simp only [srvStep] at h; split_ifs at h; obtain rfl := Option.some.inj h; rfl
  | agg e => exact absurd rfl (hb e)
  | worker w e => cases workerStep_shift h <;> rfl

/-- ids are given out in order -/
theorem srvStep_given {b : Act} (h : srvStep conf s b = some t) :
    b = .accept ∧ t.nextId = s.nextId + 1 ∨ b ≠ .accept ∧ t.nextId = s.nextId := by
  cases b with
  | accept => obtain rfl := Option.some.inj h; exact .inl ⟨rfl, rfl⟩
  | deliver | fetch | enqueue =>
    simp only [srvStep] at h
    split_ifs at h
    obtain rfl := Option.some.inj h
    exact .inr ⟨nofun, rfl⟩
  | worker w e =>
    have hstep : t.nextId = s.nextId := by cases workerStep_shift h <;> rfl
    exact .inr ⟨nofun, hstep⟩
  | agg e => obtain ⟨u, -, rfl⟩ := Option.map_eq_some_iff.1 h; exact .inr ⟨nofun, rfl⟩

theorem srvStep_nextId {b : Act} (h : srvStep conf s b = some t) : s.nextId ≤ t.nextId := by
  rcases srvStep_given h with ⟨-, hnext⟩ | ⟨-, hnext⟩ <;> omega

/-- **Every step keeps everything in its place.** -/
theorem srvStep_good {a : Act} (hg : Good s) (h : srvStep conf s a = some t) : Good t := by
  cases a with
  | accept =>
    obtain rfl := Option.some.inj h
    exact new_good hg rfl
  | deliver c bytes fin =>
    simp only [srvStep] at h
    split_ifs at h
    obtain rfl := Option.some.inj h
    exact deliver_good hg c _
  | fetch c =>
    simp only [srvStep] at h
    split_ifs at h with hc
    obtain rfl := Option.some.inj h
    obtain ⟨hlive, ⟨out, hreg⟩, -⟩ := hc
    exact fetch_good hg hlive hreg
  | enqueue c =>
    simp only [srvStep] at h
    split_ifs at h with hc
    obtain rfl := Option.some.inj h
    exact enqueue_good hg hc
  | worker w e => exact (workerStep_shift h).good hg
  | agg e =>
    simp only [srvStep, Option.map_eq_some_iff] at h
    obtain ⟨u, hu, rfl⟩ := h
    exact (aggStep_shift hg.dataQueue hg.draining hu).good hg

theorem reachable_good (h : Reachable (srvStep conf) .start s) : Good s :=
  h.invariant start_good fun _ _ _ hg _ hstep => srvStep_good hg hstep

end WsServer
