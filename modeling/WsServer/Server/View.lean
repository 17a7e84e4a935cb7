/-
The program seen from one connection.

A connection is with one worker, in the park list (or in the aggregator's hands), or free: its `Desk`. `SourceStep` is
the small machine of one connection: bytes arrive, a worker does one piece of its work (`Deal`), it goes from desk to
desk with nothing of it changed, or the aggregator reads from it because it is the sink.

- `nodeStep_source`: every step of the program is a step of this small machine for every connection but the one it
  accepts.
- `nodeReach_source`: hence what holds of a new connection and is kept by the small machine holds of every connection in
  every run. The invariant may speak of the desk, the connection, the bytes written to its socket, the number of bytes
  that arrived, and the messages it completed.
-/
import Mathlib
import WsServer.Server.Ledger
import WsServer.Server.Node

namespace WsServer

open Ws Machine Places

/-! ## The small machine -/

/-- where a connection is -/
inductive Desk where
  | free
  | parked
  | work (p : WPc)
deriving DecidableEq, Repr

/-- one piece of work on connection `c`: the worker's place and the connection before and behind it, the bytes written,
the message completed -/
inductive Deal (conf : ServerConfig) (c : ℕ) : WPc → Conn → WPc → Conn → Bytes → List Msg → Prop where
  | readRet {v v' : Conn} {disp : Disposition} (sizes : List ℕ) : v.state = .ST_HANDSHAKE_READ →
      handleHandshakeRead conf sizes v = .ret disp v' → Deal conf c (.run c) v (.apply c disp) v' [] []
  | readSend {v v' : Conn} (sizes : List ℕ) : v.state = .ST_HANDSHAKE_READ →
      handleHandshakeRead conf sizes v = .send v' → Deal conf c (.run c) v (.hsSend c) v' [] []
  | resend {v : Conn} : v.state = .ST_HANDSHAKE_SEND → Deal conf c (.run c) v (.hsSend c) v [] []
  | reopen {v : Conn} : v.state = .ST_WS_OPEN → Deal conf c (.run c) v (.recv c) v [] []
  | sendRet {v v' : Conn} {disp : Disposition} (sends : List SendRes) : handleHandshakeSend sends v = .ret disp v' →
      Deal conf c (.hsSend c) v (.apply c disp) v' (flushTx sends v).2.2 []
  | handoff {v v' : Conn} (sends : List SendRes) : handleHandshakeSend sends v = .handoff v' →
      Deal conf c (.hsSend c) v (.handoffDel c) v' (flushTx sends v).2.2 []
  | opens {v v' : Conn} (sends : List SendRes) : handleHandshakeSend sends v = .wsOpen v' →
      Deal conf c (.hsSend c) v (.recv c) v' (flushTx sends v).2.2 []
  | recv {v : Conn} (sizes : List ℕ) :
      Deal conf c (.recv c) v (.loop c (wsOpenRead conf sizes v).2) (wsOpenRead conf sizes v).1 [] []
  | closing {v : Conn} {eof : Bool} : v.closeAfterSend = true → Deal conf c (.loop c eof) v (.flush c eof) v [] []
  | wait {v : Conn} {eof : Bool} : wsFrame conf v = .wait → Deal conf c (.loop c eof) v (.flush c eof) v [] []
  | stop {v v' : Conn} {eof : Bool} : v.closeAfterSend = false → wsFrame conf v = .stop v' →
      Deal conf c (.loop c eof) v (.flush c eof) v' [] []
  | next {v v' : Conn} {eof : Bool} : v.closeAfterSend = false → wsFrame conf v = .next v' →
      Deal conf c (.loop c eof) v (.loop c eof) v' [] []
  | message {v v' : Conn} {eof : Bool} {opcode : ℕ} {data : Bytes} (ts : Timespec) : v.closeAfterSend = false →
      wsFrame conf v = .message v' opcode data →
      Deal conf c (.loop c eof) v (.check c eof (msgNewData v'.id opcode ts data)) v' []
        [msgNewData v'.id opcode ts data]
  | flush {v : Conn} {eof : Bool} (sends : List SendRes) :
      Deal conf c (.flush c eof) v (.apply c (wsOpenFlush sends eof v).1) (wsOpenFlush sends eof v).2.1
        (wsOpenFlush sends eof v).2.2 []

/-- from desk to desk -/
inductive Passes (c : ℕ) : Desk → Desk → Prop where
  | stay (d : Desk) : Passes c d d
  | take : Passes c .free (.work (.run c))
  | park (eof : Bool) (m : Msg) : Passes c (.work (.check c eof m)) (.work (.parkStore c m))
  | pass (eof : Bool) (m : Msg) : Passes c (.work (.check c eof m)) (.work (.push c eof m))
  | pushed (eof : Bool) (m : Msg) : Passes c (.work (.push c eof m)) (.work (.loop c eof))
  | stored (m : Msg) : Passes c (.work (.parkStore c m)) (.work (.parkPush c))
  | listed : Passes c (.work (.parkPush c)) .parked
  | resumed : Passes c .parked .free
  | handedOver : Passes c (.work (.handoffDel c)) (.work (.handoffPush c))
  | left : Passes c (.work (.handoffPush c)) .free
  | applied (disp : Disposition) : Passes c (.work (.apply c disp)) .free

/-- nothing a peer could see is changed -/
structure SameLine (a b : Conn) : Prop where
  state : b.state = a.state
  closeAfterSend : b.closeAfterSend = a.closeAfterSend
  rx : b.rx = a.rx
  tx : b.tx = a.tx
  msg : b.msg = a.msg
  msgOpcode : b.msgOpcode = a.msgOpcode
  fragmenting : b.fragmenting = a.fragmenting
  msgUtf8 : b.msgUtf8 = a.msgUtf8
  sock : b.sock = a.sock
  role : b.role = a.role

theorem SameLine.refl (a : Conn) : SameLine a a := ⟨rfl, rfl, rfl, rfl, rfl, rfl, rfl, rfl, rfl, rfl⟩

theorem AggTouch.sameLine {a b : Conn} (h : AggTouch False a b) (hrole : b.role = a.role) : SameLine a b :=
  ⟨h.state, h.closeAfterSend, (h.read id).1, h.tx, h.msg, h.msgOpcode, h.fragmenting, h.msgUtf8, (h.read id).2, hrole⟩

theorem applyDisposition_sameLine (a : Conn) (disp : Disposition) : SameLine a (applyDisposition a disp) := by
  have hrearm : ∀ out, SameLine a (rearmEpoll a out) := by
    intro out
    unfold rearmEpoll
    split_ifs
    · exact .refl a
    · exact ⟨rfl, rfl, rfl, rfl, rfl, rfl, rfl, rfl, rfl, rfl⟩
  cases disp with
  | DISP_REARM_IN => exact hrearm false
  | DISP_REARM_OUT | DISP_REARM_INOUT => exact hrearm true
  | DISP_CLOSE => exact ⟨rfl, rfl, rfl, rfl, rfl, rfl, rfl, rfl, rfl, rfl⟩
  | DISP_PARKED | DISP_HANDOFF => exact .refl a

/-- the small machine of connection `c`: what is written, how much arrives, what is completed -/
inductive SourceStep (conf : ServerConfig) (c : ℕ) : Desk → Conn → Desk → Conn → Bytes → ℕ → List Msg → Prop where
  | arrive {d : Desk} {v : Conn} (bytes : Bytes) (fin : SockEnd) :
      SourceStep conf c d v d { v with sock := ⟨v.sock.inq ++ bytes, fin⟩ } [] bytes.length []
  | pass {d d' : Desk} {v v' : Conn} : Passes c d d' → SameLine v v' → SourceStep conf c d v d' v' [] 0 []
  | sink {v v' : Conn} : AggTouch True v v' → v.role = .ROLE_SINK → v'.role = .ROLE_SINK →
      SourceStep conf c .free v .free v' [] 0 []
  | work {p p' : WPc} {v v' : Conn} {out : Bytes} {ms : List Msg} : Deal conf c p v p' v' out ms →
      SourceStep conf c (.work p) v (.work p') v' out 0 ms

theorem SourceStep.same {conf : ServerConfig} {c : ℕ} (d : Desk) (v : Conn) : SourceStep conf c d v d v [] 0 [] :=
  .pass (.stay d) (.refl v)

/-! ## Where a connection is -/

def Srv.At (s : Srv) (c : ℕ) : Desk → Prop
  | .free => (∀ w, (s.workers w).holds ≠ some c) ∧ ¬ (c ∈ s.sys.park ∨ s.sys.pc.hand = some c)
  | .parked => c ∈ s.sys.park ∨ s.sys.pc.hand = some c
  | .work p => p.holds = some c ∧ ∃ w, s.workers w = p

variable {conf : ServerConfig} {s t : Srv} {c : ℕ} {d d' : Desk} {w : ℕ} {p p' : WPc}

/-- every connection is at a desk -/
theorem Srv.at_exists (s : Srv) (c : ℕ) : ∃ d, s.At c d := by
  by_cases hw : ∃ w, (s.workers w).holds = some c
  · obtain ⟨w, hw⟩ := hw
    exact ⟨.work (s.workers w), hw, w, rfl⟩
  · by_cases hp : c ∈ s.sys.park ∨ s.sys.pc.hand = some c
    · exact ⟨.parked, hp⟩
    · exact ⟨.free, fun w h => hw ⟨w, h⟩, hp⟩

theorem Good.not_parked (hg : Good s) (hw : (s.workers w).holds = some c) : ¬ (c ∈ s.sys.park ∨ s.sys.pc.hand = some c) := by
  have hmem := mem_worker.2 hw
  rintro (h | h)
  · exact nomatch hg.excl.only (.worker w) .park c hmem h
  · exact nomatch hg.excl.only (.worker w) .hand c hmem (by simp [Srv.cell, h])

/-- and at one only -/
theorem Good.at_unique (hg : Good s) (h : s.At c d) (h' : s.At c d') : d = d' := by
  cases d with
  | free =>
    cases d' with
    | free => rfl
    | parked => exact absurd h' h.2
    | work q =>
      obtain ⟨hq, w, rfl⟩ := h'
      exact absurd hq (h.1 w)
  | parked =>
    cases d' with
    | free => exact absurd h h'.2
    | parked => rfl
    | work q =>
      obtain ⟨hq, w, rfl⟩ := h'
      exact absurd h (hg.not_parked hq)
  | work q =>
    obtain ⟨hq, w, rfl⟩ := h
    cases d' with
    | free => exact absurd hq (h'.1 w)
    | parked => exact absurd h' (hg.not_parked hq)
    | work q' =>
      obtain ⟨hq', w', rfl⟩ := h'
      obtain rfl := Place.worker.inj (hg.excl.only _ _ c (mem_worker.2 hq) (mem_worker.2 hq'))
      rfl

/-- the desk depends on the workers, the park list and the aggregator's hands -/
theorem Srv.At.congr (h : t.At c d) (hw : t.workers = s.workers) (hpark : t.sys.park = s.sys.park)
    (hpc : t.sys.pc = s.sys.pc) : s.At c d := by
  unfold Srv.At at h ⊢
  rwa [hw, hpark, hpc] at h

/-- a worker moves that has nothing to do with the connection -/
theorem Srv.At.others (h : t.At c d) (hworkers : t.workers = Function.update s.workers w p')
    (h1 : (s.workers w).holds ≠ some c) (h2 : p'.holds ≠ some c) (hpark : c ∈ t.sys.park ↔ c ∈ s.sys.park)
    (hpc : t.sys.pc = s.sys.pc) : s.At c d := by
  have hparked : (c ∈ t.sys.park ∨ t.sys.pc.hand = some c) ↔ (c ∈ s.sys.park ∨ s.sys.pc.hand = some c) := by
    rw [hpark, hpc]
  have hrest : ∀ w', w' ≠ w → t.workers w' = s.workers w' := fun w' hne => by rw [hworkers, Function.update_of_ne hne]
  cases d with
  | free =>
    refine ⟨fun w' => ?_, fun hp => h.2 (hparked.2 hp)⟩
    by_cases hne : w' = w
    · rw [hne]; exact h1
    · rw [← hrest w' hne]; exact h.1 w'
  | parked => exact hparked.1 h
  | work q =>
    obtain ⟨hq, w', hw'⟩ := h
    refine ⟨hq, w', ?_⟩
    by_cases hne : w' = w
    · subst hne
      rw [hworkers, Function.update_self] at hw'
      exact absurd hq (hw' ▸ h2)
    · rw [← hrest w' hne]; exact hw'

/-! ## A step of the program -/

/-- what step `b` of the server is for connection `c`, which is at desk `d'` behind it -/
def Srv.Sees (conf : ServerConfig) (s : Srv) (b : Act) (t : Srv) (c : ℕ) (d' : Desk) : Prop :=
  ∃ d ms, s.At c d ∧ SourceStep conf c d (s.conn c) d' (t.conn c) (s.writes b c) (b.arrives c) ms ∧
    t.completed c = s.completed c ++ ms

variable {b : Act} {e : WorkEnv} {x : ℕ}

theorem sees_same (hat : s.At c d) (hconn : t.conn c = s.conn c) (hwrites : s.writes b c = []) (harr : b.arrives c = 0)
    (hdone : t.completed c = s.completed c) : s.Sees conf b t c d := by
  refine ⟨d, [], hat, ?_, by rw [hdone, List.append_nil]⟩
  rw [hconn, hwrites, harr]
  exact .same d _

/-- a worker that keeps its connection -/
theorem sees_worked (v : Conn) (ms : List Msg) (ht : Good t) (hw : (s.workers w).holds = some c) (hp : p'.holds = some c)
    (hworkers : t.workers = Function.update s.workers w p') (hconn : ∀ x, t.conn x = Function.update s.conn c v x)
    (hpark : t.sys.park = s.sys.park) (hpc : t.sys.pc = s.sys.pc)
    (hdone : ∀ x, t.completed x = s.completed x ++ if x = c then ms else [])
    (hwrites : ∀ x, x ≠ c → s.writes (.worker w e) x = [])
    (hstep : SourceStep conf c (.work (s.workers w)) (s.conn c) (.work p') v (s.writes (.worker w e) c) 0 ms)
    (hat : t.At x d') : s.Sees conf (.worker w e) t x d' := by
  by_cases hx : x = c
  · subst hx
    have hat' : t.At x (.work p') := ⟨hp, w, by rw [hworkers, Function.update_self]⟩
    obtain rfl := ht.at_unique hat hat'
    refine ⟨.work (s.workers w), ms, ⟨hw, w, rfl⟩, ?_, by rw [hdone, if_pos rfl]⟩
    rw [hconn, Function.update_self]
    exact hstep
  · refine sees_same (hat.others hworkers (holds_ne hw hx) (holds_ne hp hx) (by rw [hpark]) hpc) ?_ (hwrites x hx) rfl ?_
    · rw [hconn, Function.update_of_ne hx]
    · rw [hdone, if_neg hx, List.append_nil]

/-- a worker that gives its connection away, or takes one; it writes nothing and completes nothing -/
theorem sees_moved (d d' : Desk) (ht : Good t) (hfrom : s.At c d) (hto : t.At c d') (hpass : Passes c d d')
    (hworkers : t.workers = Function.update s.workers w p') (hholds : ∀ x, x ≠ c → (s.workers w).holds ≠ some x)
    (hholds' : ∀ x, x ≠ c → p'.holds ≠ some x) (hconn : ∀ x, x ≠ c → t.conn x = s.conn x)
    (hline : SameLine (s.conn c) (t.conn c)) (hpark : ∀ x, x ≠ c → (x ∈ t.sys.park ↔ x ∈ s.sys.park))
    (hpc : t.sys.pc = s.sys.pc) (hdone : t.completed = s.completed) (hwrites : ∀ x, s.writes (.worker w e) x = [])
    {d2 : Desk} (hat : t.At x d2) : s.Sees conf (.worker w e) t x d2 := by
  by_cases hx : x = c
  · subst hx
    obtain rfl := ht.at_unique hat hto
    refine ⟨d, [], hfrom, ?_, by rw [hdone, List.append_nil]⟩
    rw [hwrites]
    exact .pass hpass hline
  · exact sees_same (hat.others hworkers (hholds x hx) (hholds' x hx) (hpark x hx) hpc) (hconn x hx) (hwrites x) rfl
      (congrFun hdone x)

/-- a connection in the queue is free -/
theorem Good.queued_free (hg : Good s) (hc : c ∈ s.queue.items) : s.At c .free := by
  have hmem : c ∈ s.cell .queue := hc
  constructor
  · intro w hw
    exact nomatch hg.excl.only .queue (.worker w) c hmem (mem_worker.2 hw)
  rintro (h | h)
  · exact nomatch hg.excl.only .queue .park c hmem h
  · exact nomatch hg.excl.only .queue .hand c hmem (by simp [Srv.cell, h])

/-- a worker has let its connection go -/
theorem Good.left_free (hg : Good s) (hw : (s.workers w).holds = some c) (hp : p'.holds = none)
    (hworkers : t.workers = Function.update s.workers w p') (hpark : t.sys.park = s.sys.park)
    (hpc : t.sys.pc = s.sys.pc) : t.At c .free := by
  constructor
  · intro w' hw'
    rw [hworkers] at hw'
    by_cases hne : w' = w
    · subst hne
      rw [Function.update_self, hp] at hw'
      cases hw'
    · rw [Function.update_of_ne hne] at hw'
      exact hne (Place.worker.inj (hg.excl.only _ _ c (mem_worker.2 hw') (mem_worker.2 hw)))
  · rw [hpark, hpc]
    exact hg.not_parked hw

/-- the worker is about to write nothing -/
def WPc.quiet : WPc → Prop
  | .hsSend _ | .flush _ _ => False
  | _ => True

theorem writes_quiet (h : (s.workers w).quiet) (y : ℕ) : s.writes (.worker w e) y = [] := by
  unfold Srv.writes
  dsimp only
  split
  · next hw => rw [hw] at h; exact h.elim
  · next hw => rw [hw] at h; exact h.elim
  · rfl

/-- **Every step of a worker is a step of the small machine**, for every connection. -/
theorem workerStep_sees (hg : Good s) (h : workerStep conf s w e = some t) (hat : t.At x d') :
    s.Sees conf (.worker w e) t x d' := by
  have ht : Good t := (workerStep_shift h).good hg
  have hquiet : ∀ {p : WPc}, s.workers w = p → p.quiet → ∀ y, s.writes (.worker w e) y = [] :=
    fun hw hp => writes_quiet (hw ▸ hp)
  have hnone : ∀ (u : Srv) (c : ℕ), u.completed = s.completed →
      ∀ y, u.completed y = s.completed y ++ if y = c then [] else [] := by
    intro u c hu y
    rw [hu, ite_self, List.append_nil]
  have hconn0 : ∀ (c y : ℕ), s.conn y = Function.update s.conn c (s.conn c) y := by
    intro c y
    rw [Function.update_eq_self]
  unfold workerStep at h
  cases hw : s.workers w with
  | idle =>
    simp only [hw] at h
    unfold pop at h
    cases hq : s.queue.items with
    | nil => simp only [hq] at h; split_ifs at h
    | cons c q =>
      simp only [hq] at h
      obtain rfl := Option.some.inj h
      have hfree : s.At c .free := hg.queued_free (by rw [hq]; exact List.mem_cons_self)
      exact sees_moved .free (.work (.run c)) ht hfree ⟨rfl, w, Function.update_self _ _ _⟩ .take rfl (fun _ _ => holds_none (by rw [hw]; rfl))
        (fun y hy => holds_ne rfl hy) (fun _ _ => rfl) (.refl _) (fun _ _ => .rfl) rfl rfl (hquiet hw trivial) hat
  | run c =>
    have hwrites := hquiet hw trivial
    have hheld : (s.workers w).holds = some c := by rw [hw]; rfl
    simp only [hw] at h
    split at h
    · next hread =>
      split at h
      · next disp v' hr =>
        obtain rfl := Option.some.inj h
        refine sees_worked v' [] ht hheld rfl rfl (fun _ => rfl) rfl rfl (hnone _ c rfl) (fun y _ => hwrites y) ?_ hat
        rw [hwrites, hw]
        exact .work (.readRet e.sizes hread hr)
      · next v' hr =>
        obtain rfl := Option.some.inj h
        refine sees_worked v' [] ht hheld rfl rfl (fun _ => rfl) rfl rfl (hnone _ c rfl) (fun y _ => hwrites y) ?_ hat
        rw [hwrites, hw]
        exact .work (.readSend e.sizes hread hr)
    · next hsend =>
      obtain rfl := Option.some.inj h
      refine sees_worked (s.conn c) [] ht hheld rfl rfl (hconn0 c) rfl rfl (hnone _ c rfl) (fun y _ => hwrites y) ?_ hat
      rw [hwrites, hw]
      exact .work (.resend hsend)
    · next hopen =>
      obtain rfl := Option.some.inj h
      refine sees_worked (s.conn c) [] ht hheld rfl rfl (hconn0 c) rfl rfl (hnone _ c rfl) (fun y _ => hwrites y) ?_ hat
      rw [hwrites, hw]
      exact .work (.reopen hopen)
  | hsSend c =>
    have hheld : (s.workers w).holds = some c := by rw [hw]; rfl
    have hself : s.writes (.worker w e) c = (flushTx e.sends (s.conn c)).2.2 := by
      simp only [Srv.writes, hw, if_true]
    have hother : ∀ y, y ≠ c → s.writes (.worker w e) y = [] := by
      intro y hy
      simp only [Srv.writes, hw]
      exact if_neg (Ne.symm hy)
    simp only [hw] at h
    split at h
    all_goals
      rename_i hr
      obtain rfl := Option.some.inj h
      refine sees_worked _ [] ht hheld rfl rfl (fun _ => rfl) rfl rfl (hnone _ c rfl) hother ?_ hat
      rw [hself, hw]
    · exact .work (.sendRet e.sends hr)
    · exact .work (.handoff e.sends hr)
    · exact .work (.opens e.sends hr)
  | handoffDel c =>
    have hwrites := hquiet hw trivial
    have hheld : (s.workers w).holds = some c := by rw [hw]; rfl
    simp only [hw] at h
    obtain rfl := Option.some.inj h
    refine sees_worked { s.conn c with reg := .absent } [] ht hheld rfl rfl (fun _ => rfl) rfl rfl (hnone _ c rfl)
      (fun y _ => hwrites y) ?_ hat
    rw [hwrites, hw]
    exact .pass .handedOver ⟨rfl, rfl, rfl, rfl, rfl, rfl, rfl, rfl, rfl, rfl⟩
  | recv c =>
    have hwrites := hquiet hw trivial
    have hheld : (s.workers w).holds = some c := by rw [hw]; rfl
    simp only [hw] at h
    obtain rfl := Option.some.inj h
    refine sees_worked ((wsOpenRead conf e.sizes (s.conn c)).1) [] ht hheld rfl rfl (fun _ => rfl) rfl rfl (hnone _ c rfl)
      (fun y _ => hwrites y) ?_ hat
    rw [hwrites, hw]
    exact .work (.recv e.sizes)
  | loop c eof =>
    have hwrites := hquiet hw trivial
    have hheld : (s.workers w).holds = some c := by rw [hw]; rfl
    simp only [hw] at h
    split at h
    · next hclose =>
      obtain rfl := Option.some.inj h
      refine sees_worked (s.conn c) [] ht hheld rfl rfl (hconn0 c) rfl rfl (hnone _ c rfl) (fun y _ => hwrites y) ?_ hat
      rw [hwrites, hw]
      exact .work (.closing hclose)
    · next hopen =>
      rw [Bool.not_eq_true] at hopen
      split at h
      · next hr =>
        obtain rfl := Option.some.inj h
        refine sees_worked (s.conn c) [] ht hheld rfl rfl (hconn0 c) rfl rfl (hnone _ c rfl) (fun y _ => hwrites y) ?_ hat
        rw [hwrites, hw]
        exact .work (.wait hr)
      · next v' hr =>
        obtain rfl := Option.some.inj h
        refine sees_worked v' [] ht hheld rfl rfl (fun _ => rfl) rfl rfl (hnone _ c rfl) (fun y _ => hwrites y) ?_ hat
        rw [hwrites, hw]
        exact .work (.stop hopen hr)
      · next v' hr =>
        obtain rfl := Option.some.inj h
        refine sees_worked v' [] ht hheld rfl rfl (fun _ => rfl) rfl rfl (hnone _ c rfl) (fun y _ => hwrites y) ?_ hat
        rw [hwrites, hw]
        exact .work (.next hopen hr)
      · next v' opcode data hr =>
        obtain rfl := Option.some.inj h
        refine sees_worked v' [msgNewData v'.id opcode e.ts data] ht hheld rfl rfl (fun _ => rfl) rfl rfl
          (fun y => ?_) (fun y _ => hwrites y) ?_ hat
        · show Function.update s.completed c _ y = _
          by_cases hy : y = c
          · rw [hy, Function.update_self, if_pos rfl]
          · rw [Function.update_of_ne hy, if_neg hy, List.append_nil]
        · rw [hwrites, hw]
          exact .work (.message e.ts hopen hr)
  | check c eof m =>
    have hwrites := hquiet hw trivial
    have hheld : (s.workers w).holds = some c := by rw [hw]; rfl
    simp only [hw] at h
    obtain rfl := Option.some.inj h
    split_ifs at ht hat ⊢
    · refine sees_worked (s.conn c) [] ht hheld rfl rfl (hconn0 c) rfl rfl (hnone _ c rfl) (fun y _ => hwrites y) ?_ hat
      rw [hwrites, hw]
      exact .pass (.park eof m) (.refl _)
    · refine sees_worked (s.conn c) [] ht hheld rfl rfl (hconn0 c) rfl rfl (hnone _ c rfl) (fun y _ => hwrites y) ?_ hat
      rw [hwrites, hw]
      exact .pass (.pass eof m) (.refl _)
  | push c eof m =>
    have hwrites := hquiet hw trivial
    have hheld : (s.workers w).holds = some c := by rw [hw]; rfl
    simp only [hw] at h
    obtain rfl := Option.some.inj h
    refine sees_worked (s.conn c) [] ht hheld rfl rfl (hconn0 c) rfl rfl (hnone _ c rfl) (fun y _ => hwrites y) ?_ hat
    rw [hwrites, hw]
    exact .pass (.pushed eof m) (.refl _)
  | parkStore c m =>
    have hwrites := hquiet hw trivial
    have hheld : (s.workers w).holds = some c := by rw [hw]; rfl
    simp only [hw] at h
    obtain rfl := Option.some.inj h
    refine sees_worked { s.conn c with pendingMsg := some m } [] ht hheld rfl rfl (fun _ => rfl) rfl rfl
      (hnone _ c rfl) (fun y _ => hwrites y) ?_ hat
    rw [hwrites, hw]
    exact .pass (.stored m) ⟨rfl, rfl, rfl, rfl, rfl, rfl, rfl, rfl, rfl, rfl⟩
  | flush c eof =>
    have hheld : (s.workers w).holds = some c := by rw [hw]; rfl
    have hself : s.writes (.worker w e) c = (wsOpenFlush e.sends eof (s.conn c)).2.2 := by
      simp only [Srv.writes, hw, if_true]
    have hother : ∀ y, y ≠ c → s.writes (.worker w e) y = [] := by
      intro y hy
      simp only [Srv.writes, hw]
      exact if_neg (Ne.symm hy)
    simp only [hw] at h
    obtain rfl := Option.some.inj h
    refine sees_worked ((wsOpenFlush e.sends eof (s.conn c)).2.1) [] ht hheld rfl rfl (fun _ => rfl) rfl rfl
      (hnone _ c rfl) hother ?_ hat
    rw [hself, hw]
    exact .work (.flush e.sends)
  | parkPush c =>
    have hheld : (s.workers w).holds = some c := by rw [hw]; rfl
    simp only [hw] at h
    obtain rfl := Option.some.inj h
    refine sees_moved (.work (.parkPush c)) .parked ht ⟨rfl, w, hw⟩
      (.inl (List.mem_append_right _ (List.mem_singleton_self c))) .listed rfl (fun y hy => holds_ne hheld hy) (fun _ _ => holds_none rfl)
      (fun _ _ => rfl) (.refl _) (fun y hy => ?_) rfl rfl (hquiet hw trivial) hat
    show y ∈ s.sys.park ++ [c] ↔ y ∈ s.sys.park
    simp [hy]
  | handoffPush c =>
    have hheld : (s.workers w).holds = some c := by rw [hw]; rfl
    simp only [hw] at h
    obtain rfl := Option.some.inj h
    refine sees_moved (.work (.handoffPush c)) .free ht ⟨rfl, w, hw⟩ (hg.left_free hheld rfl rfl rfl rfl) .left rfl
      (fun y hy => holds_ne hheld hy)
      (fun _ _ => holds_none rfl) (fun _ _ => rfl) (.refl _) (fun _ _ => .rfl) rfl rfl (hquiet hw trivial) hat
  | apply c disp =>
    have hheld : (s.workers w).holds = some c := by rw [hw]; rfl
    simp only [hw] at h
    obtain rfl := Option.some.inj h
    refine sees_moved (.work (.apply c disp)) .free ht ⟨rfl, w, hw⟩ (hg.left_free hheld rfl rfl rfl rfl) (.applied disp)
      rfl (fun y hy => holds_ne hheld hy)
      (fun _ _ => holds_none rfl) (fun y hy => setConn_conn_of_ne _ hy) ?_ (fun _ _ => .rfl) rfl rfl
      (hquiet hw trivial) hat
    rw [goto_setConn]
    exact applyDisposition_sameLine _ _
  | parkDel c =>
    -- the connection is not the worker's any more: only its registration changes, wherever it is
    have hwrites := hquiet hw trivial
    simp only [hw] at h
    obtain rfl := Option.some.inj h
    have hfrom : s.At x d' := hat.others rfl (holds_none (by rw [hw]; rfl)) (holds_none rfl) .rfl rfl
    refine ⟨d', [], hfrom, ?_, (List.append_nil _).symm⟩
    rw [hwrites]
    refine .pass (.stay d') ?_
    by_cases hx : x = c
    · subst hx
      rw [goto_setConn]
      exact ⟨rfl, rfl, rfl, rfl, rfl, rfl, rfl, rfl, rfl, rfl⟩
    · rw [show ((s.setConn c _).goto w .idle).conn x = s.conn x from setConn_conn_of_ne _ hx]
      exact .refl _

/-- nobody but the aggregator puts a connection into its own hands, and from the park list only -/
theorem Shift.parked {u : AggSys} (h : Shift s.sys u) (hp : x ∈ u.park ∨ u.pc.hand = some x) :
    x ∈ s.sys.park ∨ s.sys.pc.hand = some x := by
  cases h with
  | look r p honly _ hhand =>
    rcases hp with hp | hp
    · exact .inl (honly.park ▸ hp)
    · rw [show p.hand = some x from hp] at hhand; cases hhand
  | ctrl m q _ _ _ honly =>
    rcases hp with hp | hp
    · exact .inl (honly.park ▸ hp)
    · exact .inr (honly.pc ▸ hp)
  | unpark c park _ hpark =>
    rw [hpark]
    rcases hp with hp | hp
    · exact .inl (List.mem_cons_of_mem _ hp)
    · obtain rfl := Option.some.inj hp
      exact .inl List.mem_cons_self
  | rpush c m hpc => rw [hpc]; exact hp
  | rclear c hpc => rw [hpc]; exact hp
  | radd | take => exact .inl (hp.resolve_right nofun)
  | final r _ _ _ => rcases hp with hp | hp <;> cases hp

/-- the aggregator changes no role: who becomes the sink has the role already -/
theorem Shift.role {u : AggSys} (hg : Good s) (h : Shift s.sys u) : (u.conn x).role = (s.conn x).role := by
  have honly : ∀ {who : ℕ → Prop} {a r : AggSys}, SinkOnly who a r → a.conn = s.sys.conn → a.agg.sink = s.sys.agg.sink →
      (who x → (s.conn x).role = .ROLE_SINK) → (r.conn x).role = (s.conn x).role := by
    intro who a r ho hconn hsink hwho
    by_cases hrole : (s.conn x).role = .ROLE_SINK
    · rcases (ho.side x).role with hr | hr
      · exact hr.trans (congrArg Conn.role (congrFun hconn x))
      · exact hr.trans hrole.symm
    · rw [ho.conn x ?_ fun hx => hrole (hwho hx), hconn]
      · rfl
      · rw [hsink]
        intro hx
        exact hrole ((hg.fine x).fits .sink (by simp [Srv.cell, hx])).2
  cases h with
  | look r p ho =>
    have hsame : (r.conn x).role = (s.conn x).role := honly ho rfl rfl fun hf => hf.elim
    exact hsame
  | ctrl m q _ hq _ ho =>
    refine honly ho rfl rfl fun hx => ?_
    have hmem : x ∈ s.cell .ctrl := by
      unfold Srv.cell
      rw [List.mem_filterMap]
      unfold trypop at hq
      cases hitems : s.sys.ctrlQueue.items with
      | nil => rw [hitems] at hq; cases hq
      | cons y ys =>
        rw [hitems] at hq
        obtain ⟨rfl, -⟩ := Prod.mk.inj (Option.some.inj hq)
        exact ⟨y, List.mem_cons_self, sinkAdd_eq_some.2 hx⟩
    exact ((hg.fine x).fits .ctrl hmem).2
  | unpark | rpush | take => rfl
  | rclear c _ =>
    show (Function.update s.sys.conn c _ x).role = _
    by_cases hx : x = c
    · subst hx
      rw [Function.update_self]
      rfl
    · rw [Function.update_of_ne hx]
      rfl
  | radd c _ =>
    show (Function.update s.sys.conn c _ x).role = _
    by_cases hx : x = c
    · subst hx
      rw [Function.update_self]
      unfold epollAdd
      split_ifs <;> rfl
    · rw [Function.update_of_ne hx]
      rfl
  | final r _ ho =>
    have hfree : (r.conn x).role = (s.conn x).role := honly ho rfl rfl fun hf => hf.elim
    rw [← hfree]
    show (if x ∈ r.park then { r.conn x with pendingMsg := none } else r.conn x).role = _
    split_ifs <;> rfl

/-- **Every step of the aggregator is a step of the small machine**, for every connection. -/
theorem aggStep_sees {u : AggSys} {e : AggEnv} (hg : Good s) (h : aggStep conf s.sys e = some u)
    (hat : ({ s with sys := u } : Srv).At x d') : s.Sees conf (.agg e) { s with sys := u } x d' := by
  have hshift := aggStep_shift hg.dataQueue hg.draining h
  have htouch := aggStep_touch x h
  by_cases hsink : s.sys.agg.sink = some x
  · -- the sink is with the aggregator and nowhere else
    have hmem : x ∈ s.cell .sink := by simp [Srv.cell, hsink]
    have hfree : s.At x .free := by
      constructor
      · intro w hw
        cases hg.excl.only .sink (.worker w) x hmem (mem_worker.2 hw)
      rintro (h1 | h1)
      · cases hg.excl.only .sink .park x hmem h1
      · cases hg.excl.only .sink .hand x hmem (by simp [Srv.cell, h1])
    have hfree' : ({ s with sys := u } : Srv).At x .free := ⟨hfree.1, fun hp => hfree.2 (hshift.parked hp)⟩
    obtain rfl := (hshift.good hg).at_unique hat hfree'
    have hrole : (s.sys.conn x).role = .ROLE_SINK := ((hg.fine x).fits .sink hmem).2
    refine ⟨.free, [], hfree, .sink ?_ hrole ?_, (List.append_nil _).symm⟩
    · exact ⟨htouch.1, htouch.2, htouch.3, htouch.4, htouch.5, htouch.6, htouch.7, htouch.8,
        fun hn => absurd trivial hn, htouch.10⟩
    · exact htouch.role.elim (·.trans hrole) id
  · have hline : SameLine (s.conn x) (({ s with sys := u } : Srv).conn x) := by
      refine AggTouch.sameLine ?_ (hshift.role hg)
      exact ⟨htouch.1, htouch.2, htouch.3, htouch.4, htouch.5, htouch.6, htouch.7, htouch.8, fun _ => htouch.9 hsink,
        htouch.10⟩
    cases d' with
    | work q => exact ⟨.work q, [], hat, .pass (.stay _) hline, (List.append_nil _).symm⟩
    | parked => exact ⟨.parked, [], hshift.parked hat, .pass (.stay _) hline, (List.append_nil _).symm⟩
    | free =>
      by_cases hp : x ∈ s.sys.park ∨ s.sys.pc.hand = some x
      · exact ⟨.parked, [], hp, .pass .resumed hline, (List.append_nil _).symm⟩
      · exact ⟨.free, [], ⟨hat.1, hp⟩, .pass (.stay _) hline, (List.append_nil _).symm⟩

/-- the connection that is accepted is new; for any other one a step of the server is a step of the small machine -/
theorem srvStep_sees (hg : Good s) (h : srvStep conf s b = some t) (hx : b = .accept → x ≠ s.nextId) (hat : t.At x d') :
    s.Sees conf b t x d' := by
  cases b with
  | worker w e => exact workerStep_sees hg h hat
  | agg e =>
    obtain ⟨u, hu, rfl⟩ := Option.map_eq_some_iff.1 h
    exact aggStep_sees hg hu hat
  | accept =>
    obtain rfl := Option.some.inj h
    exact sees_same hat (setConn_conn_of_ne _ (hx rfl)) rfl rfl rfl
  | enqueue c =>
    simp only [srvStep] at h
    split_ifs at h
    obtain rfl := Option.some.inj h
    exact sees_same hat rfl rfl rfl rfl
  | fetch c =>
    simp only [srvStep] at h
    split_ifs at h
    obtain rfl := Option.some.inj h
    refine ⟨d', [], hat, .pass (.stay d') ?_, (List.append_nil _).symm⟩
    by_cases hc : x = c
    · subst hc
      show SameLine (s.conn x) ((s.setConn x { s.conn x with reg := .disabled }).conn x)
      rw [setConn_conn_self]
      exact ⟨rfl, rfl, rfl, rfl, rfl, rfl, rfl, rfl, rfl, rfl⟩
    · show SameLine (s.conn x) ((s.setConn c { s.conn c with reg := .disabled }).conn x)
      rw [setConn_conn_of_ne _ hc]
      exact .refl _
  | deliver c bytes fin =>
    simp only [srvStep] at h
    split_ifs at h
    obtain rfl := Option.some.inj h
    by_cases hc : x = c
    · subst hc
      refine ⟨d', [], hat, ?_, (List.append_nil _).symm⟩
      rw [setConn_conn_self, show (Act.deliver x bytes fin).arrives x = bytes.length from if_pos rfl]
      exact .arrive bytes fin
    · exact sees_same hat (setConn_conn_of_ne _ hc) rfl (if_neg (Ne.symm hc)) rfl

/-! ## Every run -/

/-- nothing happened yet to the connections still to come -/
def Unborn (n : Node) : Prop :=
  ∀ c, n.srv.nextId ≤ c → n.sent c = [] ∧ n.got c = 0 ∧ n.srv.completed c = []

variable {W : ℕ} {n m n0 : Node} {a : NodeAct}

/-- nothing is written to it, completed on it or delivered to it before it is accepted -/
theorem srvStep_unborn (hg : Good s) (h : srvStep conf s b = some t) {c : ℕ} (hc : t.nextId ≤ c) :
    s.writes b c = [] ∧ b.arrives c = 0 ∧ t.completed c = s.completed c := by
  have hold : s.nextId ≤ c := (srvStep_nextId h).trans hc
  have hx : b = .accept → c ≠ s.nextId := by
    rintro rfl rfl
    obtain rfl := Option.some.inj h
    exact absurd hc (Nat.not_succ_le_self _)
  have harr : b.arrives c = 0 := by
    cases b with
    | deliver c' bytes fin =>
      refine if_neg fun heq => ?_
      subst heq
      simp only [srvStep] at h
      split_ifs at h with hlive
      rw [(hg.fine c').dead hold] at hlive
      cases hlive.1
    | _ => rfl
  obtain ⟨d', hat⟩ := t.at_exists c
  obtain ⟨d, ms, hfrom, hstep, hdone⟩ := srvStep_sees hg h hx hat
  suffices hquiet : s.writes b c = [] ∧ ms = [] by
    rw [hdone, hquiet.2, List.append_nil]
    exact ⟨hquiet.1, harr, rfl⟩
  generalize s.writes b c = out at hstep
  generalize b.arrives c = k at hstep
  generalize s.conn c = v at hstep
  generalize t.conn c = v' at hstep
  cases hstep with
  | arrive | pass | sink => exact ⟨rfl, rfl⟩
  | work hdeal =>
    obtain ⟨hheld, w, rfl⟩ := hfrom
    exact absurd (hg.known (mem_worker.2 hheld)) (not_lt.2 hold)

theorem nodeStep_unborn (hg : Good n.srv) (hu : Unborn n) (h : nodeStep conf W n a = some m) : Unborn m := by
  rcases nodeStep_cases h with ⟨b, s, rfl, -, hs, rfl⟩ | ⟨e, r, rfl, -, rfl⟩
  · intro c hc
    obtain ⟨h1, h2, h3⟩ := hu c ((srvStep_nextId hs).trans hc)
    obtain ⟨g1, g2, g3⟩ := srvStep_unborn hg hs hc
    dsimp only
    rw [h1, h2, g1, g2, g3, h3]
    exact ⟨rfl, rfl, rfl⟩
  · exact hu

theorem node_unborn {ok : Node → NodeAct → Prop} {client : ℕ → UpstreamClient} {count : ℕ}
    (h : Reach (nodeStep conf W) ok (.start client count) n) : Unborn n :=
  h.invariant_of (fun _ hs => node_good hs) (fun _ _ => ⟨rfl, rfl, rfl⟩) fun _ _ _ hg hu _ hstep => nodeStep_unborn hg hu hstep

/-- **Every step of the program is a step of the small machine**, for every connection but the one accepted in it. -/
theorem nodeStep_source (hg : Good n.srv) (h : nodeStep conf W n a = some m) (hx : a = .srv .accept → x ≠ n.srv.nextId)
    (hat : m.srv.At x d') : ∃ d out k ms, n.srv.At x d ∧ SourceStep conf x d (n.srv.conn x) d' (m.srv.conn x) out k ms ∧
      m.sent x = n.sent x ++ out ∧ m.got x = n.got x + k ∧ m.srv.completed x = n.srv.completed x ++ ms := by
  rcases nodeStep_cases h with ⟨b, s, rfl, -, hs, rfl⟩ | ⟨e, r, rfl, -, rfl⟩
  · obtain ⟨d, ms, hfrom, hstep, hdone⟩ := srvStep_sees hg hs (fun hb => hx (congrArg NodeAct.srv hb)) hat
    exact ⟨d, _, _, ms, hfrom, hstep, rfl, rfl, hdone⟩
  · exact ⟨d', [], 0, [], hat, .same d' _, (List.append_nil _).symm, rfl, (List.append_nil _).symm⟩

/-- a connection that is there after a step that did not accept it was there before -/
theorem nodeStep_known (h : nodeStep conf W n a = some m) (hx : a = .srv .accept → x ≠ n.srv.nextId)
    (hlt : x < m.srv.nextId) : x < n.srv.nextId := by
  rcases nodeStep_cases h with ⟨b, s, rfl, -, hs, rfl⟩ | ⟨e, r, rfl, -, rfl⟩
  · rcases srvStep_given hs with ⟨rfl, hnext⟩ | ⟨-, hnext⟩
    · have hne := hx rfl
      have hlt : x < s.nextId := hlt
      omega
    · exact hnext ▸ hlt
  · exact hlt

/-- a connection that was just accepted is free -/
theorem accept_free (hg : Good n.srv) (h : nodeStep conf W n (.srv .accept) = some m) :
    m.srv.At n.srv.nextId .free := by
  rcases nodeStep_cases h with ⟨b, s, hb, -, hs, rfl⟩ | ⟨e, r, hb, -⟩
  · obtain rfl := NodeAct.srv.inj hb
    obtain rfl := Option.some.inj hs
    have hnone : ∀ p, n.srv.nextId ∉ n.srv.cell p := fun p hp => lt_irrefl _ (hg.known hp)
    refine ⟨fun w hw => hnone (.worker w) (mem_worker.2 hw), ?_⟩
    rintro (hp | hp)
    · exact hnone .park hp
    · exact hnone .hand (Option.mem_toList.2 hp)
  · cases hb

/-- **Invariant rule for one connection.** What holds of a connection nothing happened to and is kept by the small machine
holds of every connection from the step in which it is accepted, in every run. -/
theorem nodeReach_source {ok : Node → NodeAct → Prop} {P : Desk → Conn → Bytes → ℕ → List Msg → Prop}
    {client : ℕ → UpstreamClient} {count : ℕ}
    (hnew : ∀ reg live, P .free { connNew x with reg := reg, live := live } [] 0 [])
    (hs : ∀ d v out k ms d' v' out' k' ms', P d v out k ms → SourceStep conf x d v d' v' out' k' ms' →
      P d' v' (out ++ out') (k + k') (ms ++ ms'))
    (h : Reach (nodeStep conf W) ok (.start client count) n) (hx : x < n.srv.nextId) :
    ∀ d, n.srv.At x d → P d (n.srv.conn x) (n.sent x) (n.got x) (n.srv.completed x) := by
  have hall : x < n.srv.nextId → ∀ d, n.srv.At x d → P d (n.srv.conn x) (n.sent x) (n.got x) (n.srv.completed x) := by
    refine h.invariant_of (P := fun n => Good n.srv ∧ Unborn n)
      (Q := fun n => x < n.srv.nextId → ∀ d, n.srv.At x d → P d (n.srv.conn x) (n.sent x) (n.got x) (n.srv.completed x))
      (fun _ hn => ⟨node_good hn, node_unborn hn⟩) (fun _ d hat => ?_) ?_
    · have hfree : Srv.start.At x .free := ⟨fun _ => nofun, nofun⟩
      obtain rfl := start_good.at_unique hat hfree
      exact hnew .absent false
    rintro n a m ⟨hg, hu⟩ hP - hstep hlt d' hat
    by_cases hx : a = .srv .accept ∧ x = n.srv.nextId
    · -- the connection is accepted in this step
      obtain ⟨rfl, rfl⟩ := hx
      obtain ⟨h1, h2, h3⟩ := hu n.srv.nextId le_rfl
      have hfree : m.srv.At n.srv.nextId .free := accept_free hg hstep
      obtain rfl := (nodeStep_good hg hstep).at_unique hat hfree
      obtain ⟨b, s, hb, -, hs', rfl⟩ | ⟨e, r, hb, -⟩ := nodeStep_cases hstep
      · obtain rfl := NodeAct.srv.inj hb
        obtain rfl := Option.some.inj hs'
        have hconn : ({ n.srv.setConn n.srv.nextId (connNew n.srv.nextId) with nextId := n.srv.nextId + 1 } : Srv).conn
            n.srv.nextId = connNew n.srv.nextId := setConn_conn_self _ _ _
        have hsent : n.sent n.srv.nextId ++ n.srv.writes .accept n.srv.nextId = [] := by rw [h1]; rfl
        have hgot : n.got n.srv.nextId + Act.accept.arrives n.srv.nextId = 0 := by rw [h2]; rfl
        dsimp only
        rw [hconn, hsent, hgot]
        exact h3 ▸ hnew (.armed false) true
      · cases hb
    · have hne : a = .srv .accept → x ≠ n.srv.nextId := fun ha hxn => hx ⟨ha, hxn⟩
      obtain ⟨d, out, k, ms, hfrom, hsrc, h1, h2, h3⟩ := nodeStep_source hg hstep hne hat
      rw [h1, h2, h3]
      exact hs _ _ _ _ _ _ _ _ _ _ (hP (nodeStep_known hstep hne hlt) d hfrom) hsrc
  exact hall hx

end WsServer
