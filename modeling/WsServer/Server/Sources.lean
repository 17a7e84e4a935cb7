/-
Who a message is from: accepted connections, numbered by `connNew` from 1 on, and upstream clients, numbered by
`upstreamAdd` from 1000000 on.

- `addUpstreams`: the loop of `main` over the upstreams of the command line.
- `Named`: what holds of the numbers in every run (the step lemma is `nodeStep_named`).
- `sources_apart`: while no connection is numbered past 999999, or no upstream is configured, two sources never share a
  number, an entry of the aggregator or the `src` of an envelope.
- `ids_meet`: the millionth connection has the number of the first upstream.
-/
import Mathlib
import WsServer.Server.Node
import WsServer.Server.Options

namespace WsServer

open Ws Machine

/-! ## The numbers -/

/-- the reactor while `main` adds its clients -/
structure UpstreamReactor where
  clients : List UpstreamClient
  nextId : ℕ

def upstreamCreate : UpstreamReactor := ⟨[], 1000000⟩

/-- `upstreamAdd` with the reactor it is called on; a refused upstream takes no number -/
def UpstreamReactor.add (r : UpstreamReactor) (u : UpstreamConfig) : UpstreamReactor :=
  match upstreamAdd r.nextId u.host u.port u.path with
  | some c => ⟨r.clients ++ [c], r.nextId + 1⟩
  | none => r

/-- the loop of `main` over `conf.upstreams` -/
def addUpstreams (us : List UpstreamConfig) : UpstreamReactor := us.foldl .add upstreamCreate

/-- the clients by their index; there is none at or behind the count -/
def UpstreamReactor.client (r : UpstreamReactor) (i : ℕ) : UpstreamClient :=
  r.clients.getD i (closedClient (1000000 + i))

/-- the program once `main` has started its threads -/
def Node.started (us : List UpstreamConfig) : Node :=
  .start (addUpstreams us).client (addUpstreams us).clients.length

/-- a client as `upstreamAdd` made it, under the number of its place -/
def Numbers (r : UpstreamReactor) : Prop :=
  r.nextId = 1000000 + r.clients.length ∧ ∀ (i : ℕ) (c : UpstreamClient), r.clients[i]? = some c →
    ∃ host port path, upstreamAdd (1000000 + i) host port path = some c

theorem Numbers.add {r : UpstreamReactor} (h : Numbers r) (u : UpstreamConfig) : Numbers (r.add u) := by
  obtain ⟨hnext, hall⟩ := h
  unfold UpstreamReactor.add
  cases hadd : upstreamAdd r.nextId u.host u.port u.path with
  | none => exact ⟨hnext, hall⟩
  | some c =>
    refine ⟨?_, fun i d hd => ?_⟩
    · rw [List.length_append, List.length_singleton, hnext, Nat.add_assoc]
    · rcases lt_or_ge i r.clients.length with hi | hi
      · exact hall i d (by rwa [List.getElem?_append_left hi] at hd)
      · rw [List.getElem?_append_right hi, List.getElem?_singleton] at hd
        split_ifs at hd with h0
        obtain rfl := Option.some.inj hd
        obtain rfl : i = r.clients.length := by omega
        exact ⟨_, _, _, hnext ▸ hadd⟩

theorem addUpstreams_numbers (us : List UpstreamConfig) : Numbers (addUpstreams us) := by
  have hfold : ∀ (us : List UpstreamConfig) (r : UpstreamReactor), Numbers r → Numbers (us.foldl .add r) := by
    intro us
    induction us with
    | nil => exact fun _ h => h
    | cons u us ih => exact fun r h => ih _ (h.add u)
  have hcreate : Numbers upstreamCreate := by
    unfold upstreamCreate
    exact ⟨by simp, fun i c hc => by simp at hc⟩
  exact hfold us _ hcreate

theorem addUpstreams_client (us : List UpstreamConfig) (i : ℕ) :
    ∃ host port path, upstreamAdd (1000000 + i) host port path = some ((addUpstreams us).client i) := by
  unfold UpstreamReactor.client
  rw [List.getD_eq_getElem?_getD]
  cases hi : (addUpstreams us).clients[i]? with
  | some c => exact (addUpstreams_numbers us).2 i c hi
  | none => exact ⟨ascii "feed", 80, ascii "/", by rw [upstreamAdd, if_neg (by decide)]; rfl⟩

theorem addUpstreams_added (us : List UpstreamConfig) : Added (addUpstreams us).client := fun i =>
  ⟨1000000 + i, addUpstreams_client us i⟩

theorem upstreamAdd_id {id port : ℕ} {host path : Bytes} {c : UpstreamClient}
    (h : upstreamAdd id host port path = some c) : c.id = id := by
  unfold upstreamAdd at h
  split_ifs at h
  rw [← Option.some.inj h]

theorem addUpstreams_id (us : List UpstreamConfig) (i : ℕ) : ((addUpstreams us).client i).id = 1000000 + i := by
  obtain ⟨host, port, path, h⟩ := addUpstreams_client us i
  exact upstreamAdd_id h

/-! ## Sources and their messages -/

inductive Source where
  | conn (c : ℕ)
  | upstream (i : ℕ)
deriving DecidableEq

/-- accepted, or one of the clients of the reactor -/
def Node.Has (n : Node) : Source → Prop
  | .conn c => c < n.srv.nextId
  | .upstream i => i < n.reactor.count

/-- every message the source completed -/
def Node.messages (n : Node) : Source → List Msg
  | .conn c => n.srv.completed c
  | .upstream i =>
    (n.reactor.client i).log ++ (n.reactor.pc.hand i).message.toList ++ (n.reactor.client i).pendingMsg.toList

/-- no connection is accepted under a number from 1000000 on, unless there is no upstream -/
def IdsLeft (n : Node) : NodeAct → Prop
  | .srv .accept => n.srv.nextId < 1000000 ∨ n.reactor.count = 0
  | _ => True

instance (n : Node) : DecidablePred (IdsLeft n) := fun a => by unfold IdsLeft; split <;> infer_instance

variable {conf : ServerConfig} {W : ℕ} {n m : Node} {a : NodeAct} {s t : Srv}

/-- what a step does to the messages completed -/
theorem srvStep_completed {b : Act} (hg : Good s) (h : srvStep conf s b = some t) (c : ℕ) :
    ∀ x ∈ t.completed c, x ∈ s.completed c ∨ x.srcId = c := by
  intro x hx
  cases b with
  | accept => obtain rfl := Option.some.inj h; exact .inl hx
  | deliver | fetch | enqueue =>
    simp only [srvStep] at h
    split_ifs at h
    obtain rfl := Option.some.inj h
    exact .inl hx
  | agg e => obtain ⟨u, -, rfl⟩ := Option.map_eq_some_iff.1 h; exact .inl hx
  | worker w e =>
    cases workerStep_shift h with
    | complete d eof m v hw htouch hid =>
      have hx : x ∈ Function.update s.completed d (s.completed d ++ [m]) c := hx
      by_cases hcd : c = d
      · subst hcd
        rw [Function.update_self] at hx
        rcases List.mem_append.1 hx with hx | hx
        · exact .inl hx
        · rw [List.mem_singleton.1 hx]
          exact .inr (hid.trans (hg.fine c).id)
      · rw [Function.update_of_ne hcd] at hx
        exact .inl hx
    | _ => exact .inl hx

/-- what holds of the numbers -/
structure Named (k : ℕ) (n : Node) : Prop where
  completed : ∀ c, ∀ x ∈ n.srv.completed c, x.srcId = c
  count : n.reactor.count = k
  left : n.srv.nextId ≤ 1000000 ∨ k = 0

theorem reactorStep_count {q : Queue Msg} {r : Reactor} {e : UpEnv} {t : Queue Msg × Reactor}
    (h : reactorStep conf q r e = some t) : t.2.count = r.count := by
  unfold reactorStep at h
  cases hpc : r.pc with
  | top | resume | busy => simp only [hpc] at h; obtain rfl := Option.some.inj h; rfl
  | reconnect i now => simp only [hpc] at h; split_ifs at h <;> obtain rfl := Option.some.inj h <;> rfl
  | resumeAt i => simp only [hpc] at h; split_ifs at h <;> obtain rfl := Option.some.inj h <;> rfl
  | wait =>
    simp only [hpc] at h
    split at h
    · obtain rfl := Option.some.inj h; rfl
    · obtain rfl := Option.some.inj h; rfl
    · split_ifs at h; obtain rfl := Option.some.inj h; rfl
  | events evs => cases evs <;> simp only [hpc] at h <;> obtain rfl := Option.some.inj h <;> rfl
  | done => simp only [hpc] at h; cases h

theorem nodeStep_named {k : ℕ} (hg : Good n.srv) (hn : Named k n) (hok : IdsLeft n a) (h : nodeStep conf W n a = some m) :
    Named k m := by
  rcases nodeStep_cases h with ⟨b, s, rfl, -, hs, rfl⟩ | ⟨e, r, rfl, hr, rfl⟩
  · refine ⟨fun c x hx => ?_, hn.count, ?_⟩
    · rcases srvStep_completed hg hs c x hx with hx | hx
      · exact hn.completed c x hx
      · exact hx
    · rcases srvStep_given hs with ⟨rfl, hid⟩ | ⟨-, hid⟩
      · have hroom : n.srv.nextId < 1000000 ∨ n.reactor.count = 0 := hok
        rw [hn.count] at hroom
        show s.nextId ≤ 1000000 ∨ k = 0
        omega
      · show s.nextId ≤ 1000000 ∨ k = 0
        rw [hid]
        exact hn.left
  · exact ⟨hn.completed, (reactorStep_count hr).trans hn.count, hn.left⟩

theorem nodeReach_named {ok : Node → NodeAct → Prop} (hle : ∀ n a, ok n a → IdsLeft n a) {us : List UpstreamConfig}
    (h : Reach (nodeStep conf W) ok (.started us) n) : Named (addUpstreams us).clients.length n := by
  refine h.invariant_of (P := fun n => Good n.srv) (fun n hn => node_good hn) ⟨nofun, rfl, .inl (show 1 ≤ 1000000 by omega)⟩ ?_
  intro n a m hg hn hok hstep
  exact nodeStep_named hg hn (hle _ _ hok) hstep

/-- the number a source has in every run -/
def Source.number : Source → ℕ
  | .conn c => c
  | .upstream i => 1000000 + i

/-- every message carries the number of its source -/
theorem messages_number {us : List UpstreamConfig} (h : Reach (nodeStep conf W) IdsLeft (.started us) n) (b : Source) :
    ∀ x ∈ n.messages b, x.srcId = b.number := by
  intro x hx
  cases b with
  | conn c => exact (nodeReach_named (fun _ _ hok => hok) h).completed c x hx
  | upstream i =>
    have hany : Reach (nodeStep conf W) (NodeMeets fun _ _ _ _ => True) (.started us) n :=
      nodeReach_any (h.mono fun _ _ _ => trivial)
    have hup := nodeReach_up hany
    have htag := upReach_tagged (addUpstreams_added us) (hup.mono fun _ _ _ => trivial) i
    rw [addUpstreams_id] at htag
    rcases List.mem_append.1 hx with hx | hx
    · rcases List.mem_append.1 hx with hx | hx
      · exact htag.log x hx
      · exact htag.waiting x (.inl (Option.mem_toList.1 hx))
    · exact htag.waiting x (.inr (Option.mem_toList.1 hx))

theorem decimal_inj {i j : ℕ} (h : decimal i = decimal j) : i = j := by
  rw [← digitsValue_decimal i, ← digitsValue_decimal j, h]

/-- **Two sources share nothing.** In every run in which no connection is accepted under a number from 1000000 on, or
without upstreams: the messages of two different sources carry different numbers, so they differ in the `src` of their
envelopes, and no entry of the aggregator's table is the entry of both. -/
theorem sources_apart (conf : ServerConfig) (W : ℕ) (us : List UpstreamConfig) (n : Node)
    (h : Reach (nodeStep conf W) IdsLeft (.started us) n) (a b : Source) (ha : n.Has a) (hb : n.Has b) (hne : a ≠ b)
    (x : Msg) (hx : x ∈ n.messages a) (y : Msg) (hy : y ∈ n.messages b) :
    x.srcId ≠ y.srcId ∧ decimal x.srcId ≠ decimal y.srcId ∧
      ∀ e ∈ n.srv.sys.agg.src, ¬ (e.id = x.srcId ∧ e.id = y.srcId) := by
  have hname := nodeReach_named (fun _ _ hok => hok) h
  have hdiff : x.srcId ≠ y.srcId := by
    rw [messages_number h a x hx, messages_number h b y hy]
    intro heq
    have hleft := hname.left
    rw [← hname.count] at hleft
    cases a with
    | conn c =>
      cases b with
      | conn d => exact hne (congrArg Source.conn heq)
      | upstream i =>
        have hc : c < n.srv.nextId := ha
        have hi : i < n.reactor.count := hb
        have heq : c = 1000000 + i := heq
        omega
    | upstream i =>
      cases b with
      | conn d =>
        have hd : d < n.srv.nextId := hb
        have hi : i < n.reactor.count := ha
        have heq : 1000000 + i = d := heq
        omega
      | upstream j =>
        have heq : 1000000 + i = 1000000 + j := heq
        exact hne (congrArg Source.upstream (by omega))
  exact ⟨hdiff, fun hdec => hdiff (decimal_inj hdec), fun e _ he => hdiff (he.1.symm.trans he.2)⟩

/-! ### A connection and an upstream with a message each -/

def feedUrl : UpstreamConfig := ⟨ascii "feed", 80, ascii "/"⟩

/-- connection `c` is accepted, opens, and sends a message -/
def connActs (c : ℕ) : List Act :=
  [Act.accept, .deliver c (hello "/" ++ binFrame 1) .open, .fetch c, .enqueue c] ++
    List.replicate 8 (Act.worker 0 calmWork)

def connRun (c : ℕ) : List NodeAct := (connActs c).map .srv

/-- the steps of the reactor, in the whole program -/
def upRun (l : List UpAct) : List NodeAct :=
  l.filterMap fun a => match a with
    | .step e => some (.up e)
    | .others _ => none

/-- the first upstream opens, and sends a message -/
def upstreamRun : List NodeAct := upRun (opening [0x82, 1, 0x41] ++ calmSteps 4)

theorem sources_apart_first : ∃ n, Reach (nodeStep smallConf 1) IdsLeft (.started [feedUrl]) n ∧
    ∃ x ∈ n.messages (.conn 1), ∃ y ∈ n.messages (.upstream 0), x.srcId ≠ y.srcId ∧ decimal x.srcId ≠ decimal y.srcId ∧
      ∀ e ∈ n.srv.sys.agg.src, ¬ (e.id = x.srcId ∧ e.id = y.srcId) := by
  have hrun : (exec (guarded (nodeStep smallConf 1) IdsLeft) (.started [feedUrl]) (connRun 1 ++ upstreamRun)).map
      (fun n => (n.srv.nextId, n.reactor.count, (n.messages (.conn 1)).map Msg.srcId,
        (n.messages (.upstream 0)).map Msg.srcId)) = some (2, 1, [1], [1000000]) := by decide +kernel
  rw [Option.map_eq_some_iff] at hrun
  obtain ⟨n, hn, hview⟩ := hrun
  simp only [Prod.mk.injEq] at hview
  obtain ⟨hnext, hcount, hx, hy⟩ := hview
  have hreach : Reach (nodeStep smallConf 1) IdsLeft (.started [feedUrl]) n := .of_guarded .start hn
  obtain ⟨x, hxl, -⟩ := List.map_eq_singleton_iff.1 hx
  obtain ⟨y, hyl, -⟩ := List.map_eq_singleton_iff.1 hy
  have hxm : x ∈ n.messages (.conn 1) := by rw [hxl]; exact List.mem_singleton_self x
  have hym : y ∈ n.messages (.upstream 0) := by rw [hyl]; exact List.mem_singleton_self y
  refine ⟨n, hreach, x, hxm, y, hym, sources_apart smallConf 1 [feedUrl] n hreach (.conn 1) (.upstream 0) ?_ ?_ nofun
    x hxm y hym⟩
  · show 1 < n.srv.nextId
    rw [hnext]
    decide
  · show 0 < n.reactor.count
    rw [hcount]
    decide

/-! ### A million connections -/

/-- `k` connections are accepted and nothing else happened -/
def Node.crowded (us : List UpstreamConfig) (k : ℕ) : Node :=
  let n := Node.started us
  let conn := fun c => if 0 < c ∧ c < k + 1 then connNew c else Srv.start.conn c
  { n with srv := { n.srv with sys := { n.srv.sys with conn := conn }, nextId := k + 1 } }

theorem crowded_accept (us : List UpstreamConfig) (k : ℕ) :
    nodeStep conf W (.crowded us k) (.srv .accept) = some (.crowded us (k + 1)) := by
  have hconn : Function.update (fun c => if 0 < c ∧ c < k + 1 then connNew c else Srv.start.conn c) (k + 1)
      (connNew (k + 1)) = fun c => if 0 < c ∧ c < k + 1 + 1 then connNew c else Srv.start.conn c := by
    funext c
    by_cases hc : c = k + 1
    · rw [hc, Function.update_self, if_pos (by omega)]
    · rw [Function.update_of_ne hc]
      exact if_congr (by omega) rfl rfl
  unfold Node.crowded
  rw [← hconn]
  rfl

theorem crowded_reachable (us : List UpstreamConfig) (k : ℕ) :
    Reachable (nodeStep conf W) (.started us) (.crowded us k) := by
  induction k with
  | zero =>
    have hstart : Node.crowded us 0 = .started us := by
      have hconn : (fun c => if 0 < c ∧ c < 0 + 1 then connNew c else Srv.start.conn c) = Srv.start.conn := by
        funext c
        exact if_neg (by omega)
      unfold Node.crowded
      rw [hconn]
      rfl
    rw [hstart]
    exact .start
  | succ k ih => exact .step (.srv .accept) ih trivial (crowded_accept us k)

/-- **The numbers meet.** The millionth connection that is accepted and the first upstream have the same number. -/
theorem ids_meet : ∃ n, Reachable (nodeStep smallConf 1) (.started [feedUrl]) n ∧
    ∃ x ∈ n.messages (.conn 1000000), ∃ y ∈ n.messages (.upstream 0), x.srcId = y.srcId := by
  have hrun : (exec (nodeStep smallConf 1) (.crowded [feedUrl] 999999) (connRun 1000000 ++ upstreamRun)).map
      (fun n => ((n.messages (.conn 1000000)).map Msg.srcId, (n.messages (.upstream 0)).map Msg.srcId)) =
      some ([1000000], [1000000]) := by decide +kernel
  rw [Option.map_eq_some_iff] at hrun
  obtain ⟨n, hn, hview⟩ := hrun
  obtain ⟨hx, hy⟩ := Prod.mk.inj hview
  obtain ⟨x, hxl, hxid⟩ := List.map_eq_singleton_iff.1 hx
  obtain ⟨y, hyl, hyid⟩ := List.map_eq_singleton_iff.1 hy
  refine ⟨n, .of_exec_from (crowded_reachable _ _) (allOk_true _ _) hn, x, ?_, y, ?_, hxid.trans hyid.symm⟩
  · rw [hxl]; exact List.mem_singleton_self x
  · rw [hyl]; exact List.mem_singleton_self y

end WsServer
