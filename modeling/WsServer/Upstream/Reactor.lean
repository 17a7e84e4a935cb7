/-
`upstreamReactorThread` of `src/ws_client.c`: the loop over all clients.

The thread has one client in its hands at a time (`UpPc.busy`). Where it stands with that client is a `Hand`, and
`handStep` is one step of the functions called on it: `handleUpstreamEvent` (`reported`, `shaking`, `leaving`),
`readUpstreamFrames` (`receiving`), `processBufferedFrames` (`processing`), `publishReactorMessage` (`publishing`,
`pushing`) and the body of the loop of `resumePausedClients` (`resuming`). A step ends where another thread could see a
difference, which is at the queue only, and no step makes one system call twice.

- `upStep`: one step of the thread, or of the others, who may do anything to dataQueue.
- `ClientStep`: the reactor seen from one client; `reactorStep_client` says that every step of the thread is a step of
  this small machine for every client.
- `upReach_client`: an invariant of the small machine holds of every client in every run.
-/
import Mathlib
import WsServer.Core.Machine
import WsServer.Upstream.Client

namespace WsServer

open Ws Machine

/-! ## One client in the hands of the thread -/

/-- who called `processBufferedFrames`; `hup`: EPOLLHUP or EPOLLRDHUP is set in the event -/
inductive Caller where
  | resume
  | read (hup : Bool)
deriving DecidableEq, Repr

inductive Hand where
  /-- the thread has nothing to do with the client -/
  | rest
  /-- an event waits, `handleUpstreamEvent` is called on it -/
  | reported (fl : EpollFlags)
  /-- behind the flush of `handleUpstreamEvent` -/
  | shaking (fl : EpollFlags)
  | receiving (hup : Bool)
  /-- the last test of `handleUpstreamEvent` -/
  | leaving (hup : Bool)
  | processing (k : Caller)
  /-- `publishReactorMessage`: the test of the watermark, the push -/
  | publishing (k : Caller) (m : Msg)
  | pushing (k : Caller) (m : Msg)
  | resuming
deriving DecidableEq

/-- where the caller goes on when `processBufferedFrames` does not fail -/
def Caller.after (k : Caller) (c : UpstreamClient) : Hand :=
  match k with
  | .resume => .rest
  | .read hup => if c.state ≠ .UPSTREAM_OPEN ∨ c.readPaused = true then .leaving hup else .receiving hup

def EpollFlags.gone (fl : EpollFlags) : Bool := fl.hup || fl.rdhup

/-- `handleUpstreamEvent` up to the flush -/
def upstreamEventHead (e : UpEnv) (fl : EpollFlags) (c : UpstreamClient) : Hand × UpstreamClient :=
  if fl.err then (.rest, upstreamDisconnect e c)
  else if fl.out ∧ c.state = .UPSTREAM_CONNECTING then
    if e.connected then
      let r := queueHandshake e c
      (.rest, if r.1 then r.2 else upstreamDisconnect e r.2)
    else (.rest, upstreamDisconnect e c)
  else if fl.out then
    let r := flushUpstreamTx e c
    if r.1 = false then (.rest, upstreamDisconnect e r.2)
    else if r.2.state = .UPSTREAM_CLOSING ∧ bufLen r.2.tx = 0 then (.rest, upstreamDisconnect e r.2)
    else (.shaking fl, r.2)
  else (.shaking fl, c)

/-- the reading part of `handleUpstreamEvent`: the handshake, then the start of `readUpstreamFrames` -/
def upstreamEventRead (conf : ServerConfig) (e : UpEnv) (fl : EpollFlags) (c : UpstreamClient) :
    Hand × UpstreamClient :=
  let r := if fl.inn ∧ c.state = .UPSTREAM_HANDSHAKE then readHandshake conf e c else (true, c)
  if r.1 = false then (.rest, upstreamDisconnect e r.2)
  else if fl.inn ∧ r.2.state = .UPSTREAM_OPEN then (.processing (.read fl.gone), r.2)
  else (.leaving fl.gone, r.2)

/-- a paused client is let go; its message is pushed in the same step -/
def UpstreamClient.resumed (c : UpstreamClient) : UpstreamClient :=
  { (c.pendingMsg.elim c c.record) with pendingMsg := none, readPaused := false }

/-- one step with the client in hand; `size` is the size of dataQueue as it is now -/
def handStep (conf : ServerConfig) (e : UpEnv) (size : ℕ) (h : Hand) (c : UpstreamClient) : Hand × UpstreamClient :=
  match h with
  | .rest => (.rest, c)
  | .reported fl => upstreamEventHead e fl c
  | .shaking fl => upstreamEventRead conf e fl c
  | .receiving hup =>
    match e.recv with
    | .got bs => (.processing (.read hup), c.receive bs)
    | .again => (.leaving hup, c)
    | .eof => (.rest, upstreamDisconnect e c)
    | .err => (.rest, upstreamDisconnect e c)
  | .leaving hup => (.rest, if hup then upstreamDisconnect e c else c)
  | .processing k =>
    match upstreamFrame conf e c with
    | .ret true c => (k.after c, c)
    | .ret false c => (.rest, upstreamDisconnect e c)
    | .next c => (.processing k, c)
    | .message c opcode data => (.publishing k (msgNewData c.id opcode e.ts data), c)
  | .publishing k m =>
    let r := publishReactorMessage conf e size c m
    if r.1 = 0 then (.pushing k m, r.2)
    else if r.1 = 1 then (k.after r.2, r.2)
    else (.rest, upstreamDisconnect e r.2)
  | .pushing k m => (.processing k, c.record m)
  | .resuming =>
    let r := updateEvents e c.resumed
    if r.1 then (.processing .resume, r.2) else (.rest, upstreamDisconnect e r.2)

/-- the message the step pushes to dataQueue -/
def Hand.pushes (h : Hand) (c : UpstreamClient) : Option Msg :=
  match h with
  | .pushing _ m => some m
  | .resuming => c.pendingMsg
  | _ => none

/-! ## The thread -/

abbrev Events := List (ℕ × EpollFlags)

/-- what the thread goes back to from a client -/
inductive Back where
  | resume
  | events (evs : Events)
deriving DecidableEq

inductive UpPc where
  /-- the head of the loop -/
  | top
  | reconnect (i now : ℕ)
  /-- `resumePausedClients`: the test of the low watermark, then its loop -/
  | resume
  | resumeAt (i : ℕ)
  | wait
  | events (evs : Events)
  | busy (i : ℕ) (h : Hand) (back : Back)
  | done
deriving DecidableEq

structure Reactor where
  client : ℕ → UpstreamClient
  count : ℕ
  pc : UpPc

/-- `epoll_wait` reports what was asked for; EPOLLERR, EPOLLHUP and EPOLLRDHUP always may be set -/
def Reported (c : UpstreamClient) (fl : EpollFlags) : Prop :=
  c.interest.any fun w => (fl.inn → w.inn) ∧ (fl.out → w.out)

instance (c : UpstreamClient) (fl : EpollFlags) : Decidable (Reported c fl) := by unfold Reported; infer_instance

/-- a result of `epoll_wait`: every descriptor at most once -/
def Reactor.mayReport (r : Reactor) (evs : Events) : Prop :=
  evs.length ≤ 64 ∧ (evs.map Prod.fst).Nodup ∧ ∀ ev ∈ evs, ev.1 < r.count ∧ Reported (r.client ev.1) ev.2

instance (r : Reactor) (evs : Events) : Decidable (r.mayReport evs) := by unfold Reactor.mayReport; infer_instance

def Reactor.setClient (r : Reactor) (i : ℕ) (c : UpstreamClient) : Reactor :=
  { r with client := Function.update r.client i c }

/-- where the thread stands when it is finished with client `i` -/
def Back.pc (i : ℕ) : Back → UpPc
  | .resume => .resumeAt (i + 1)
  | .events evs => .events evs

/-- one step of the thread; dataQueue is shared -/
def reactorStep (conf : ServerConfig) (q : Queue Msg) (r : Reactor) (e : UpEnv) : Option (Queue Msg × Reactor) :=
  match r.pc with
  | .top => some (q, { r with pc := if e.shutdown then .done else .reconnect 0 e.now })
  | .reconnect i now =>
    if i < r.count then
      some (q, { r.setClient i (reconnectClient e now (r.client i)) with pc := .reconnect (i + 1) now })
    else some (q, { r with pc := .resume })
  | .resume => some (q, { r with pc := if conf.lowWatermark < queueSize q then .wait else .resumeAt 0 })
  | .resumeAt i =>
    if i < r.count then
      if (r.client i).readPaused = false then some (q, { r with pc := .resumeAt (i + 1) })
      else if conf.highWatermark ≤ queueSize q then some (q, { r with pc := .wait })
      else some (q, { r with pc := .busy i .resuming .resume })
    else some (q, { r with pc := .wait })
  | .wait =>
    match e.wait with
    | .interrupted => some (q, { r with pc := .top })
    | .failed => some (q, { r with pc := .done })
    | .events evs => if r.mayReport evs then some (q, { r with pc := .events evs }) else none
  | .events [] => some (q, { r with pc := .top })
  | .events ((i, fl) :: evs) => some (q, { r with pc := .busy i (.reported fl) (.events evs) })
  | .busy i h back =>
    let next := handStep conf e (queueSize q) h (r.client i)
    some ((h.pushes (r.client i)).elim q (push q),
      { r.setClient i next.2 with pc := if next.1 = .rest then back.pc i else .busy i next.1 back })
  | .done => none

structure UpSys where
  queue : Queue Msg
  reactor : Reactor

inductive UpAct where
  | step (e : UpEnv)
  /-- the other threads push to dataQueue and take from it -/
  | others (q : Queue Msg)

def upStep (conf : ServerConfig) (s : UpSys) : UpAct → Option UpSys
  | .step e => (reactorStep conf s.queue s.reactor e).map fun t => ⟨t.1, t.2⟩
  | .others q => some { s with queue := q }

/-- the reactor at its start, with the clients `main` added -/
def UpSys.start (client : ℕ → UpstreamClient) (count : ℕ) : UpSys := ⟨createQueue, ⟨client, count, .top⟩⟩

/-- clients as `upstreamAdd` makes them -/
def Added (client : ℕ → UpstreamClient) : Prop :=
  ∀ i, ∃ id host port path, upstreamAdd id host port path = some (client i)

/-! ## Seen from one client -/

/-- the event of client `i` that still waits -/
def Events.hand (evs : Events) (i : ℕ) : Hand := ((evs.find? (·.1 = i)).map fun ev => Hand.reported ev.2).getD .rest

def Back.hand (i : ℕ) : Back → Hand
  | .resume => .rest
  | .events evs => evs.hand i

def UpPc.hand (i : ℕ) : UpPc → Hand
  | .events evs => evs.hand i
  | .busy j h back => if j = i then h else back.hand i
  | _ => .rest

/-- its time to reconnect has come -/
def UpstreamClient.Due (c : UpstreamClient) (now : ℕ) : Prop := c.state = .UPSTREAM_DISCONNECTED ∧ c.reconnectAtMs ≤ now

instance (c : UpstreamClient) (now : ℕ) : Decidable (c.Due now) := by unfold UpstreamClient.Due; infer_instance

/-- the client whose turn it is; one that waits for its time is passed over -/
def Reactor.turn (r : Reactor) : Option ℕ :=
  match r.pc with
  | .reconnect i now => if (r.client i).Due now then some i else none
  | .busy i _ _ => some i
  | _ => none

/-- a condition on what the thread does with a client: the environment, the queue size, where it stands, the client -/
abbrev Condition := UpEnv → ℕ → Hand → UpstreamClient → Prop

/-- every step meets the condition on the client it is about -/
def Meets (cond : Condition) (s : UpSys) : UpAct → Prop
  | .step e => ∀ i, s.reactor.turn = some i → cond e (queueSize s.queue) (s.reactor.pc.hand i) (s.reactor.client i)
  | .others _ => True

instance {cond : Condition} [∀ e n h c, Decidable (cond e n h c)] (s : UpSys) (a : UpAct) :
    Decidable (Meets cond s a) :=
  match a with
  | .others _ => .isTrue trivial
  | .step e =>
    match ht : s.reactor.turn with
    | none => .isTrue fun i hi => by rw [ht] at hi; cases hi
    | some j =>
      decidable_of_iff (cond e (queueSize s.queue) (s.reactor.pc.hand j) (s.reactor.client j))
        ⟨fun h i hi => by rw [ht] at hi; obtain rfl := Option.some.inj hi; exact h, fun h => h j ht⟩

/-- a run without a condition -/
theorem upReach_any {conf : ServerConfig} {s0 s : UpSys} (h : Reachable (upStep conf) s0 s) :
    Reach (upStep conf) (Meets fun _ _ _ _ => True) s0 s := by
  apply h.mono
  intro s a _
  cases a with
  | step e => exact fun _ _ => trivial
  | others q => trivial

/-- the small machine of one client -/
inductive ClientStep (conf : ServerConfig) (cond : Condition) (e : UpEnv) (size : ℕ) (c : UpstreamClient) :
    Hand → Hand → UpstreamClient → Prop where
  | same (h : Hand) : ClientStep conf cond e size c h h c
  | report (fl : EpollFlags) : Reported c fl → ClientStep conf cond e size c .rest (.reported fl) c
  | reconnect (now : ℕ) : (c.Due now → cond e size .rest c) →
      ClientStep conf cond e size c .rest .rest (reconnectClient e now c)
  | pick : c.readPaused = true → ClientStep conf cond e size c .rest .resuming c
  | hand (h : Hand) : h ≠ .rest → cond e size h c →
      ClientStep conf cond e size c h (handStep conf e size h c).1 (handStep conf e size h c).2

/-- the events that wait are about different clients, none of them the one in hand -/
def UpPc.Tidy : UpPc → Prop
  | .events evs => (evs.map Prod.fst).Nodup
  | .busy i h back => h ≠ .rest ∧ match back with
    | .resume => True
    | .events evs => (evs.map Prod.fst).Nodup ∧ i ∉ evs.map Prod.fst
  | _ => True

theorem Events.hand_none {evs : Events} {i : ℕ} (h : i ∉ evs.map Prod.fst) : evs.hand i = .rest := by
  unfold Events.hand
  rw [List.find?_eq_none.2]
  · rfl
  · intro ev hev he
    exact h (List.mem_map.2 ⟨ev, hev, of_decide_eq_true he⟩)

theorem Events.hand_some {evs : Events} {i : ℕ} (h : evs.hand i ≠ .rest) : ∃ fl, (i, fl) ∈ evs ∧ evs.hand i = .reported fl := by
  unfold Events.hand at h ⊢
  cases hf : evs.find? (·.1 = i) with
  | none => rw [hf] at h; exact absurd rfl h
  | some ev =>
    obtain ⟨j, fl⟩ := ev
    have hj := List.find?_some hf
    rw [decide_eq_true_eq] at hj
    subst hj
    exact ⟨fl, List.mem_of_find?_eq_some hf, rfl⟩

theorem Events.hand_cons (i j : ℕ) (fl : EpollFlags) (evs : Events) :
    Events.hand ((j, fl) :: evs) i = if j = i then .reported fl else evs.hand i := by
  unfold Events.hand
  by_cases h : j = i
  · rw [if_pos h, List.find?_cons_of_pos (by simpa using h)]
    rfl
  · rw [if_neg h, List.find?_cons_of_neg (by simpa using h)]

theorem Back.hand_pc (i j : ℕ) (back : Back) : (back.pc j).hand i = back.hand i := by
  cases back <;> rfl

section
variable {conf : ServerConfig} {cond : Condition}

/-- only client `j` moves -/
theorem clientStep_update {e : UpEnv} {size j : ℕ} {client : ℕ → UpstreamClient} {v : UpstreamClient} {pc pc' : UpPc}
    (hj : ClientStep conf cond e size (client j) (pc.hand j) (pc'.hand j) v)
    (hne : ∀ i, i ≠ j → pc'.hand i = pc.hand i) (i : ℕ) :
    ClientStep conf cond e size (client i) (pc.hand i) (pc'.hand i) (Function.update client j v i) := by
  by_cases hi : i = j
  · subst hi
    rw [Function.update_self]
    exact hj
  · rw [Function.update_of_ne hi, hne i hi]
    exact .same _

/-- no client moves -/
theorem clientStep_same {e : UpEnv} {size : ℕ} {client : ℕ → UpstreamClient} {pc pc' : UpPc}
    (h : ∀ i, pc'.hand i = pc.hand i) (i : ℕ) :
    ClientStep conf cond e size (client i) (pc.hand i) (pc'.hand i) (client i) := by
  rw [h i]
  exact .same _

/-- **Seen from one client the reactor is the small machine**: a step of the thread moves the client whose turn it is,
and no other. -/
theorem reactorStep_client {s : UpSys} {e : UpEnv} {q' : Queue Msg} {r' : Reactor}
    (ht : s.reactor.pc.Tidy) (hok : Meets cond s (.step e)) (h : reactorStep conf s.queue s.reactor e = some (q', r')) :
    r'.pc.Tidy ∧ r'.count = s.reactor.count ∧ ∀ i, ClientStep conf cond e (queueSize s.queue) (s.reactor.client i)
      (s.reactor.pc.hand i) (r'.pc.hand i) (r'.client i) := by
  obtain ⟨q, client, count, pc⟩ := s
  unfold Meets at hok
  unfold reactorStep at h
  cases pc with
  | top =>
    obtain ⟨rfl, rfl⟩ := Prod.mk.inj (Option.some.inj h)
    cases e.shutdown <;> exact ⟨trivial, rfl, clientStep_same fun _ => rfl⟩
  | reconnect j now =>
    dsimp only at h hok
    split_ifs at h with hj
    · obtain ⟨rfl, rfl⟩ := Prod.mk.inj (Option.some.inj h)
      exact ⟨trivial, rfl, clientStep_update (.reconnect now fun hd => hok j (if_pos hd)) fun _ _ => rfl⟩
    · obtain ⟨rfl, rfl⟩ := Prod.mk.inj (Option.some.inj h)
      exact ⟨trivial, rfl, clientStep_same fun _ => rfl⟩
  | resume =>
    dsimp only at h
    split_ifs at h <;> obtain ⟨rfl, rfl⟩ := Prod.mk.inj (Option.some.inj h) <;>
      exact ⟨trivial, rfl, clientStep_same fun _ => rfl⟩
  | resumeAt j =>
    dsimp only at h
    split_ifs at h with h1 h2 h3 <;> obtain ⟨rfl, rfl⟩ := Prod.mk.inj (Option.some.inj h)
    · exact ⟨trivial, rfl, clientStep_same fun _ => rfl⟩
    · exact ⟨trivial, rfl, clientStep_same fun _ => rfl⟩
    · refine ⟨⟨nofun, trivial⟩, rfl, fun i => ?_⟩
      rw [Bool.not_eq_false] at h2
      show ClientStep conf cond e (queueSize q) (client i) .rest (if j = i then .resuming else .rest) (client i)
      by_cases hi : j = i
      · subst hi
        rw [if_pos rfl]
        exact .pick h2
      · rw [if_neg hi]
        exact .same _
    · exact ⟨trivial, rfl, clientStep_same fun _ => rfl⟩
  | wait =>
    dsimp only at h
    cases hw : e.wait with
    | interrupted =>
      rw [hw] at h
      obtain ⟨rfl, rfl⟩ := Prod.mk.inj (Option.some.inj h)
      exact ⟨trivial, rfl, clientStep_same fun _ => rfl⟩
    | failed =>
      rw [hw] at h
      obtain ⟨rfl, rfl⟩ := Prod.mk.inj (Option.some.inj h)
      exact ⟨trivial, rfl, clientStep_same fun _ => rfl⟩
    | events evs =>
      rw [hw] at h
      dsimp only at h
      split_ifs at h with hmay
      obtain ⟨rfl, rfl⟩ := Prod.mk.inj (Option.some.inj h)
      refine ⟨hmay.2.1, rfl, fun i => ?_⟩
      by_cases hr : Events.hand evs i = .rest
      · show ClientStep _ _ _ _ _ _ (Events.hand evs i) _
        rw [hr]
        exact .same _
      · obtain ⟨fl, hmem, hfl⟩ := Events.hand_some hr
        show ClientStep _ _ _ _ _ _ (Events.hand evs i) _
        rw [hfl]
        exact .report fl (hmay.2.2 _ hmem).2
  | events evs =>
    cases evs with
    | nil =>
      obtain ⟨rfl, rfl⟩ := Prod.mk.inj (Option.some.inj h)
      exact ⟨trivial, rfl, clientStep_same fun _ => rfl⟩
    | cons ev evs =>
      obtain ⟨j, fl⟩ := ev
      obtain ⟨rfl, rfl⟩ := Prod.mk.inj (Option.some.inj h)
      have hnd : (j :: evs.map Prod.fst).Nodup := ht
      rw [List.nodup_cons] at hnd
      exact ⟨⟨nofun, hnd.2, hnd.1⟩, rfl, clientStep_same fun i => (Events.hand_cons i j fl evs).symm⟩
  | busy j h' back =>
    obtain ⟨rfl, rfl⟩ := Prod.mk.inj (Option.some.inj h)
    obtain ⟨hne, hback⟩ := ht
    have hself : (UpPc.busy j h' back).hand j = h' := if_pos rfl
    have hcond := hok j rfl
    dsimp only at hcond
    rw [hself] at hcond
    have hstep := @ClientStep.hand conf cond e (queueSize q) (client j) h' hne hcond
    have hgone : back.hand j = .rest := by
      cases back with
      | resume => rfl
      | events evs => exact Events.hand_none hback.2
    by_cases hdone : (handStep conf e (queueSize q) h' (client j)).1 = .rest
    · have htidy : (back.pc j).Tidy := by
        cases back with
        | resume => trivial
        | events evs => exact hback.1
      simp only [if_pos hdone]
      refine ⟨htidy, rfl, clientStep_update ?_ fun i hi => ?_⟩
      · rw [Back.hand_pc, hgone, hself, ← hdone]
        exact hstep
      · rw [Back.hand_pc]
        exact (if_neg (Ne.symm hi)).symm
    · simp only [if_neg hdone]
      refine ⟨⟨hdone, hback⟩, rfl, clientStep_update ?_ fun i hi => ?_⟩
      · rw [hself, show (UpPc.busy j (handStep conf e (queueSize q) h' (client j)).1 back).hand j = _ from if_pos rfl]
        exact hstep
      · exact (if_neg (Ne.symm hi)).trans (if_neg (Ne.symm hi)).symm
  | done => cases h

/-- **Invariant rule for the clients.** What holds of each where a run starts and is kept by the small machine holds of each
where it ends, if every step meets the condition; it may name the client. -/
theorem upReach_from {P : ℕ → Hand → UpstreamClient → Prop} {s0 s : UpSys} (ht : s0.reactor.pc.Tidy)
    (h0 : ∀ i, P i (s0.reactor.pc.hand i) (s0.reactor.client i))
    (hs : ∀ i e size h c h' c', P i h c → ClientStep conf cond e size c h h' c' → P i h' c')
    (h : Reach (upStep conf) (Meets cond) s0 s) :
    s.reactor.pc.Tidy ∧ ∀ i, P i (s.reactor.pc.hand i) (s.reactor.client i) := by
  refine h.invariant (P := fun s => s.reactor.pc.Tidy ∧ ∀ i, P i (s.reactor.pc.hand i) (s.reactor.client i)) ⟨ht, h0⟩ ?_
  rintro s l t ⟨ht, hP⟩ hok hl
  cases l with
  | others q =>
    obtain rfl := Option.some.inj hl
    exact ⟨ht, hP⟩
  | step e =>
    obtain ⟨⟨q', r'⟩, hr, rfl⟩ := Option.map_eq_some_iff.1 hl
    obtain ⟨ht', -, hc⟩ := reactorStep_client ht hok hr
    exact ⟨ht', fun i => hs i e _ _ _ _ _ (hP i) (hc i)⟩

/-- the same for the runs of the reactor from its start -/
theorem upReach_each {P : ℕ → Hand → UpstreamClient → Prop} {client : ℕ → UpstreamClient} {count : ℕ}
    (h0 : ∀ i, P i .rest (client i))
    (hs : ∀ i e size h c h' c', P i h c → ClientStep conf cond e size c h h' c' → P i h' c') {s : UpSys}
    (h : Reach (upStep conf) (Meets cond) (UpSys.start client count) s) (i : ℕ) :
    P i (s.reactor.pc.hand i) (s.reactor.client i) := by
  have htidy : (UpSys.start client count).reactor.pc.Tidy := trivial
  exact (upReach_from htidy h0 hs h).2 i

/-- the same for an invariant that does not name the client -/
theorem upReach_client {P : Hand → UpstreamClient → Prop} {client : ℕ → UpstreamClient} {count : ℕ}
    (h0 : ∀ i, P .rest (client i))
    (hs : ∀ e size h c h' c', P h c → ClientStep conf cond e size c h h' c' → P h' c') {s : UpSys}
    (h : Reach (upStep conf) (Meets cond) (UpSys.start client count) s) (i : ℕ) :
    P (s.reactor.pc.hand i) (s.reactor.client i) :=
  upReach_each (P := fun _ => P) h0 (fun _ => hs) h i

end

end WsServer
