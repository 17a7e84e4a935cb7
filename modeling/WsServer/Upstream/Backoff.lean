/-
How often an upstream is tried.

`reconnectClients` tries a client whose time has come. A try or a session that fails puts the next one off by
`reconnectDelayMs`, which doubles from failure to failure up to 30 s and starts again behind a handshake that succeeds. The
machine here is the reactor with a clock that does not go back and, for each client, a record of its tries and handshakes.

- `handStep_handled`: what a step with a client in hand does to its descriptor, its failures and its time.
- `reactorStep_visit`: what a step of the thread does to the clients.
- `tries_spaced`: in every run the tries of a client keep the delays of the failures between them, and a client without a
  connection is due within 30 s.
-/
import Mathlib
import WsServer.Upstream.Steady

namespace WsServer

open Ws Machine

/-! ## The delay -/

theorem doubleDelay_min (attempt delay : ℕ) : min (doubleDelay attempt delay) 30000 = min (delay * 2 ^ attempt) 30000 := by
  induction attempt generalizing delay with
  | zero => rw [doubleDelay, pow_zero, mul_one]
  | succ attempt ih =>
    unfold doubleDelay
    split_ifs with h
    · rw [ih, pow_succ', mul_assoc]
    · -- the loop has stopped, and doubling further would stay above the limit
      have hle : delay ≤ delay * 2 ^ (attempt + 1) := Nat.le_mul_of_pos_right delay (by positivity)
      omega

/-- the delay in closed form -/
theorem reconnectDelayMs_eq (attempt : ℕ) : reconnectDelayMs attempt = min (1000 * 2 ^ attempt) 30000 :=
  doubleDelay_min attempt 1000

theorem reconnectDelayMs_le (attempt : ℕ) : reconnectDelayMs attempt ≤ 30000 := min_le_right _ _

/-! ## The record of a client -/

/-- a try, with the failures that count before it; a handshake that succeeded -/
inductive PaceEvent where
  | tried (now attempt : ℕ)
  | opened
deriving DecidableEq, Repr

/-- the last try, and the failures that count if it fails -/
abbrev Pace := Option (ℕ × ℕ)

def PaceEvent.next (o : Pace) : PaceEvent → Pace
  | .tried now attempt => some (now, attempt)
  | .opened => o.map fun p => (p.1, 0)

/-- a try comes at least the delay behind the one before, with one more failure counted; only what was tried is opened -/
def PaceEvent.Allowed (o : Pace) : PaceEvent → Prop
  | .tried now attempt =>
    match o with
    | none => attempt = 0
    | some (t, failures) => t + min (1000 * 2 ^ failures) 30000 ≤ now ∧ attempt = if failures < 10 then failures + 1 else failures
  | .opened => o.isSome

def Paced : Pace → List PaceEvent → Prop
  | _, [] => True
  | o, e :: es => e.Allowed o ∧ Paced (e.next o) es

/-- where a record ends -/
def paceOf (log : List PaceEvent) : Pace := log.foldl PaceEvent.next none

theorem paced_append (o : Pace) (es : List PaceEvent) (e : PaceEvent) :
    Paced o (es ++ [e]) ↔ Paced o es ∧ e.Allowed (es.foldl PaceEvent.next o) := by
  induction es generalizing o with
  | nil => exact and_comm
  | cons a es ih =>
    show a.Allowed o ∧ Paced (a.next o) (es ++ [e]) ↔ _
    rw [ih, ← and_assoc]
    rfl

theorem paceOf_append (log : List PaceEvent) (e : PaceEvent) : paceOf (log ++ [e]) = e.next (paceOf log) :=
  List.foldl_concat ..

/-! ## The reactor with a clock -/

structure Clocked where
  up : UpSys
  /-- the last time that was read -/
  clock : ℕ
  log : ℕ → List PaceEvent

/-- the step reads a response that is accepted -/
def Hand.opens (conf : ServerConfig) (e : UpEnv) (h : Hand) (c : UpstreamClient) : Bool :=
  match h with
  | .shaking fl => fl.inn ∧ c.state = .UPSTREAM_HANDSHAKE ∧ (readHandshake conf e c).2.state = .UPSTREAM_OPEN
  | _ => false

/-- what a step of the thread notes about client `i` -/
def Reactor.notes (conf : ServerConfig) (e : UpEnv) (r : Reactor) (i : ℕ) : List PaceEvent :=
  match r.pc with
  | .reconnect j now =>
    if j = i ∧ j < r.count ∧ (r.client i).Due now then [.tried now (r.client i).reconnectAttempt] else []
  | .busy j h _ => if j = i ∧ h.opens conf e (r.client i) then [.opened] else []
  | _ => []

def clockedStep (conf : ServerConfig) (p : Clocked) : UpAct → Option Clocked
  | .step e =>
    if p.clock ≤ e.now then
      (upStep conf p.up (.step e)).map fun s => ⟨s, e.now, fun i => p.log i ++ p.up.reactor.notes conf e i⟩
    else none
  | .others q => (upStep conf p.up (.others q)).map fun s => { p with up := s }

def Clocked.start (client : ℕ → UpstreamClient) (count : ℕ) : Clocked := ⟨.start client count, 0, fun _ => []⟩

variable {conf : ServerConfig} {e : UpEnv} {c d : UpstreamClient} {h : Hand} {size now clock : ℕ} {log : List PaceEvent}

theorem clockedStep_up {p p' : Clocked} {a : UpAct} (hs : clockedStep conf p a = some p') :
    upStep conf p.up a = some p'.up := by
  cases a with
  | step e =>
    simp only [clockedStep] at hs
    split_ifs at hs
    obtain ⟨s, hup, rfl⟩ := Option.map_eq_some_iff.1 hs
    exact hup
  | others q =>
    simp only [clockedStep] at hs
    obtain ⟨s, hup, rfl⟩ := Option.map_eq_some_iff.1 hs
    exact hup

/-! ## A step with a client in hand -/

/-- descriptor and count stay -/
structure SameLink (c d : UpstreamClient) : Prop where
  fd : d.fd = c.fd
  attempt : d.reconnectAttempt = c.reconnectAttempt

theorem SameLink.refl (c : UpstreamClient) : SameLink c c := ⟨rfl, rfl⟩

theorem SameLink.trans {f : UpstreamClient} (hl : SameLink c d) (hl' : SameLink d f) : SameLink c f :=
  ⟨hl'.fd.trans hl.fd, hl'.attempt.trans hl.attempt⟩

theorem SameLink.updateEvents (hl : SameLink c d) (e : UpEnv) : SameLink c (updateEvents e d).2 := by
  rcases updateEvents_cases e d with hu | hu <;> rw [hu]
  · exact ⟨hl.fd, hl.attempt⟩
  · exact hl

theorem Queued.sameLink (hq : Queued c d) : SameLink c d := by
  constructor <;> rw [hq.rest]

theorem Core.sameLink (hd : Core c d) : SameLink c d := by
  constructor <;> rw [show d = _ from hd]

theorem sameLink_queueHandshake (e : UpEnv) (c : UpstreamClient) : SameLink c (queueHandshake e c).2 := by
  obtain ⟨accept, hq⟩ | ⟨accept, key, hq⟩ := queueHandshake_cases e c <;> rw [hq]
  · exact ⟨rfl, rfl⟩
  · have hsame : SameLink c (c.withRequest accept key) := ⟨rfl, rfl⟩
    exact hsame.updateEvents e

theorem sameLink_flush (e : UpEnv) (c : UpstreamClient) : SameLink c (flushUpstreamTx e c).2 := by
  obtain hf | hf := flushUpstreamTx_cases e c <;> rw [hf]
  · exact ⟨rfl, rfl⟩
  · have hsame : SameLink c (c.afterSend e) := ⟨rfl, rfl⟩
    exact hsame.updateEvents e

/-- the client keeps its descriptor, or is disconnected; `failures` is what counts -/
inductive Handled (e : UpEnv) (c : UpstreamClient) (failures : ℕ) : UpstreamClient → Prop where
  | kept {d : UpstreamClient} : d.fd = c.fd → d.reconnectAttempt = failures → Handled e c failures d
  | ended {d : UpstreamClient} : d.reconnectAttempt = failures → Handled e c failures (upstreamDisconnect e d)

theorem SameLink.kept (hl : SameLink c d) : Handled e c c.reconnectAttempt d := .kept hl.fd hl.attempt

theorem SameLink.ended (hl : SameLink c d) : Handled e c c.reconnectAttempt (upstreamDisconnect e d) := .ended hl.attempt

theorem head_handled (fl : EpollFlags) : Handled e c c.reconnectAttempt (upstreamEventHead e fl c).2 := by
  have hshake := sameLink_queueHandshake e c
  have hflush := sameLink_flush e c
  unfold upstreamEventHead
  dsimp only
  split_ifs
  · exact (SameLink.refl c).ended
  · exact hshake.kept
  · exact hshake.ended
  · exact (SameLink.refl c).ended
  · exact hflush.ended
  · exact hflush.ended
  · exact hflush.kept
  · exact (SameLink.refl c).kept

/-- a response that is accepted, and no other one, sets the count to 0 -/
theorem readHandshake_opens (fl : EpollFlags) (hin : fl.inn = true ∧ c.state = .UPSTREAM_HANDSHAKE) :
    (readHandshake conf e c).2.fd = c.fd ∧ (readHandshake conf e c).2.reconnectAttempt =
      if (Hand.shaking fl).opens conf e c then 0 else c.reconnectAttempt := by
  have hopens : (Hand.shaking fl).opens conf e c = decide ((readHandshake conf e c).2.state = .UPSTREAM_OPEN) := by
    unfold Hand.opens
    rw [decide_eq_decide]
    exact ⟨fun h => h.2.2, fun h => ⟨hin.1, hin.2, h⟩⟩
  rw [hopens]
  obtain ⟨rx, got, ⟨ok, hr⟩ | hr⟩ := readHandshake_cases conf e c
  · rw [hr]
    refine ⟨rfl, (if_neg ?_).symm⟩
    rw [decide_eq_true_eq, hin.2]
    rintro ⟨⟩
  · rcases updateEvents_cases e { c with
      rx := rx, ses := { c.ses with got := got }, state := .UPSTREAM_OPEN, reconnectAttempt := 0 } with hu | hu <;>
      rw [hr, hu] <;> exact ⟨rfl, (if_pos (decide_eq_true rfl)).symm⟩

theorem read_handled (fl : EpollFlags) :
    Handled e c (if (Hand.shaking fl).opens conf e c then 0 else c.reconnectAttempt) (upstreamEventRead conf e fl c).2 := by
  unfold upstreamEventRead
  by_cases hin : fl.inn = true ∧ c.state = .UPSTREAM_HANDSHAKE
  · obtain ⟨hfd, hattempt⟩ := @readHandshake_opens conf e c fl hin
    rw [if_pos hin, ← hattempt]
    dsimp only
    split_ifs
    · exact .ended rfl
    · exact .kept hfd rfl
    · exact .kept hfd rfl
  · have hno : (Hand.shaking fl).opens conf e c = false := decide_eq_false fun h => hin ⟨h.1, h.2.1⟩
    rw [if_neg hin, hno, if_neg Bool.false_ne_true]
    dsimp only
    rw [if_neg Bool.false_ne_true.symm]
    split_ifs
    · exact .kept rfl rfl
    · exact .kept rfl rfl

theorem processing_handled {k : Caller} (hs : Steady conf True (.processing k) c) :
    Handled e c c.reconnectAttempt (handStep conf e size (.processing k) c).2 := by
  obtain ⟨asm, hagr⟩ := hs.whole.agrees (show Reading c from hs.held).state
  have hf := upstreamFrame_follows conf e hagr
  unfold handStep
  dsimp only
  generalize upstreamFrame conf e c = st at hf
  generalize Rules.move (upstreamLimits conf) asm (bufData c.rx) = mv at hf
  cases hf with
  | rest => exact (SameLink.refl c).kept
  | @stop d s hd hst =>
    have hlink := hd.sameLink.trans (queueMaskedFrame_queued e d opClose (echoOf s)).sameLink
    cases (queueMaskedFrame e d opClose (echoOf s)).1 with
    | true => exact hlink.kept
    | false => exact hlink.ended
  | @pong _ p _ d _ _ hd _ =>
    have hlink := (queueMaskedFrame_queued e c opPong p).sameLink
    rw [hd]
    exact .kept hlink.fd hlink.attempt
  | @noPong _ p _ _ => exact (queueMaskedFrame_queued e c opPong p).sameLink.ended
  | next hd => exact hd.sameLink.kept
  | message hd => exact hd.sameLink.kept

theorem publishing_handled (k : Caller) (m : Msg) :
    Handled e c c.reconnectAttempt (handStep conf e size (.publishing k m) c).2 := by
  have hpaused : SameLink c { c with pendingMsg := some m, readPaused := true } := ⟨rfl, rfl⟩
  have hlink := hpaused.updateEvents e
  unfold handStep publishReactorMessage
  dsimp only
  by_cases hfull : conf.highWatermark ≤ size
  · rw [if_pos hfull]
    cases (updateEvents e { c with pendingMsg := some m, readPaused := true }).1 with
    | true => exact hlink.kept
    | false => exact .ended hlink.attempt
  · rw [if_neg hfull]
    exact (SameLink.refl c).kept

theorem resuming_handled : Handled e c c.reconnectAttempt (handStep conf e size .resuming c).2 := by
  have hresumed : SameLink c c.resumed := by
    unfold UpstreamClient.resumed
    cases c.pendingMsg <;> exact ⟨rfl, rfl⟩
  have hlink := hresumed.updateEvents e
  unfold handStep
  dsimp only
  split_ifs
  · exact hlink.kept
  · exact hlink.ended

/-- **A step with a client in hand.** -/
theorem handStep_handled (hs : Steady conf True h c) :
    Handled e c (if h.opens conf e c then 0 else c.reconnectAttempt) (handStep conf e size h c).2 := by
  cases h with
  | rest => exact (SameLink.refl c).kept
  | reported fl => exact head_handled fl
  | shaking fl => exact read_handled fl
  | receiving hup =>
    unfold handStep
    cases e.recv with
    | got bs => exact .kept rfl rfl
    | again => exact (SameLink.refl c).kept
    | eof => exact (SameLink.refl c).ended
    | err => exact (SameLink.refl c).ended
  | leaving hup =>
    cases hup with
    | true => exact (SameLink.refl c).ended
    | false => exact (SameLink.refl c).kept
  | processing k => exact processing_handled hs
  | publishing k m => exact publishing_handled k m
  | pushing k m => exact .kept rfl rfl
  | resuming => exact resuming_handled

/-- only a client with a descriptor is in hand -/
theorem Steady.fd_of_hand (hs : Steady conf True h c) (hne : h ≠ .rest) : c.fd ≠ none := by
  obtain ⟨hw, hheld⟩ := hs
  cases h with
  | rest => exact absurd rfl hne
  | reported fl => exact hheld.2.1
  | shaking fl => exact hheld.2.1
  | receiving hup => exact hw.fd_of_open hheld.2.state
  | leaving hup => exact hheld.2
  | processing k => exact hw.fd_of_open (show Reading c from hheld).state
  | publishing k m => exact hw.fd_of_open hheld.1.state
  | pushing k m => exact hw.fd_of_open hheld.1.state
  | resuming => exact hw.fd_of_open (hw.pausedOpen hheld)

/-! ## The invariant -/

/-- what the record of a client says about the client -/
structure OnTime (c : UpstreamClient) (log : List PaceEvent) (clock : ℕ) : Prop where
  paced : Paced none log
  /-- under way since the last try -/
  flies : c.fd ≠ none → ∃ t ≤ clock, paceOf log = some (t, c.reconnectAttempt)
  /-- the next try is allowed as soon as it is due -/
  waits : c.fd = none → ∀ now, c.reconnectAtMs ≤ now → (PaceEvent.tried now c.reconnectAttempt).Allowed (paceOf log)
  soon : c.fd = none → c.reconnectAtMs ≤ clock + 30000

theorem OnTime.later {k : ℕ} (ht : OnTime c log clock) (hle : clock ≤ k) : OnTime c log k where
  paced := ht.paced
  flies hfd := (ht.flies hfd).imp fun _ h => ⟨h.1.trans hle, h.2⟩
  waits := ht.waits
  soon hfd := (ht.soon hfd).trans (Nat.add_le_add_right hle _)

/-- a client that lost its connection at `now` and waits for its time -/
theorem OnTime.backoff {t failures : ℕ} (hp : Paced none log) (hpace : paceOf log = some (t, failures)) (ht : t ≤ now)
    (hnow : now ≤ clock) (hfd : d.fd = none) (hfail : d.reconnectAttempt = failures) :
    OnTime (d.backoff now) log clock where
  paced := hp
  flies h := absurd hfd h
  waits _ later hlater := by
    have hdue : now + reconnectDelayMs d.reconnectAttempt ≤ later := hlater
    rw [hpace, ← hfail]
    rw [reconnectDelayMs_eq] at hdue
    exact ⟨by omega, rfl⟩
  soon _ := Nat.add_le_add hnow (reconnectDelayMs_le _)

theorem OnTime.handled (ht : OnTime c log clock) (hfd : c.fd ≠ none) (hle : clock ≤ e.now) (opened : Bool)
    (hd : Handled e c (if opened then 0 else c.reconnectAttempt) d) :
    OnTime d (log ++ if opened then [.opened] else []) e.now := by
  obtain ⟨t, htime, hpace⟩ := ht.flies hfd
  -- the record goes on as the count does
  have hboth : Paced none (log ++ if opened then [.opened] else []) ∧
      paceOf (log ++ if opened then [.opened] else []) = some (t, if opened then 0 else c.reconnectAttempt) := by
    cases opened with
    | true =>
      refine ⟨(paced_append _ _ _).2 ⟨ht.paced, ?_⟩, ?_⟩
      · show (paceOf log).isSome
        rw [hpace]
        rfl
      · exact (paceOf_append log .opened).trans (by rw [hpace]; rfl)
    | false =>
      rw [show log ++ (if false = true then [.opened] else []) = log from List.append_nil log]
      exact ⟨ht.paced, hpace⟩
  obtain ⟨hpaced, hlast⟩ := hboth
  cases hd with
  | kept hsame hcount =>
    exact ⟨hpaced, fun _ => ⟨t, htime.trans hle, by rw [hlast, hcount]⟩, fun h => absurd (hsame.symm.trans h) hfd,
      fun h => absurd (hsame.symm.trans h) hfd⟩
  | ended hcount => exact .backoff hpaced hlast (htime.trans hle) le_rfl rfl hcount

/-- the try: the client is under way, or waits again -/
theorem OnTime.tried (ht : OnTime c log clock) (hfd : c.fd = none) (hdue : c.Due now) (hnow : now ≤ clock) :
    OnTime (reconnectClient e now c) (log ++ [.tried now c.reconnectAttempt]) clock := by
  have hpaced : Paced none (log ++ [.tried now c.reconnectAttempt]) :=
    (paced_append _ _ _).2 ⟨ht.paced, ht.waits hfd now hdue.2⟩
  have hpace := paceOf_append log (.tried now c.reconnectAttempt)
  unfold reconnectClient
  rw [if_neg (not_not.2 hdue.1), if_neg hdue.2.not_gt]
  rcases upstreamConnect_cases e c with ⟨-, hr⟩ | ⟨-, fd, -, hr⟩ | ⟨-, -, hr⟩ <;> rw [hr]
  · exact .backoff hpaced hpace le_rfl hnow hfd rfl
  · exact ⟨hpaced, fun _ => ⟨now, hnow, hpace⟩, fun h => (by cases h), fun h => (by cases h)⟩
  · exact .backoff hpaced hpace le_rfl hnow rfl rfl

structure Clocked.Kept (conf : ServerConfig) (client : ℕ → UpstreamClient) (count : ℕ) (p : Clocked) : Prop where
  reach : Reachable (upStep conf) (.start client count) p.up
  /-- the time the loop of `reconnectClients` goes by -/
  read : ∀ j now, p.up.reactor.pc = .reconnect j now → now ≤ p.clock
  each : ∀ i, OnTime (p.up.reactor.client i) (p.log i) p.clock

variable {client : ℕ → UpstreamClient} {count : ℕ} {p p' : Clocked}

theorem clocked_start (hadd : Added client) : (Clocked.start client count).Kept conf client count where
  reach := .start
  read _ _ h := by cases h
  each i := by
    obtain ⟨id, host, port, path, hi⟩ := hadd i
    unfold upstreamAdd at hi
    split_ifs at hi
    have hi := Option.some.inj hi
    show OnTime (client i) [] 0
    rw [← hi]
    exact ⟨trivial, fun h => absurd rfl h, fun _ _ _ => rfl, fun _ => Nat.zero_le _⟩

/-- what a step of the thread does to the clients, and to the loop of `reconnectClients` -/
inductive Visit (conf : ServerConfig) (e : UpEnv) (q : Queue Msg) (r : Reactor) : Reactor → Prop where
  | round : r.pc = .top → Visit conf e q r { r with pc := .reconnect 0 e.now }
  | turn (j now : ℕ) : r.pc = .reconnect j now → j < r.count →
      Visit conf e q r { r.setClient j (reconnectClient e now (r.client j)) with pc := .reconnect (j + 1) now }
  | hand (j : ℕ) (h : Hand) (back : Back) (p : UpPc) : r.pc = .busy j h back → (∀ k now, p ≠ .reconnect k now) →
      Visit conf e q r { r.setClient j (handStep conf e (queueSize q) h (r.client j)).2 with pc := p }
  | pass (p : UpPc) : (∀ i, r.notes conf e i = []) → (∀ k now, p ≠ .reconnect k now) → Visit conf e q r { r with pc := p }

theorem reactorStep_visit {q q' : Queue Msg} {r r' : Reactor} (hstep : reactorStep conf q r e = some (q', r')) :
    Visit conf e q r r' := by
  obtain ⟨client, count, pc⟩ := r
  unfold reactorStep at hstep
  cases pc with
  | top =>
    cases hdown : e.shutdown <;> rw [hdown] at hstep <;> obtain ⟨-, rfl⟩ := Prod.mk.inj (Option.some.inj hstep)
    · exact .round rfl
    · exact .pass .done (fun _ => rfl) (by rintro _ _ ⟨⟩)
  | reconnect j now =>
    dsimp only at hstep
    split_ifs at hstep with hj <;> obtain ⟨-, rfl⟩ := Prod.mk.inj (Option.some.inj hstep)
    · exact .turn j now rfl hj
    · exact .pass .resume (fun _ => if_neg fun h => hj h.2.1) (by rintro _ _ ⟨⟩)
  | resume =>
    dsimp only at hstep
    split_ifs at hstep <;> obtain ⟨-, rfl⟩ := Prod.mk.inj (Option.some.inj hstep)
    · exact .pass .wait (fun _ => rfl) (by rintro _ _ ⟨⟩)
    · exact .pass (.resumeAt 0) (fun _ => rfl) (by rintro _ _ ⟨⟩)
  | resumeAt j =>
    dsimp only at hstep
    split_ifs at hstep <;> obtain ⟨-, rfl⟩ := Prod.mk.inj (Option.some.inj hstep) <;>
      exact .pass _ (fun _ => rfl) (by rintro _ _ ⟨⟩)
  | wait =>
    dsimp only at hstep
    cases hw : e.wait with
    | interrupted | failed =>
      rw [hw] at hstep
      obtain ⟨-, rfl⟩ := Prod.mk.inj (Option.some.inj hstep)
      exact .pass _ (fun _ => rfl) (by rintro _ _ ⟨⟩)
    | events evs =>
      rw [hw] at hstep
      dsimp only at hstep
      split_ifs at hstep
      obtain ⟨-, rfl⟩ := Prod.mk.inj (Option.some.inj hstep)
      exact .pass _ (fun _ => rfl) (by rintro _ _ ⟨⟩)
  | events evs =>
    cases evs with
    | nil => obtain ⟨-, rfl⟩ := Prod.mk.inj (Option.some.inj hstep); exact .pass _ (fun _ => rfl) (by rintro _ _ ⟨⟩)
    | cons ev evs => obtain ⟨-, rfl⟩ := Prod.mk.inj (Option.some.inj hstep); exact .pass _ (fun _ => rfl) (by rintro _ _ ⟨⟩)
  | busy j h back =>
    obtain ⟨-, rfl⟩ := Prod.mk.inj (Option.some.inj hstep)
    refine .hand j h back _ rfl fun k now hpc => ?_
    split_ifs at hpc
    cases back <;> cases hpc
  | done => cases hstep

/-- the time of the loop was read before -/
theorem Visit.read {q : Queue Msg} {r r' : Reactor} (hv : Visit conf e q r r')
    (hread : ∀ j now, r.pc = .reconnect j now → now ≤ clock) (hle : clock ≤ e.now) (j now : ℕ) (hpc : r'.pc = .reconnect j now) :
    now ≤ e.now := by
  cases hv with
  | round => exact (UpPc.reconnect.inj hpc).2.ge
  | turn i time hturn => exact (UpPc.reconnect.inj hpc).2 ▸ (hread i time hturn).trans hle
  | hand _ _ _ _ _ hp => exact absurd hpc (hp j now)
  | pass _ _ hp => exact absurd hpc (hp j now)

/-- **A step of the thread**, seen from one client and its record. -/
theorem Visit.onTime {q : Queue Msg} {r r' : Reactor} {i : ℕ} (hv : Visit conf e q r r')
    (hsteady : ∀ i, Steady conf True (r.pc.hand i) (r.client i)) (hread : ∀ j now, r.pc = .reconnect j now → now ≤ clock)
    (hle : clock ≤ e.now) (hi : OnTime (r.client i) log clock) : OnTime (r'.client i) (log ++ r.notes conf e i) e.now := by
  have hquiet : r.notes conf e i = [] → OnTime (r.client i) (log ++ r.notes conf e i) e.now := by
    intro hnone
    rw [hnone, List.append_nil]
    exact hi.later hle
  cases hv with
  | round hpc => exact hquiet (by simp only [Reactor.notes, hpc])
  | pass p hnone => exact hquiet (hnone i)
  | turn j now hpc hj =>
    have hnotes : r.notes conf e i =
        if j = i ∧ j < r.count ∧ (r.client i).Due now then [.tried now (r.client i).reconnectAttempt] else [] := by
      simp only [Reactor.notes, hpc]
    show OnTime (Function.update r.client j (reconnectClient e now (r.client j)) i) _ _
    by_cases hji : j = i
    · subst hji
      rw [Function.update_self]
      by_cases hdue : (r.client j).Due now
      · rw [hnotes, if_pos ⟨rfl, hj, hdue⟩]
        exact (hi.later hle).tried ((hsteady j).whole.gone hdue.1).1 hdue ((hread j now hpc).trans hle)
      · have hsame : reconnectClient e now (r.client j) = r.client j := by
          unfold reconnectClient
          split_ifs with hstate hlate
          · rfl
          · rfl
          · exact absurd ⟨not_not.1 hstate, not_lt.1 hlate⟩ hdue
        rw [hsame]
        exact hquiet (hnotes.trans (if_neg fun h => hdue h.2.2))
    · rw [Function.update_of_ne (Ne.symm hji)]
      exact hquiet (hnotes.trans (if_neg fun h => hji h.1))
  | hand j h back p hpc =>
    have hnotes : r.notes conf e i = if j = i ∧ h.opens conf e (r.client i) then [.opened] else [] := by
      simp only [Reactor.notes, hpc]
    show OnTime (Function.update r.client j _ i) _ _
    by_cases hji : j = i
    · subst hji
      have hst := hsteady j
      rw [hpc, show (UpPc.busy j h back).hand j = h from if_pos rfl] at hst
      rw [Function.update_self]
      by_cases hrest : h = .rest
      · subst hrest
        exact hquiet (hnotes.trans (if_neg fun hn => Bool.false_ne_true hn.2))
      · rw [hnotes, show (if j = j ∧ h.opens conf e (r.client j) = true then [PaceEvent.opened] else []) =
          if h.opens conf e (r.client j) then [.opened] else [] from if_congr (and_iff_right rfl) rfl rfl]
        exact hi.handled (hst.fd_of_hand hrest) hle _ (handStep_handled hst)
    · rw [Function.update_of_ne (Ne.symm hji)]
      exact hquiet (hnotes.trans (if_neg fun h => hji h.1))

theorem clockedStep_kept (hadd : Added client) (hk : p.Kept conf client count) {a : UpAct}
    (hs : clockedStep conf p a = some p') : p'.Kept conf client count := by
  have hreach : Reachable (upStep conf) (.start client count) p'.up := .step a hk.reach trivial (clockedStep_up hs)
  cases a with
  | others q =>
    simp only [clockedStep] at hs
    obtain ⟨s, hup, rfl⟩ := Option.map_eq_some_iff.1 hs
    obtain rfl := Option.some.inj hup
    exact ⟨hreach, hk.read, hk.each⟩
  | step e =>
    have hsteady : ∀ i, Steady conf True (p.up.reactor.pc.hand i) (p.up.reactor.client i) :=
      upReach_steady (fun _ _ _ _ _ _ => trivial) hadd (upReach_any hk.reach)
    simp only [clockedStep] at hs
    split_ifs at hs with hle
    obtain ⟨s, hup, rfl⟩ := Option.map_eq_some_iff.1 hs
    obtain ⟨⟨q', r'⟩, hstep, rfl⟩ := Option.map_eq_some_iff.1 hup
    have hvisit := reactorStep_visit hstep
    exact ⟨hreach, hvisit.read hk.read hle, fun i => hvisit.onTime hsteady hk.read hle (hk.each i)⟩

theorem reach_clocked (hadd : Added client) (h : Reachable (clockedStep conf) (.start client count) p) :
    p.Kept conf client count :=
  h.invariant (clocked_start hadd) fun _ _ _ hk _ hs => clockedStep_kept hadd hk hs

/-- **The tries of an upstream are spaced.** However connects, handshakes and sessions end: a try comes behind the one
before by 1000 ms for each doubling the failures between them count, 30 s at the most; the count goes up by one with each
failure, to 10, and starts again at 0 with a handshake that succeeds. A client that is disconnected is due within 30 s. -/
theorem tries_spaced (conf : ServerConfig) (client : ℕ → UpstreamClient) (count : ℕ) (hadd : Added client) (p : Clocked)
    (h : Reachable (clockedStep conf) (.start client count) p) (i : ℕ) :
    Paced none (p.log i) ∧ ((p.up.reactor.client i).state = .UPSTREAM_DISCONNECTED →
      (p.up.reactor.client i).reconnectAtMs ≤ p.clock + 30000) := by
  have hk := reach_clocked hadd h
  have hsteady : Steady conf True (p.up.reactor.pc.hand i) (p.up.reactor.client i) :=
    upReach_steady (fun _ _ _ _ _ _ => trivial) hadd (upReach_any hk.reach) i
  exact ⟨(hk.each i).paced, fun hstate => (hk.each i).soon (hsteady.whole.gone hstate).1⟩

/-- the address cannot be reached; the second try comes with the next round, a second later -/
def retryRun : List UpAct :=
  List.replicate 7 (.step { calmUp with fd := none }) ++ List.replicate 2 (.step { calmUp with fd := none, now := 1000 })

theorem tries_spaced_twice : ∃ p, Reachable (clockedStep smallConf) (.start (fun _ => closedClient 9) 1) p ∧
    p.log 0 = [.tried 0 0, .tried 1000 1] ∧ Paced none (p.log 0) := by
  obtain ⟨p, hr, hp⟩ := Reachable.of_check (clockedStep smallConf) (.start (fun _ => closedClient 9) 1) retryRun
    (fun p => p.log 0 = [.tried 0 0, .tried 1000 1]) (by decide)
  exact ⟨p, hr, of_decide_eq_true hp, (tries_spaced smallConf _ 1 (added_closedClient 9) p hr 0).1⟩

end WsServer
