/-
What holds of every client of the upstream reactor, whatever its system calls return.

- `Sane`: descriptor, state, pause and open message of a client go together.
- `Whole`: in addition the registration is the one `updateEvents` asks for.
- `Held`: what the place of the thread says about the client in its hands; between its steps an open client that is
  not paused holds no complete frame (`Idle`).
- `clientStep_steady`: the small machine keeps them, so they hold in every run (`upReach_steady`).
- `registered_and_idle`: what this means whenever the thread is about to call `epoll_wait`.
-/
import Mathlib
import WsServer.Upstream.Frames
import WsServer.Upstream.Reactor

namespace WsServer

open Ws Machine

/-! ## The invariant -/

/-- descriptor, state, pause and open message go together; `lost`: a connecting client may have lost its descriptor -/
structure Sane (lost : Prop) (c : UpstreamClient) : Prop where
  fdState : c.fd = none → c.state = .UPSTREAM_DISCONNECTED ∨ lost ∧ c.state = .UPSTREAM_CONNECTING
  gone : c.state = .UPSTREAM_DISCONNECTED → c.fd = none ∧ bufData c.rx = [] ∧ bufData c.tx = [] ∧ bufData c.msg = []
  paused : c.readPaused = c.pendingMsg.isSome
  pausedOpen : c.readPaused = true → c.state = .UPSTREAM_OPEN
  fresh : c.state ≠ .UPSTREAM_OPEN → c.state ≠ .UPSTREAM_CLOSING → c.fragmenting = false
  agrees : c.state = .UPSTREAM_OPEN → ∃ asm, UpAgrees c asm

/-- the kernel watches what `updateEvents` asks for -/
structure Whole (lost : Prop) (c : UpstreamClient) : Prop extends Sane lost c where
  reg : c.fd ≠ none → c.interest = some c.wanted
  noReg : c.fd = none → c.interest = none

/-- an open client that is not paused holds no frame `processBufferedFrames` would take -/
def Idle (conf : ServerConfig) (c : UpstreamClient) : Prop :=
  c.state = .UPSTREAM_OPEN → c.readPaused = false → Rules.readFrame (upstreamLimits conf) (bufData c.rx) = .more

/-- the client is open and reads -/
structure Reading (c : UpstreamClient) : Prop where
  state : c.state = .UPSTREAM_OPEN
  paused : c.readPaused = false

/-- what the place of the thread says about the client -/
def Held (conf : ServerConfig) (h : Hand) (c : UpstreamClient) : Prop :=
  match h with
  | .rest => Idle conf c
  | .reported fl => Idle conf c ∧ c.fd ≠ none ∧ (fl.inn = true → c.readPaused = false)
  | .shaking fl => Idle conf c ∧ c.fd ≠ none ∧ (fl.inn = true → c.readPaused = false)
  | .receiving _ => Idle conf c ∧ Reading c
  | .leaving _ => Idle conf c ∧ c.fd ≠ none
  | .processing _ => Reading c
  | .publishing _ _ => Reading c ∧ UpAgrees c none ∧ bufData c.msg = []
  | .pushing _ _ => Reading c ∧ UpAgrees c none ∧ bufData c.msg = []
  | .resuming => c.readPaused = true

structure Steady (conf : ServerConfig) (lost : Prop) (h : Hand) (c : UpstreamClient) : Prop where
  whole : Whole lost c
  held : Held conf h c

variable {conf : ServerConfig} {lost : Prop} {e : UpEnv} {c d : UpstreamClient}

theorem Sane.has_fd (h : Sane lost c) (hd : c.state ≠ .UPSTREAM_DISCONNECTED) (hc : c.state ≠ .UPSTREAM_CONNECTING) :
    c.fd ≠ none := by
  intro hfd
  rcases h.fdState hfd with h' | ⟨-, h'⟩
  · exact hd h'
  · exact hc h'

theorem Sane.fd_of_open (h : Sane lost c) (hst : c.state = .UPSTREAM_OPEN) : c.fd ≠ none :=
  h.has_fd (by rw [hst]; nofun) (by rw [hst]; nofun)

theorem Sane.unpaused (h : Sane lost c) (hst : c.state ≠ .UPSTREAM_OPEN) : c.readPaused = false := by
  cases hp : c.readPaused with
  | false => rfl
  | true => exact absurd (h.pausedOpen hp) hst

theorem Idle.of_state (hst : c.state ≠ .UPSTREAM_OPEN) : Idle conf c := fun h => absurd h hst

theorem Idle.of_paused (hp : c.readPaused = true) : Idle conf c := fun _ h => by rw [hp] at h; cases h

theorem Sane.of_open (hst : c.state = .UPSTREAM_OPEN) (hfd : c.fd ≠ none) (hp : c.readPaused = c.pendingMsg.isSome)
    (ha : ∃ asm, UpAgrees c asm) : Sane lost c where
  fdState := fun h => absurd h hfd
  gone := fun h => by rw [hst] at h; cases h
  paused := hp
  pausedOpen := fun _ => hst
  fresh := fun h => absurd hst h
  agrees := fun _ => ha

theorem Sane.of_closing (hst : c.state = .UPSTREAM_CLOSING) (hfd : c.fd ≠ none) (hp : c.readPaused = false)
    (hm : c.pendingMsg = none) : Sane lost c where
  fdState := fun h => absurd h hfd
  gone := fun h => by rw [hst] at h; cases h
  paused := by rw [hp, hm]; rfl
  pausedOpen := fun h => by rw [hp] at h; cases h
  fresh := fun _ h => absurd hst h
  agrees := fun h => by rw [hst] at h; cases h

theorem Reading.pending (hr : Reading c) (h : Sane lost c) : c.pendingMsg = none := by
  have hp := h.paused
  rw [hr.paused] at hp
  exact Option.not_isSome_iff_eq_none.1 (by rw [← hp]; simp)

/-! ## The pieces -/

/-- a successful `updateEvents` makes a sane client whole -/
theorem Sane.updateEvents (h : Sane lost c) (hok : (updateEvents e c).1 = true) : Whole lost (updateEvents e c).2 := by
  rcases updateEvents_cases e c with hu | hu <;> rw [hu] at hok ⊢
  · refine ⟨⟨h.fdState, h.gone, h.paused, h.pausedOpen, h.fresh, fun hst => ?_⟩, fun _ => rfl, fun hfd => ?_⟩
    · exact (h.agrees hst).imp fun _ ha => ⟨ha.fragmenting, ha.joined⟩
    · unfold WsServer.updateEvents at hu
      rw [if_pos (show c.fd = none from hfd)] at hu
      cases hu
  · cases hok

theorem steady_disconnect (conf : ServerConfig) (e : UpEnv) (c : UpstreamClient) :
    Steady conf lost .rest (upstreamDisconnect e c) where
  whole :=
    { fdState := fun _ => Or.inl rfl
      gone := fun _ => ⟨rfl, bufReset_data _, bufReset_data _, bufReset_data _⟩
      paused := rfl
      pausedOpen := nofun
      fresh := fun _ _ => rfl
      agrees := nofun
      reg := fun h => absurd rfl h
      noReg := fun _ => rfl }
  held := Idle.of_state nofun

/-- a connect fails at once, is under way, or loses its descriptor again -/
theorem upstreamConnect_cases (e : UpEnv) (c : UpstreamClient) :
    (e.fd = none ∧ upstreamConnect e c = (false, c)) ∨
      (e.ctl = true ∧ ∃ fd, e.fd = some fd ∧ upstreamConnect e c =
        (true, { c with fd := some fd, state := .UPSTREAM_CONNECTING, ses := .none, interest := some ⟨false, true⟩ })) ∨
      (e.fd ≠ none ∧ e.ctl = false ∧ upstreamConnect e c =
        (false, { c with fd := none, state := .UPSTREAM_CONNECTING, ses := .none })) := by
  unfold upstreamConnect
  cases hfd : e.fd with
  | none => exact Or.inl ⟨rfl, rfl⟩
  | some fd =>
    cases hctl : e.ctl with
    | true => exact Or.inr (Or.inl ⟨rfl, fd, rfl, rfl⟩)
    | false => exact Or.inr (Or.inr ⟨nofun, rfl, rfl⟩)

theorem Whole.backoff (h : Whole lost c) (now : ℕ) : Whole lost (c.backoff now) :=
  ⟨⟨h.fdState, h.gone, h.paused, h.pausedOpen, h.fresh, fun hst => (h.agrees hst).imp fun _ ha =>
    ⟨ha.fragmenting, ha.joined⟩⟩, h.reg, h.noReg⟩

theorem steady_reconnect {now : ℕ} (hlost : c.Due now → e.fd ≠ none → e.ctl = false → lost)
    (h : Steady conf lost .rest c) : Steady conf lost .rest (reconnectClient e now c) := by
  have hw := h.whole
  unfold reconnectClient
  split_ifs with h1 h2
  · exact h
  · exact h
  rw [not_not] at h1
  have hp := hw.unpaused (by rw [h1]; nofun)
  have hm := hw.paused
  have hfrag := hw.fresh (by rw [h1]; nofun) (by rw [h1]; nofun)
  obtain ⟨hfd, -, htx, -⟩ := hw.gone h1
  rcases upstreamConnect_cases e c with ⟨-, hr⟩ | ⟨-, fd, -, hr⟩ | ⟨hefd, hctl, hr⟩
  · simp only [hr, Bool.false_eq_true, if_false]
    exact ⟨hw.backoff now, Idle.of_state (by show c.state ≠ _; rw [h1]; nofun)⟩
  · simp only [hr, if_true]
    have hwanted : ({ c with
        fd := some fd, state := .UPSTREAM_CONNECTING, ses := .none
        interest := some ⟨false, true⟩ } : UpstreamClient).wanted = ⟨false, true⟩ := by
      simp [UpstreamClient.wanted]
    refine ⟨⟨⟨nofun, nofun, hm, ?_, fun _ _ => hfrag, nofun⟩, fun _ => congrArg some hwanted.symm, nofun⟩,
      Idle.of_state nofun⟩
    intro hpa
    rw [show c.readPaused = true from hpa] at hp
    cases hp
  · simp only [hr, Bool.false_eq_true, if_false]
    have hl : lost := hlost ⟨h1, not_lt.1 h2⟩ hefd hctl
    have hgone : Whole lost { c with fd := none, state := .UPSTREAM_CONNECTING, ses := .none } := by
      refine ⟨⟨fun _ => Or.inr ⟨hl, rfl⟩, nofun, hm, fun hpa => ?_, fun _ _ => hfrag, nofun⟩, fun hne => absurd rfl hne,
        fun _ => hw.noReg hfd⟩
      rw [show c.readPaused = true from hpa] at hp
      cases hp
    exact ⟨hgone.backoff now, Idle.of_state nofun⟩

/-! ### The frame loop -/

/-- `queueMaskedFrame` that succeeds leaves the registration right -/
theorem queueMaskedFrame_reg {op : ℕ} {payload : Bytes} (h : (queueMaskedFrame e c op payload).1 = true) :
    (queueMaskedFrame e c op payload).2.interest = some (queueMaskedFrame e c op payload).2.wanted := by
  unfold queueMaskedFrame at h ⊢
  cases hm : e.mask with
  | none => rw [hm] at h; cases h
  | some mask =>
    rw [hm] at h
    dsimp only at h ⊢
    rcases updateEvents_cases e (c.addFrame op payload mask) with hu | hu <;> rw [hu] at h ⊢
    · rfl
    · cases h

/-- a CLOSE is queued for a client whose state is set to closing already -/
theorem whole_closing {op : ℕ} {payload : Bytes} (hst : d.state = .UPSTREAM_CLOSING) (hfd : d.fd ≠ none)
    (hp : d.readPaused = false) (hm : d.pendingMsg = none) (h : (queueMaskedFrame e d op payload).1 = true) :
    Whole lost (queueMaskedFrame e d op payload).2 ∧ (queueMaskedFrame e d op payload).2.state = .UPSTREAM_CLOSING := by
  have hq := queueMaskedFrame_queued e d op payload
  have hreg := queueMaskedFrame_reg h
  have hst' : (queueMaskedFrame e d op payload).2.state = .UPSTREAM_CLOSING := by rw [hq.rest]; exact hst
  have hfd' : (queueMaskedFrame e d op payload).2.fd ≠ none := by rw [hq.rest]; exact hfd
  refine ⟨⟨Sane.of_closing hst' hfd' ?_ ?_, fun _ => hreg, fun hn => absurd hn hfd'⟩, hst'⟩
  · rw [hq.rest]; exact hp
  · rw [hq.rest]; exact hm

/-- an open client that reads stays whole while only its buffers and its open message change -/
theorem whole_reading {asm : Rules.Assembly} (hw : Whole lost c) (hr : Reading c) (hfd : d.fd = c.fd) (hst : d.state = c.state)
    (hp : d.readPaused = c.readPaused) (hm : d.pendingMsg = c.pendingMsg) (hi : d.interest = some d.wanted)
    (ha : UpAgrees d asm) : Whole lost d ∧ Reading d := by
  have hfd' : d.fd ≠ none := by rw [hfd]; exact hw.fd_of_open hr.state
  refine ⟨⟨Sane.of_open (hst.trans hr.state) hfd' ?_ ⟨asm, ha⟩, fun _ => hi, fun hn => absurd hn hfd'⟩,
    hst.trans hr.state, hp.trans hr.paused⟩
  rw [hp, hm, hw.paused]

/-- where a loop ends without a failure the caller goes on -/
theorem steady_after (k : Caller) (hw : Whole lost c) (hfd : c.fd ≠ none) (hi : Idle conf c) : Steady conf lost (k.after c) c := by
  cases k with
  | resume => exact ⟨hw, hi⟩
  | read hup =>
    unfold Caller.after
    dsimp only
    split_ifs with h
    · exact ⟨hw, hi, hfd⟩
    · rw [not_or, not_not, Bool.not_eq_true] at h
      exact ⟨hw, hi, h.1, h.2⟩

/-- a pass leaves an open client open and whole, or closing with the answer queued, or it fails -/
theorem steady_processing {k : Caller} {size : ℕ} (h : Steady conf lost (.processing k) c) :
    Steady conf lost (handStep conf e size (.processing k) c).1 (handStep conf e size (.processing k) c).2 := by
  obtain ⟨hw, hr⟩ := h
  have hr : Reading c := hr
  have hfd := hw.fd_of_open hr.state
  have hpend := hr.pending hw.toSane
  obtain ⟨asm, ha⟩ := hw.agrees hr.state
  have hf := upstreamFrame_follows conf e ha
  unfold handStep
  dsimp only
  generalize hmv : Rules.move (upstreamLimits conf) asm (bufData c.rx) = mv at hf
  generalize upstreamFrame conf e c = st at hf
  cases hf with
  | rest =>
    refine steady_after k hw hfd fun _ _ => ?_
    unfold Rules.move at hmv
    split at hmv
    · assumption
    · cases hmv
    · rename_i fin op payload rest hread
      cases hj : Rules.judge (upstreamLimits conf) asm fin op payload <;> rw [hj] at hmv <;> cases hmv
  | @stop d s hd hst =>
    cases hq : (queueMaskedFrame e d opClose (echoOf s)).1 with
    | false => exact steady_disconnect conf e _
    | true =>
      obtain ⟨hw', hst'⟩ := whole_closing hst (by rw [hd]; exact hfd) (by rw [hd]; exact hr.paused)
        (by rw [hd]; exact hpend) hq
      exact steady_after k hw' (hw'.has_fd (by rw [hst']; nofun) (by rw [hst']; nofun))
        (Idle.of_state (by rw [hst']; nofun))
  | @pong asm' p _ d hag hok hd hrx =>
    have hq := queueMaskedFrame_queued e c opPong p
    have hreg := queueMaskedFrame_reg hok
    have hag' : UpAgrees d asm' := by
      rw [hd, hq.rest]
      exact ⟨hag.fragmenting, hag.joined⟩
    obtain ⟨h1, h2⟩ := whole_reading hw hr (by rw [hd, hq.rest]) (by rw [hd, hq.rest]) (by rw [hd, hq.rest])
      (by rw [hd, hq.rest]) (by rw [hd]; exact hreg) hag'
    exact ⟨h1, h2⟩
  | noPong => exact steady_disconnect conf e _
  | @next d _ _ hd hst hag hrx =>
    have hreg : d.interest = some d.wanted := by
      have hi := hw.reg hfd
      rw [hd]
      simpa [UpstreamClient.wanted, hst] using hi
    obtain ⟨h1, h2⟩ := whole_reading hw hr (by rw [hd]) hst (by rw [hd]) (by rw [hd]) hreg hag
    exact ⟨h1, h2⟩
  | @message d op data _ hd hst hag hrx hmsg =>
    have hreg : d.interest = some d.wanted := by
      have hi := hw.reg hfd
      rw [hd]
      simpa [UpstreamClient.wanted, hst] using hi
    obtain ⟨h1, h2⟩ := whole_reading hw hr (by rw [hd]) hst (by rw [hd]) (by rw [hd]) hreg hag
    exact ⟨h1, h2, hag, hmsg⟩

/-- the message is parked, or the client goes down; below the watermark nothing changes -/
theorem steady_publishing {k : Caller} {m : Msg} {size : ℕ} (h : Steady conf lost (.publishing k m) c) :
    Steady conf lost (handStep conf e size (.publishing k m) c).1 (handStep conf e size (.publishing k m) c).2 := by
  obtain ⟨hw, hr, ha, hmsg⟩ := h
  have hfd := hw.fd_of_open hr.state
  unfold handStep publishReactorMessage
  dsimp only
  by_cases hfull : conf.highWatermark ≤ size
  · rw [if_pos hfull]
    rcases updateEvents_cases e { c with pendingMsg := some m, readPaused := true } with hu | hu <;> rw [hu]
    · have hs : Sane lost { c with pendingMsg := some m, readPaused := true } :=
        .of_open hr.state hfd rfl ⟨none, ha.fragmenting, ha.joined⟩
      have hw' := hs.updateEvents (e := e) (by rw [hu])
      rw [hu] at hw'
      exact steady_after k hw' hfd (Idle.of_paused rfl)
    · exact steady_disconnect conf e _
  · rw [if_neg hfull]
    exact ⟨hw, hr, ha, hmsg⟩

theorem steady_pushing {k : Caller} {m : Msg} {size : ℕ} (h : Steady conf lost (.pushing k m) c) :
    Steady conf lost (handStep conf e size (.pushing k m) c).1 (handStep conf e size (.pushing k m) c).2 := by
  obtain ⟨hw, hr, ha, -⟩ := h
  obtain ⟨h1, h2⟩ := @whole_reading lost c (c.record m) none hw hr rfl rfl rfl rfl (hw.reg (hw.fd_of_open hr.state))
    ⟨ha.fragmenting, ha.joined⟩
  exact ⟨h1, h2⟩

theorem steady_resuming {size : ℕ} (h : Steady conf lost .resuming c) :
    Steady conf lost (handStep conf e size .resuming c).1 (handStep conf e size .resuming c).2 := by
  obtain ⟨hw, hp⟩ := h
  have hst := hw.pausedOpen hp
  obtain ⟨asm, ha⟩ := hw.agrees hst
  have hst' : c.resumed.state = .UPSTREAM_OPEN := by
    unfold UpstreamClient.resumed
    cases c.pendingMsg <;> exact hst
  have hs : Sane lost c.resumed := by
    refine .of_open hst' ?_ rfl ⟨asm, ?_⟩
    · unfold UpstreamClient.resumed
      cases c.pendingMsg <;> exact hw.fd_of_open hst
    · unfold UpstreamClient.resumed
      cases c.pendingMsg <;> exact ⟨ha.fragmenting, ha.joined⟩
  unfold handStep
  dsimp only
  cases hu : (updateEvents e c.resumed).1 with
  | false => exact steady_disconnect conf e _
  | true =>
    refine ⟨hs.updateEvents hu, ?_⟩
    rcases updateEvents_cases e c.resumed with hc | hc <;> rw [hc]
    · exact ⟨hst', rfl⟩
    · exact ⟨hst', rfl⟩

/-! ### An event -/

/-- the request is queued and the client waits for the response -/
theorem steady_queueHandshake (hw : Whole lost c) (hst : c.state = .UPSTREAM_CONNECTING) (hfd : c.fd ≠ none)
    (hok : (queueHandshake e c).1 = true) : Steady conf lost .rest (queueHandshake e c).2 := by
  have hp := hw.unpaused (by rw [hst]; nofun)
  have hfrag := hw.fresh (by rw [hst]; nofun) (by rw [hst]; nofun)
  have hmsg := hw.paused
  obtain ⟨accept, h⟩ | ⟨accept, key, h⟩ := queueHandshake_cases e c
  · rw [h] at hok
    cases hok
  · rw [h] at hok ⊢
    have hs : Sane lost (c.withRequest accept key) :=
      ⟨fun h => absurd h hfd, nofun, hmsg, fun h => (Bool.false_ne_true (hp.symm.trans h)).elim, fun _ _ => hfrag, nofun⟩
    refine ⟨hs.updateEvents hok, Idle.of_state ?_⟩
    rcases updateEvents_cases e (c.withRequest accept key) with hc | hc <;> rw [hc] <;> nofun

/-- sending changes tx only -/
theorem steady_flush (hw : Whole lost c) (hi : Idle conf c) (hfd : c.fd ≠ none) (hok : (flushUpstreamTx e c).1 = true) :
    Whole lost (flushUpstreamTx e c).2 ∧ Idle conf (flushUpstreamTx e c).2 ∧ (flushUpstreamTx e c).2.fd = c.fd ∧
      (flushUpstreamTx e c).2.readPaused = c.readPaused := by
  have hs : Sane lost (c.afterSend e) :=
    ⟨fun h => absurd h hfd, fun h => absurd (hw.gone h).1 hfd, hw.paused, hw.pausedOpen, hw.fresh,
      fun h => (hw.agrees h).imp fun _ ha => ⟨ha.fragmenting, ha.joined⟩⟩
  obtain h | h := flushUpstreamTx_cases e c
  · rw [h] at hok
    cases hok
  · rw [h] at hok ⊢
    refine ⟨hs.updateEvents hok, ?_⟩
    rcases updateEvents_cases e (c.afterSend e) with hc | hc <;> rw [hc]
    · exact ⟨hi, rfl, rfl⟩
    · exact ⟨hi, rfl, rfl⟩

theorem steady_head {fl : EpollFlags} {size : ℕ} (h : Steady conf lost (.reported fl) c) :
    Steady conf lost (handStep conf e size (.reported fl) c).1 (handStep conf e size (.reported fl) c).2 := by
  obtain ⟨hw, hi, hfd, hin⟩ := h
  unfold handStep upstreamEventHead
  dsimp only
  split_ifs with herr hcon hup hq hout hbad hend
  · exact steady_disconnect conf e _
  · exact steady_queueHandshake hw hcon.2 hfd hq
  · exact steady_disconnect conf e _
  · exact steady_disconnect conf e _
  · exact steady_disconnect conf e _
  · exact steady_disconnect conf e _
  · rw [Bool.not_eq_false] at hbad
    obtain ⟨hw', hi', hfd', hp'⟩ := steady_flush hw hi hfd hbad
    refine ⟨hw', hi', ?_, fun h => ?_⟩
    · rw [hfd']
      exact hfd
    · rw [hp']
      exact hin h
  · exact ⟨hw, hi, hfd, hin⟩

/-- the handshake ends in an open client with the registration of one, or waits for more -/
theorem steady_readHandshake (hw : Whole lost c) (hst : c.state = .UPSTREAM_HANDSHAKE) (hok : (readHandshake conf e c).1 = true) :
    Whole lost (readHandshake conf e c).2 ∧ (readHandshake conf e c).2.fd = c.fd ∧
      (readHandshake conf e c).2.readPaused = false := by
  have hfd : c.fd ≠ none := hw.has_fd (by rw [hst]; nofun) (by rw [hst]; nofun)
  have hp := hw.unpaused (by rw [hst]; nofun)
  have hfrag := hw.fresh (by rw [hst]; nofun) (by rw [hst]; nofun)
  have hmsg := hw.paused
  have hreg := hw.reg hfd
  unfold readHandshake at hok ⊢
  dsimp only at hok ⊢
  rw [receive_foldl] at hok ⊢
  generalize (e.reads.1.foldl UpstreamClient.receive c).rx = rx at hok ⊢
  generalize (e.reads.1.foldl UpstreamClient.receive c).ses.got = got at hok ⊢
  split_ifs at hok ⊢ with hend
  unfold processHandshakeResponse at hok ⊢
  cases hf : httpFindHeaderEnd (bufData rx) with
  | none =>
    dsimp only
    refine ⟨⟨⟨fun h => absurd h hfd, fun h => ?_, hmsg, hw.pausedOpen, hw.fresh, fun h => ?_⟩, fun _ => hreg,
      fun h => absurd h hfd⟩, rfl, hp⟩
    · exact absurd (hst.symm.trans h) (by nofun)
    · exact absurd (hst.symm.trans h) (by nofun)
  | some i =>
    simp only [hf] at hok ⊢
    split_ifs at hok ⊢ with hresp
    have hs : Sane lost { c with
        rx := bufConsume rx (i + 4)
        ses := { c.ses with got := got }
        state := .UPSTREAM_OPEN
        reconnectAttempt := 0 } :=
      .of_open rfl hfd hmsg ⟨none, hfrag, nofun⟩
    refine ⟨hs.updateEvents hok, ?_⟩
    rcases updateEvents_cases e { c with
      rx := bufConsume rx (i + 4), ses := { c.ses with got := got }, state := .UPSTREAM_OPEN
      reconnectAttempt := 0 } with hc | hc <;> rw [hc]
    · exact ⟨rfl, hp⟩
    · exact ⟨rfl, hp⟩

theorem steady_read {fl : EpollFlags} {size : ℕ} (h : Steady conf lost (.shaking fl) c) :
    Steady conf lost (handStep conf e size (.shaking fl) c).1 (handStep conf e size (.shaking fl) c).2 := by
  obtain ⟨hw, hi, hfd, hin⟩ := h
  unfold handStep upstreamEventRead
  dsimp only
  by_cases hshake : fl.inn = true ∧ c.state = .UPSTREAM_HANDSHAKE
  · rw [if_pos hshake]
    split_ifs with hbad hopen
    · exact steady_disconnect conf e _
    · rw [Bool.not_eq_false] at hbad
      obtain ⟨hw', -, hp'⟩ := steady_readHandshake hw hshake.2 hbad
      exact ⟨hw', hopen.2, hp'⟩
    · rw [Bool.not_eq_false] at hbad
      obtain ⟨hw', hfd', -⟩ := steady_readHandshake hw hshake.2 hbad
      refine ⟨hw', Idle.of_state fun ho => hopen ⟨hshake.1, ho⟩, ?_⟩
      rw [hfd']
      exact hfd
  · rw [if_neg hshake]
    rw [if_neg (show ¬ (true, c).1 = false by simp)]
    split_ifs with hopen
    · exact ⟨hw, hopen.2, hin hopen.1⟩
    · exact ⟨hw, hi, hfd⟩

theorem steady_receiving {hup : Bool} {size : ℕ} (h : Steady conf lost (.receiving hup) c) :
    Steady conf lost (handStep conf e size (.receiving hup) c).1 (handStep conf e size (.receiving hup) c).2 := by
  obtain ⟨hw, hi, hr⟩ := h
  have hfd := hw.fd_of_open hr.state
  unfold handStep
  dsimp only
  cases hrecv : e.recv with
  | got bs =>
    obtain ⟨asm, ha⟩ := hw.agrees hr.state
    obtain ⟨h1, h2⟩ := @whole_reading lost c (c.receive bs) asm hw hr rfl rfl rfl rfl (hw.reg hfd)
      ⟨ha.fragmenting, ha.joined⟩
    exact ⟨h1, h2⟩
  | again => exact ⟨hw, hi, hfd⟩
  | eof => exact steady_disconnect conf e _
  | err => exact steady_disconnect conf e _

theorem steady_leaving {hup : Bool} {size : ℕ} (h : Steady conf lost (.leaving hup) c) :
    Steady conf lost (handStep conf e size (.leaving hup) c).1 (handStep conf e size (.leaving hup) c).2 := by
  cases hup with
  | true => exact steady_disconnect conf e _
  | false => exact ⟨h.whole, h.held.1⟩

/-! ## Every run -/

/-- **The small machine keeps a client whole**, whatever its system calls return. -/
theorem clientStep_steady {cond : Condition} {size : ℕ} {h h' : Hand} {c' : UpstreamClient}
    (hlost : cond e size .rest c → e.fd ≠ none → e.ctl = false → lost) (hc : Steady conf lost h c)
    (hs : ClientStep conf cond e size c h h' c') : Steady conf lost h' c' := by
  cases hs with
  | same => exact hc
  | report fl hrep =>
    obtain ⟨w, hw, hflags⟩ := (Option.any_eq_true _ _).1 hrep
    have hin := (of_decide_eq_true hflags).1
    have hfd : c.fd ≠ none := by
      intro h
      rw [hc.whole.noReg h] at hw
      cases hw
    refine ⟨hc.whole, hc.held, hfd, fun hinn => ?_⟩
    rw [hc.whole.reg hfd] at hw
    obtain rfl := Option.some.inj hw
    have := hin hinn
    unfold UpstreamClient.wanted at this
    simp only [decide_eq_true_eq] at this
    simpa using this.1
  | reconnect now hok => exact steady_reconnect (fun hd => hlost (hok hd)) hc
  | pick hp => exact ⟨hc.whole, hp⟩
  | hand h hne =>
    cases h with
    | rest => exact absurd rfl hne
    | reported fl => exact steady_head hc
    | shaking fl => exact steady_read hc
    | receiving hup => exact steady_receiving hc
    | leaving hup => exact steady_leaving hc
    | processing k => exact steady_processing hc
    | publishing k m => exact steady_publishing hc
    | pushing k m => exact steady_pushing hc
    | resuming => exact steady_resuming hc

/-- a client as `upstreamAdd` makes it -/
theorem steady_added {id : ℕ} {host : Bytes} {port : ℕ} {path : Bytes} (h : upstreamAdd id host port path = some c) :
    Steady conf lost .rest c := by
  unfold upstreamAdd at h
  split_ifs at h
  obtain rfl := Option.some.inj h
  exact ⟨⟨⟨fun _ => Or.inl rfl, fun _ => ⟨rfl, rfl, rfl, rfl⟩, rfl, nofun, fun _ _ => rfl, nofun⟩, fun h => absurd rfl h,
    fun _ => rfl⟩, Idle.of_state nofun⟩

/-- every client is steady in every run of the reactor -/
theorem upReach_steady {cond : Condition} {client : ℕ → UpstreamClient} {count : ℕ} {s : UpSys}
    (hlost : ∀ e size c, cond e size .rest c → e.fd ≠ none → e.ctl = false → lost) (hadd : Added client)
    (h : Reach (upStep conf) (Meets cond) (UpSys.start client count) s) (i : ℕ) :
    Steady conf lost (s.reactor.pc.hand i) (s.reactor.client i) := by
  apply upReach_client (P := Steady conf lost) _ _ h i
  · intro i
    obtain ⟨id, host, port, path, hi⟩ := hadd i
    exact steady_added hi
  · intro e size h c h' c' hP hs
    exact clientStep_steady (hlost e size c) hP hs

/-! ## Before `epoll_wait` -/

/-- where the rules wait for more the loop does nothing -/
theorem processBufferedFrames_idle {asm : Rules.Assembly} (ha : UpAgrees c asm)
    (hmore : Rules.readFrame (upstreamLimits conf) (bufData c.rx) = .more) (env : ℕ → UpEnv × ℕ) :
    processBufferedFrames conf env c = (0, c) := by
  have hf := upstreamFrame_follows conf (env 0).1 ha
  have hmove : Rules.move (upstreamLimits conf) asm (bufData c.rx) = .more := by
    unfold Rules.move
    rw [hmore]
  rw [hmove] at hf
  unfold processBufferedFrames framesLoop
  generalize upstreamFrame conf (env 0).1 c = st at hf
  cases hf
  rfl

/-- **No silent stall.** Whenever the reactor is about to call `epoll_wait`, each client is registered for exactly what
its state asks for, and an open client that is not paused holds nothing `processBufferedFrames` would take. -/
theorem registered_and_idle {client : ℕ → UpstreamClient} {count : ℕ} {s : UpSys} (hadd : Added client)
    (h : Reachable (upStep conf) (UpSys.start client count) s) (hwait : s.reactor.pc = .wait) (i : ℕ) :
    let c := s.reactor.client i
    (c.fd ≠ none → ∃ w, c.interest = some w ∧
      (w.inn = true ↔ c.readPaused = false ∧ (c.state = .UPSTREAM_HANDSHAKE ∨ c.state = .UPSTREAM_OPEN)) ∧
      (w.out = true ↔ c.state = .UPSTREAM_CONNECTING ∨ bufData c.tx ≠ [])) ∧
    (c.state = .UPSTREAM_OPEN → c.readPaused = false →
      Rules.readFrame (upstreamLimits conf) (bufData c.rx) = .more ∧
        ∀ env, processBufferedFrames conf env c = (0, c)) := by
  have hst := @upReach_steady _ True _ _ _ _ (fun _ _ _ _ _ _ => trivial) hadd (upReach_any h) i
  rw [hwait] at hst
  obtain ⟨hw, hi⟩ := hst
  have hi : Idle conf (s.reactor.client i) := hi
  intro c
  constructor
  · intro hfd
    refine ⟨_, hw.reg hfd, ?_, ?_⟩
    · simp [UpstreamClient.wanted, c]
    · have htx : 0 < bufLen c.tx ↔ bufData c.tx ≠ [] := by
        rw [← length_bufData, List.length_pos_iff]
      rw [← htx]
      simp [UpstreamClient.wanted, c]
  · intro hopen hp
    obtain ⟨asm, ha⟩ := hw.agrees hopen
    exact ⟨hi hopen hp, processBufferedFrames_idle ha (hi hopen hp)⟩

/-! ### A run up to an open client -/

/-- a client as it is added for ws://feed/ -/
def closedClient (id : ℕ) : UpstreamClient :=
  { openClient id with fd := none, state := .UPSTREAM_DISCONNECTED, interest := none }

theorem added_closedClient (id : ℕ) : Added fun _ => closedClient id :=
  fun _ => ⟨id, ascii "feed", 80, ascii "/", by
    rw [upstreamAdd, if_neg (by decide)]
    rfl⟩

def calmSteps (n : ℕ) : List UpAct := List.replicate n (.step calmUp)

/-- `epoll_wait` reports the events -/
def waitStep (evs : Events) : UpAct := .step { calmUp with wait := .events evs }

def EpollFlags.none : EpollFlags := ⟨false, false, false, false, false⟩

/-- the response to the request `calmUp` sends -/
def response101 : Bytes := httpBuildUpgradeResponse ((wsComputeAccept (base64Encode (List.replicate 16 7))).getD [])

/-- the first client connects, its request is sent, and the response arrives with `t` behind it -/
def opening (t : Bytes) : List UpAct :=
  calmSteps 6 ++ [waitStep [(0, { EpollFlags.none with out := true })]] ++ calmSteps 9 ++
    [waitStep [(0, { EpollFlags.none with inn := true, out := true })]] ++ calmSteps 1 ++
    [.step { calmUp with sends := [.sent 1000] }, .step { calmUp with reads := ([response101 ++ t], .open) }]

/-- a frame that is not complete yet came with the response -/
theorem registered_and_idle_open : ∃ s, Reachable (upStep smallConf) (UpSys.start (fun _ => closedClient 9) 1) s ∧
    bufData (s.reactor.client 0).rx = [0x82, 0x01] ∧
    ∀ env, processBufferedFrames smallConf env (s.reactor.client 0) = (0, s.reactor.client 0) := by
  obtain ⟨s, hs, hp⟩ := Reachable.of_check (upStep smallConf) (UpSys.start (fun _ => closedClient 9) 1)
    (opening [0x82, 0x01] ++ calmSteps 10) (fun s => s.reactor.pc = .wait ∧ (s.reactor.client 0).state = .UPSTREAM_OPEN ∧
      (s.reactor.client 0).readPaused = false ∧ bufData (s.reactor.client 0).rx = [0x82, 0x01]) (by decide +kernel)
  rw [decide_eq_true_eq] at hp
  obtain ⟨hwait, hopen, hpaused, hrx⟩ := hp
  exact ⟨s, hs, hrx, ((registered_and_idle (added_closedClient 9) hs hwait 0).2 hopen hpaused).2⟩

/-! ## Descriptor and state -/

/-- no `epoll_ctl` that adds the descriptor of a new connection fails -/
def AddSucceeds : Condition := fun e _ h _ => h = .rest → e.fd ≠ none → e.ctl = true

instance (e : UpEnv) (size : ℕ) (h : Hand) (c : UpstreamClient) : Decidable (AddSucceeds e size h c) := by
  unfold AddSucceeds
  infer_instance

/-- descriptor, state and pause say the same, and a disconnected client is empty and can be connected again -/
structure Consistent (c : UpstreamClient) : Prop where
  fd : c.fd = none ↔ c.state = .UPSTREAM_DISCONNECTED
  pending : c.pendingMsg ≠ none ↔ c.readPaused = true
  pausedOpen : c.readPaused = true → c.state = .UPSTREAM_OPEN
  empty : c.state = .UPSTREAM_DISCONNECTED →
    bufData c.rx = [] ∧ bufData c.tx = [] ∧ bufData c.msg = [] ∧ c.fragmenting = false
  reconnects : c.state = .UPSTREAM_DISCONNECTED → ∀ e now, c.reconnectAtMs ≤ now → e.fd ≠ none → e.ctl = true →
    (reconnectClient e now c).state = .UPSTREAM_CONNECTING ∧ (reconnectClient e now c).fd = e.fd

/-- a disconnected client whose time has come is connected -/
theorem reconnectClient_due {now : ℕ} (hd : c.Due now) (hfd : e.fd ≠ none) (hctl : e.ctl = true) :
    (reconnectClient e now c).state = .UPSTREAM_CONNECTING ∧ (reconnectClient e now c).fd = e.fd := by
  unfold reconnectClient
  rw [if_neg (not_not.2 hd.1), if_neg (not_lt.2 hd.2)]
  rcases upstreamConnect_cases e c with ⟨hno, -⟩ | ⟨-, fd, hsome, hr⟩ | ⟨-, hbad, -⟩
  · exact absurd hno hfd
  · simp only [hr, if_true]
    exact ⟨trivial, hsome.symm⟩
  · rw [hctl] at hbad
    cases hbad

/-- **Descriptor, state and pause agree** in every run in which no `epoll_ctl` of `upstreamConnect` fails. -/
theorem consistent_unless_add_fails {client : ℕ → UpstreamClient} {count : ℕ} {s : UpSys} (hadd : Added client)
    (h : Reach (upStep conf) (Meets AddSucceeds) (UpSys.start client count) s) (i : ℕ) :
    Consistent (s.reactor.client i) := by
  have hlost : ∀ (e : UpEnv) (size : ℕ) (c : UpstreamClient), AddSucceeds e size .rest c → e.fd ≠ none → e.ctl = false →
      False := by
    intro e size c hok hfd hctl
    rw [hok rfl hfd] at hctl
    cases hctl
  have hw := (upReach_steady hlost hadd h i).whole
  refine ⟨⟨fun hfd => ?_, fun hst => (hw.gone hst).1⟩, ?_, hw.pausedOpen, fun hst => ?_, fun hst e now hnow => ?_⟩
  · rcases hw.fdState hfd with h' | h'
    · exact h'
    · exact h'.1.elim
  · rw [hw.paused, Option.isSome_iff_ne_none]
  · obtain ⟨-, hrx, htx, hmsg⟩ := hw.gone hst
    exact ⟨hrx, htx, hmsg, hw.fresh (by rw [hst]; nofun) (by rw [hst]; nofun)⟩
  · exact reconnectClient_due ⟨hst, hnow⟩

theorem consistent_unless_add_fails_connecting : ∃ s : UpSys, s.reactor.pc = .wait ∧
    (s.reactor.client 0).state = .UPSTREAM_CONNECTING ∧ Consistent (s.reactor.client 0) := by
  have hex : (exec (upStep smallConf) (UpSys.start (fun _ => closedClient 9) 1) (calmSteps 6)).any
      fun s => s.reactor.pc = .wait ∧ (s.reactor.client 0).state = .UPSTREAM_CONNECTING := by decide +kernel
  have hok : allOk (upStep smallConf) (Meets AddSucceeds) (UpSys.start (fun _ => closedClient 9) 1) (calmSteps 6) := by
    decide +kernel
  obtain ⟨s, hs, hp⟩ := (Option.any_eq_true _ _).1 hex
  rw [decide_eq_true_eq] at hp
  exact ⟨s, hp.1, hp.2, consistent_unless_add_fails (added_closedClient 9) (.of_exec hok hs) 0⟩

/-- the descriptor is taken back, the state is not: the client is CONNECTING without a descriptor -/
theorem add_failure_leaves_connecting : ∃ s, Reachable (upStep smallConf) (UpSys.start (fun _ => closedClient 9) 1) s ∧
    s.reactor.pc = .wait ∧ (s.reactor.client 0).fd = none ∧ (s.reactor.client 0).state = .UPSTREAM_CONNECTING ∧
    ¬ Consistent (s.reactor.client 0) := by
  obtain ⟨s, hs, hp⟩ := Reachable.of_check (upStep smallConf) (UpSys.start (fun _ => closedClient 9) 1)
    (calmSteps 1 ++ [.step { calmUp with ctl := false }] ++ calmSteps 4) (fun s => s.reactor.pc = .wait ∧
      (s.reactor.client 0).fd = none ∧ (s.reactor.client 0).state = .UPSTREAM_CONNECTING) (by decide +kernel)
  rw [decide_eq_true_eq] at hp
  refine ⟨s, hs, hp.1, hp.2.1, hp.2.2, fun hc => ?_⟩
  have hst := hc.fd.1 hp.2.1
  rw [hp.2.2] at hst
  cases hst

/-- and no later step repairs it -/
theorem clientStep_lost {cond : Condition} {size : ℕ} {h' : Hand} {c' : UpstreamClient} (hst : c.state = .UPSTREAM_CONNECTING)
    (hi : c.interest = none) (hp : c.readPaused = false) (hs : ClientStep conf cond e size c .rest h' c') :
    h' = .rest ∧ c' = c := by
  cases hs with
  | same => exact ⟨rfl, rfl⟩
  | report fl hrep =>
    unfold Reported at hrep
    rw [hi] at hrep
    cases hrep
  | reconnect now _ =>
    refine ⟨rfl, ?_⟩
    unfold reconnectClient
    rw [if_pos (by rw [hst]; nofun)]
  | pick hpause =>
    rw [hp] at hpause
    cases hpause
  | hand h hne => exact absurd rfl hne

end WsServer
