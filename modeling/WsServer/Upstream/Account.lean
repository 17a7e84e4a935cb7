/-
Where the messages of an upstream are: pushed to dataQueue, in the hands of the reactor, parked with a paused client,
or still in rx.

- `UpSession.messages`: the messages the rules find behind the response that opened the session.
- `owed`: those the client holds and has not pushed yet.
- `Account`: pushed and owed together are the messages received, in their order; of a session that is over all were
  pushed. It is kept by every step that meets `Spares`, that is, by all but those that throw a client away which holds a
  complete message (`account_step`).
- `nothing_lost`: the account in every run whose steps all do; `close_discards_paused`: in some runs a message is lost.
- `reactorStep_pushes`: the record of a session is what went to dataQueue.
-/
import Mathlib
import WsServer.Proto.Block
import WsServer.Upstream.Steady

namespace WsServer

open Ws Machine

/-! ## Received, pushed, owed -/

/-- where the frames start in the bytes received, once they hold an acceptable response -/
def UpSession.bodyAt (ses : UpSession) : Option ℕ :=
  match httpFindHeaderEnd ses.got with
  | .none => .none
  | .some i => if responseOk ses.accept (ses.got.take (i + 4)) then .some (i + 4) else .none

/-- the bytes behind the response -/
def UpSession.stream (ses : UpSession) : Bytes := ses.bodyAt.elim [] ses.got.drop

/-- the messages complete in the bytes received -/
def UpSession.messages (conf : ServerConfig) (ses : UpSession) : List (ℕ × Bytes) :=
  Rules.messages (Rules.pass (upstreamLimits conf) .none ses.stream).events

/-- the open message, as the rules have it -/
def UpstreamClient.asm (c : UpstreamClient) : Rules.Assembly :=
  if c.fragmenting then some (c.msgOpcode, bufData c.msg) else none

/-- the messages complete in rx -/
def UpstreamClient.ready (conf : ServerConfig) (c : UpstreamClient) : List (ℕ × Bytes) :=
  Rules.messages (Rules.pass (upstreamLimits conf) c.asm (bufData c.rx)).events

/-- those behind a PING with which rx starts -/
def UpstreamClient.behindPing (conf : ServerConfig) (c : UpstreamClient) : List (ℕ × Bytes) :=
  match Rules.move (upstreamLimits conf) c.asm (bufData c.rx) with
  | .go asm [.ping _] rest => Rules.messages (Rules.pass (upstreamLimits conf) asm rest).events
  | _ => []

/-- the message in the hands of the thread -/
def Hand.message : Hand → Option Msg
  | .publishing _ m => some m
  | .pushing _ m => some m
  | _ => none

/-- the complete messages that are not in dataQueue yet -/
def owed (conf : ServerConfig) (h : Hand) (c : UpstreamClient) : List (ℕ × Bytes) :=
  contents (h.message.toList ++ c.pendingMsg.toList) ++ if c.state = .UPSTREAM_OPEN then c.ready conf else []

/-- the step throws no client away that holds a complete message -/
def Spares (conf : ServerConfig) : Condition := fun e size h c =>
  match h with
  | .reported fl =>
    c.readPaused = false ∨ fl.err = false ∧ (fl.out = true → (bufSend e.sends c.tx).1 ≠ -1 ∧ e.ctl = true)
  | .shaking fl =>
    ¬ (fl.inn = true ∧ c.state = .UPSTREAM_HANDSHAKE) ∨ (e.reads.2 = .open ∧ e.ctl = true) ∨
      UpSession.messages conf { c.ses with got := c.ses.got ++ e.reads.1.flatten } = []
  | .leaving hup => hup = false ∨ c.readPaused = false
  | .processing _ => (e.mask.isSome = true ∧ e.ctl = true) ∨ c.behindPing conf = []
  | .publishing _ _ => size < conf.highWatermark ∨ e.ctl = true
  | .resuming => e.ctl = true ∨ c.ready conf = []
  | _ => True

instance (conf : ServerConfig) (e : UpEnv) (size : ℕ) (h : Hand) (c : UpstreamClient) :
    Decidable (Spares conf e size h c) := by
  unfold Spares
  cases h <;> infer_instance

/-- every message received is pushed or owed, and of the sessions before nothing is -/
structure Account (conf : ServerConfig) (h : Hand) (c : UpstreamClient) : Prop where
  past : ∀ ses ∈ c.past, contents ses.published = ses.messages conf
  down : c.state = .UPSTREAM_DISCONNECTED ∨ c.state = .UPSTREAM_CONNECTING →
    c.ses.got = [] ∧ c.ses.published = [] ∧ bufData c.rx = []
  shaking : c.state = .UPSTREAM_HANDSHAKE → bufData c.rx = c.ses.got ∧ httpFindHeaderEnd c.ses.got = none ∧
    c.ses.accept = c.expectedAccept ∧ c.ses.published = []
  opened : c.state = .UPSTREAM_OPEN → c.ses.bodyAt.isSome = true ∧ ∃ events,
    Rules.pass (upstreamLimits conf) none c.ses.stream =
      (Rules.pass (upstreamLimits conf) c.asm (bufData c.rx)).after events ∧
    Rules.messages events = contents (c.ses.published ++ h.message.toList ++ c.pendingMsg.toList)
  closing : c.state = .UPSTREAM_CLOSING → contents c.ses.published = c.ses.messages conf

variable {conf : ServerConfig} {e : UpEnv} {c d : UpstreamClient} {h h' : Hand} {size : ℕ}

/-! ## Small facts -/

theorem UpAgrees.asm_eq {asm : Rules.Assembly} (ha : UpAgrees c asm) : c.asm = asm := by
  unfold UpstreamClient.asm
  rw [ha.fragmenting]
  cases asm with
  | none => rfl
  | some x =>
    obtain ⟨op, d⟩ := x
    obtain ⟨h1, h2, -⟩ := ha.joined op d rfl
    rw [h1, h2]
    rfl

theorem UpSession.bodyAt_append {ses : UpSession} {n : ℕ} (h : ses.bodyAt = some n) (bs : Bytes) :
    UpSession.bodyAt { ses with got := ses.got ++ bs } = some n ∧ n ≤ ses.got.length := by
  unfold UpSession.bodyAt at h ⊢
  cases hi : httpFindHeaderEnd ses.got with
  | none => rw [hi] at h; cases h
  | some i =>
    have hle := (httpFindHeaderEnd_some hi).1
    rw [hi] at h
    rw [httpFindHeaderEnd_append hi bs]
    dsimp only at h ⊢
    rw [List.take_append_of_le_length hle]
    split_ifs at h ⊢
    exact ⟨h, Option.some.inj h ▸ hle⟩

/-- behind the response more bytes are more of the stream -/
theorem UpSession.stream_append {ses : UpSession} (h : ses.bodyAt.isSome = true) (bs : Bytes) :
    UpSession.stream { ses with got := ses.got ++ bs } = ses.stream ++ bs := by
  obtain ⟨n, hn⟩ := Option.isSome_iff_exists.1 h
  obtain ⟨h1, h2⟩ := UpSession.bodyAt_append hn bs
  unfold UpSession.stream
  rw [h1, hn]
  exact List.drop_append_of_le_length h2

theorem UpSession.messages_nil {ses : UpSession} (h : ses.bodyAt = .none) : ses.messages conf = [] := by
  have hstream : ses.stream = [] := by
    unfold UpSession.stream
    rw [h]
    rfl
  unfold UpSession.messages
  rw [hstream, Rules.pass_more rfl]
  rfl

theorem UpSession.bodyAt_none {ses : UpSession} (h : httpFindHeaderEnd ses.got = .none) : ses.bodyAt = .none := by
  unfold UpSession.bodyAt
  rw [h]

/-- a client that is not open has no message waiting -/
theorem Steady.quiet (hs : Steady conf True h c) (hopen : c.state ≠ .UPSTREAM_OPEN) : h.message = none ∧ c.pendingMsg = none := by
  constructor
  · cases h with
    | publishing k m => exact absurd hs.held.1.state hopen
    | pushing k m => exact absurd hs.held.1.state hopen
    | _ => rfl
  · have hp := hs.whole.unpaused hopen
    rw [hs.whole.paused] at hp
    exact Option.not_isSome_iff_eq_none.1 (by rw [hp]; nofun)

/-! ## What is owed -/

/-- pushed and owed are all messages received -/
theorem Account.total (ha : Account conf h c) (hs : Steady conf True h c) :
    contents c.ses.published ++ owed conf h c = c.ses.messages conf := by
  unfold owed
  by_cases hopen : c.state = .UPSTREAM_OPEN
  · obtain ⟨-, events, hpass, hev⟩ := ha.opened hopen
    rw [if_pos hopen, UpSession.messages, hpass, Rules.Pass.after, Rules.messages_append, hev, ← List.append_assoc,
      ← contents_append, ← List.append_assoc]
    rfl
  obtain ⟨hmsg, hpend⟩ := hs.quiet hopen
  rw [if_neg hopen, hpend, hmsg, List.append_nil]
  show contents c.ses.published ++ [] = _
  rw [List.append_nil]
  cases hst : c.state with
  | UPSTREAM_OPEN => exact absurd hst hopen
  | UPSTREAM_CLOSING => exact ha.closing hst
  | UPSTREAM_DISCONNECTED =>
    obtain ⟨hgot, hpub, -⟩ := ha.down (Or.inl hst)
    rw [hpub, UpSession.messages_nil (UpSession.bodyAt_none (by rw [hgot]; rfl))]
    rfl
  | UPSTREAM_CONNECTING =>
    obtain ⟨hgot, hpub, -⟩ := ha.down (Or.inr hst)
    rw [hpub, UpSession.messages_nil (UpSession.bodyAt_none (by rw [hgot]; rfl))]
    rfl
  | UPSTREAM_HANDSHAKE =>
    obtain ⟨-, hend, -, hpub⟩ := ha.shaking hst
    rw [hpub, UpSession.messages_nil (UpSession.bodyAt_none hend)]
    rfl

/-- an idle client holds no complete message -/
theorem ready_of_idle (hi : Idle conf c) (hopen : c.state = .UPSTREAM_OPEN) (hp : c.readPaused = false) :
    c.ready conf = [] := by
  have hmove : Rules.move (upstreamLimits conf) c.asm (bufData c.rx) = .more := by
    unfold Rules.move
    rw [hi hopen hp]
  unfold UpstreamClient.ready
  rw [Rules.pass_more hmove]
  rfl

/-- a client that is not paused owes nothing between the steps of the reactor -/
theorem owed_of_idle (hs : Steady conf True h c) (hm : h.message = none) (hi : Idle conf c) (hp : c.readPaused = false) :
    owed conf h c = [] := by
  have hpend : c.pendingMsg = none := by
    have := hs.whole.paused
    rw [hp] at this
    exact Option.not_isSome_iff_eq_none.1 (by rw [← this]; nofun)
  unfold owed
  rw [hm, hpend]
  split_ifs with hopen
  · rw [ready_of_idle hi hopen hp]
    rfl
  · rfl

/-- a client may go down when all its messages were pushed -/
theorem account_disconnect (hpast : ∀ ses ∈ c.past, contents ses.published = ses.messages conf)
    (hses : contents c.ses.published = c.ses.messages conf) : Account conf .rest (upstreamDisconnect e c) where
  past := by
    intro ses hmem
    rcases List.mem_append.1 (show ses ∈ c.past ++ [c.ses] from hmem) with h | h
    · exact hpast ses h
    · rw [List.mem_singleton.1 h]
      exact hses
  down := fun _ => ⟨rfl, rfl, bufReset_data _⟩
  shaking := nofun
  opened := nofun
  closing := nofun

/-- so it may when it owes nothing -/
theorem Account.disconnect (ha : Account conf h c) (hs : Steady conf True h c) (ho : owed conf h c = []) :
    Account conf .rest (upstreamDisconnect e c) := by
  have htotal := ha.total hs
  rw [ho, List.append_nil] at htotal
  exact account_disconnect ha.past htotal

/-- neither the place of the thread nor the sending side matters -/
theorem Account.reframe (ha : Account conf h c) (hm : h'.message = h.message) (tx : Buf) (i : Option Interest)
    (out : Bytes) (frames : List Rules.ClientFrame) :
    Account conf h' { c with tx := tx, interest := i, ses := { c.ses with out := out, frames := frames } } where
  past := ha.past
  down := ha.down
  shaking := ha.shaking
  opened := by
    rw [hm]
    exact ha.opened
  closing := ha.closing

theorem Account.rehand (ha : Account conf h c) (hm : h'.message = h.message) : Account conf h' c :=
  ha.reframe hm c.tx c.interest c.ses.out c.ses.frames

/-! ## The steps -/

theorem Account.of_open (hst : c.state = .UPSTREAM_OPEN) (hpast : ∀ ses ∈ c.past, contents ses.published = ses.messages conf)
    (hbody : c.ses.bodyAt.isSome = true) (events : List Rules.Event)
    (hpass : Rules.pass (upstreamLimits conf) none c.ses.stream =
      (Rules.pass (upstreamLimits conf) c.asm (bufData c.rx)).after events)
    (hev : Rules.messages events = contents (c.ses.published ++ h.message.toList ++ c.pendingMsg.toList)) :
    Account conf h c where
  past := hpast
  down := by
    rw [hst]
    rintro (h | h) <;> cases h
  shaking := by
    rw [hst]
    nofun
  opened := fun _ => ⟨hbody, events, hpass, hev⟩
  closing := by
    rw [hst]
    nofun

theorem Account.of_closing (hst : c.state = .UPSTREAM_CLOSING)
    (hpast : ∀ ses ∈ c.past, contents ses.published = ses.messages conf)
    (hses : contents c.ses.published = c.ses.messages conf) : Account conf h c where
  past := hpast
  down := by
    rw [hst]
    rintro (h | h) <;> cases h
  shaking := by
    rw [hst]
    nofun
  opened := by
    rw [hst]
    nofun
  closing := fun _ => hses

theorem Account.of_handshake (hst : c.state = .UPSTREAM_HANDSHAKE)
    (hpast : ∀ ses ∈ c.past, contents ses.published = ses.messages conf)
    (hsh : bufData c.rx = c.ses.got ∧ httpFindHeaderEnd c.ses.got = none ∧ c.ses.accept = c.expectedAccept ∧
      c.ses.published = []) : Account conf h c where
  past := hpast
  down := by
    rw [hst]
    rintro (h | h) <;> cases h
  shaking := fun _ => hsh
  opened := by
    rw [hst]
    nofun
  closing := by
    rw [hst]
    nofun

theorem Account.of_down (hst : c.state = .UPSTREAM_DISCONNECTED ∨ c.state = .UPSTREAM_CONNECTING)
    (hpast : ∀ ses ∈ c.past, contents ses.published = ses.messages conf)
    (hdown : c.ses.got = [] ∧ c.ses.published = [] ∧ bufData c.rx = []) : Account conf h c where
  past := hpast
  down := fun _ => hdown
  shaking := by
    rcases hst with h | h <;> rw [h] <;> nofun
  opened := by
    rcases hst with h | h <;> rw [h] <;> nofun
  closing := by
    rcases hst with h | h <;> rw [h] <;> nofun

/-- before the end of the header there are no messages -/
theorem settled_of_noEnd {ses : UpSession} (hpub : ses.published = []) (hend : httpFindHeaderEnd ses.got = none) :
    contents ses.published = ses.messages conf := by
  rw [hpub, UpSession.messages_nil (UpSession.bodyAt_none hend)]
  rfl

theorem Caller.after_message (k : Caller) (d : UpstreamClient) : (k.after d).message = none := by
  cases k with
  | resume => rfl
  | read hup =>
    unfold Caller.after
    dsimp only
    split_ifs <;> rfl

/-- an `updateEvents` that fails leaves the client as it was -/
theorem Account.updateEvents (ha : Account conf h c) (hm : h'.message = h.message) :
    Account conf h' (updateEvents e c).2 := by
  rcases updateEvents_cases e c with hu | hu <;> rw [hu]
  · exact ha.reframe hm c.tx (some c.wanted) c.ses.out c.ses.frames
  · exact ha.rehand hm

/-- a closing client owes nothing, so its CLOSE may fail -/
theorem account_closing {op : ℕ} {payload : Bytes} (hpast : ∀ ses ∈ d.past, contents ses.published = ses.messages conf)
    (hst : d.state = .UPSTREAM_CLOSING) (hses : contents d.ses.published = d.ses.messages conf) :
    Account conf h (queueMaskedFrame e d op payload).2 ∧
      contents (queueMaskedFrame e d op payload).2.ses.published = (queueMaskedFrame e d op payload).2.ses.messages conf := by
  have hd : Account conf h d := .of_closing hst hpast hses
  have hq := queueMaskedFrame_queued e d op payload
  have hframe := hd.reframe rfl (queueMaskedFrame e d op payload).2.tx (queueMaskedFrame e d op payload).2.interest
    d.ses.out (queueMaskedFrame e d op payload).2.ses.frames
  rw [← hq.ses, ← hq.rest] at hframe
  refine ⟨hframe, hframe.closing ?_⟩
  rw [hq.rest]
  exact hst

/-- a pass that goes on: the events so far, then the rest of rx -/
theorem account_going {events : List Rules.Event} {asm : Rules.Assembly} {rest : Bytes} (ha : Account conf h c)
    (hopen : c.state = .UPSTREAM_OPEN) (hmove : Rules.move (upstreamLimits conf) c.asm (bufData c.rx) = .go asm events rest)
    (hpast : d.past = c.past) (hst : d.state = c.state) (hpend : d.pendingMsg = c.pendingMsg) (hagree : UpAgrees d asm)
    (hrx : bufData d.rx = rest) (hses : d.ses = { c.ses with frames := d.ses.frames })
    (hm : contents h'.message.toList = contents h.message.toList ++ Rules.messages events)
    (hnone : c.pendingMsg = none) : Account conf h' d := by
  obtain ⟨hbody, evs, hpass, hev⟩ := ha.opened hopen
  refine .of_open (hst.trans hopen) ?_ ?_ (evs ++ events) ?_ ?_
  · rw [hpast]
    exact ha.past
  · rw [hses]
    exact hbody
  · have hstream : d.ses.stream = c.ses.stream := by
      rw [hses]
      rfl
    rw [hstream, hpass, Rules.pass_go hmove, hagree.asm_eq, hrx]
    simp [Rules.Pass.after]
  · rw [Rules.messages_append, hev, hses, hpend, hnone]
    simp only [Option.toList_none, List.append_nil, contents_append, hm, List.append_assoc]

theorem account_processing {k : Caller} (ha : Account conf (.processing k) c) (hs : Steady conf True (.processing k) c)
    (hok : Spares conf e size (.processing k) c) :
    Account conf (handStep conf e size (.processing k) c).1 (handStep conf e size (.processing k) c).2 := by
  have hr : Reading c := hs.held
  have hfd := hs.whole.fd_of_open hr.state
  have hpend := hr.pending hs.whole.toSane
  obtain ⟨asm, hagr⟩ := hs.whole.agrees hr.state
  have hasm := hagr.asm_eq
  have hf := upstreamFrame_follows conf e hagr
  obtain ⟨hbody, evs, hpass, hev⟩ := ha.opened hr.state
  unfold handStep
  dsimp only
  generalize hmv : Rules.move (upstreamLimits conf) asm (bufData c.rx) = mv at hf
  rw [← hasm] at hmv
  generalize upstreamFrame conf e c = st at hf
  cases hf with
  | rest => exact ha.rehand (k.after_message c)
  | @stop d s hd hst =>
    have hses : contents d.ses.published = d.ses.messages conf := by
      rw [Rules.pass_stop hmv] at hpass
      rw [show d.ses = c.ses by rw [hd], UpSession.messages, hpass, Rules.Pass.after, Rules.messages_append, hev, hpend]
      simp [Rules.messages, Hand.message]
    have hcl := @account_closing _ e d (.processing k) opClose (echoOf s)
      (show ∀ ses ∈ d.past, contents ses.published = ses.messages conf by rw [hd]; exact ha.past) hst hses
    cases (queueMaskedFrame e d opClose (echoOf s)).1 with
    | true => exact hcl.1.rehand (k.after_message _)
    | false => exact account_disconnect hcl.1.past hcl.2
  | @pong asm' p rest d hag _ hd hrx =>
    have hq := queueMaskedFrame_queued e c opPong p
    have hag' : UpAgrees d asm' := by
      rw [hd, hq.rest]
      exact ⟨hag.fragmenting, hag.joined⟩
    exact account_going ha hr.state hmv (by rw [hd, hq.rest]) (by rw [hd, hq.rest]) (by rw [hd, hq.rest]) hag' hrx
      (by rw [hd]; exact hq.ses) rfl hpend
  | @noPong asm' p rest hno =>
    -- only where nothing waits behind the ping
    have hbehind : Rules.messages (Rules.pass (upstreamLimits conf) asm' rest).events = [] := by
      rcases hok with hok | hok
      · rw [(queueMaskedFrame_ok opPong p hok.1 hok.2 hfd).1] at hno
        cases hno
      · unfold UpstreamClient.behindPing at hok
        rw [hmv] at hok
        exact hok
    have hq := queueMaskedFrame_queued e c opPong p
    refine account_disconnect ?_ ?_
    · rw [hq.rest]
      exact ha.past
    · have hmsgs : (queueMaskedFrame e c opPong p).2.ses.messages conf = c.ses.messages conf := by
        rw [hq.ses]
        rfl
      rw [hmsgs, hq.ses, UpSession.messages, hpass, Rules.pass_go hmv, Rules.Pass.after, Rules.Pass.after,
        Rules.messages_append, Rules.messages_append, hbehind, hev, hpend]
      simp [Rules.messages, Hand.message]
  | @next d _ _ hd hst hag hrx =>
    exact account_going ha hr.state hmv (by rw [hd]) hst (by rw [hd]) hag hrx (by rw [hd]) rfl hpend
  | @message d op data _ hd hst hag hrx hmsg =>
    exact account_going ha hr.state hmv (by rw [hd]) hst (by rw [hd]) hag hrx (by rw [hd]) rfl hpend

theorem account_publishing {k : Caller} {m : Msg} (ha : Account conf (.publishing k m) c)
    (hs : Steady conf True (.publishing k m) c) (hok : Spares conf e size (.publishing k m) c) :
    Account conf (handStep conf e size (.publishing k m) c).1 (handStep conf e size (.publishing k m) c).2 := by
  have hr : Reading c := hs.held.1
  have hfd := hs.whole.fd_of_open hr.state
  have hpend := hr.pending hs.whole.toSane
  obtain ⟨hbody, evs, hpass, hev⟩ := ha.opened hr.state
  unfold handStep publishReactorMessage
  dsimp only
  by_cases hfull : conf.highWatermark ≤ size
  · have hctl : e.ctl = true := hok.resolve_left (not_lt.2 hfull)
    rw [if_pos hfull, updateEvents_ok (show { c with pendingMsg := some m, readPaused := true }.fd ≠ none from hfd) hctl]
    refine .of_open hr.state ha.past hbody evs hpass ?_
    show _ = contents (c.ses.published ++ (k.after _).message.toList ++ [m])
    rw [hev, hpend, Caller.after_message]
    simp [Hand.message]
  · rw [if_neg hfull]
    exact ha.rehand rfl

theorem account_pushing {k : Caller} {m : Msg} (ha : Account conf (.pushing k m) c)
    (hs : Steady conf True (.pushing k m) c) :
    Account conf (handStep conf e size (.pushing k m) c).1 (handStep conf e size (.pushing k m) c).2 := by
  have hr : Reading c := hs.held.1
  obtain ⟨hbody, evs, hpass, hev⟩ := ha.opened hr.state
  refine .of_open hr.state ha.past hbody evs hpass ?_
  rw [hev, hr.pending hs.whole.toSane]
  show _ = contents ((c.ses.published ++ [m]) ++ [] ++ c.pendingMsg.toList)
  rw [hr.pending hs.whole.toSane]
  simp [Hand.message]

/-- letting a paused client go moves its message from the client to dataQueue -/
theorem resumed_eq (c : UpstreamClient) :
    c.resumed = { c with
      pendingMsg := none, readPaused := false
      ses := { c.ses with published := c.ses.published ++ c.pendingMsg.toList } } := by
  unfold UpstreamClient.resumed
  cases c.pendingMsg with
  | none => simp
  | some m => rfl

theorem account_resuming (ha : Account conf .resuming c) (hs : Steady conf True .resuming c)
    (hok : Spares conf e size .resuming c) :
    Account conf (handStep conf e size .resuming c).1 (handStep conf e size .resuming c).2 := by
  have hst := hs.whole.pausedOpen hs.held
  have hfd := hs.whole.fd_of_open hst
  obtain ⟨hbody, evs, hpass, hev⟩ := ha.opened hst
  have hres : Account conf (.processing .resume) c.resumed := by
    rw [resumed_eq]
    refine .of_open hst ha.past hbody evs hpass ?_
    rw [hev]
    simp [Hand.message]
  unfold handStep
  dsimp only
  cases hu : (WsServer.updateEvents e c.resumed).1 with
  | true => exact hres.updateEvents rfl
  | false =>
    have hctl : e.ctl ≠ true := by
      intro hctl
      rw [updateEvents_ok (by rw [resumed_eq]; exact hfd) hctl] at hu
      cases hu
    have hready : c.ready conf = [] := hok.resolve_left hctl
    have hsame : (WsServer.updateEvents e c.resumed).2 = c.resumed := by
      rcases updateEvents_cases e c.resumed with hc | hc <;> rw [hc] at hu ⊢
      cases hu
    have hses : contents c.resumed.ses.published = c.resumed.ses.messages conf := by
      have htotal := ha.total hs
      rw [owed, if_pos hst, hready, List.append_nil] at htotal
      rw [resumed_eq]
      show contents (c.ses.published ++ c.pendingMsg.toList) = c.ses.messages conf
      rw [← htotal, contents_append]
      rfl
    rw [hsame]
    exact account_disconnect hres.past hses

theorem account_queueHandshake (ha : Account conf h c) (hst : c.state = .UPSTREAM_CONNECTING) :
    Account conf .rest (queueHandshake e c).2 ∧
      contents (queueHandshake e c).2.ses.published = (queueHandshake e c).2.ses.messages conf := by
  obtain ⟨hgot, hpub, hrx⟩ := ha.down (Or.inr hst)
  have hend : httpFindHeaderEnd c.ses.got = none := by rw [hgot]; rfl
  have hset : contents c.ses.published = c.ses.messages conf := settled_of_noEnd hpub hend
  obtain ⟨accept, h⟩ | ⟨accept, key, h⟩ := queueHandshake_cases e c
  · rw [h]
    exact ⟨.of_down (Or.inr hst) ha.past ⟨hgot, hpub, hrx⟩, hset⟩
  · have hrxgot : bufData c.rx = c.ses.got := hrx.trans hgot.symm
    rw [h]
    rcases updateEvents_cases e (c.withRequest accept key) with hu | hu <;> rw [hu]
    · exact ⟨.of_handshake rfl ha.past ⟨hrxgot, hend, rfl, hpub⟩, settled_of_noEnd hpub hend⟩
    · exact ⟨.of_handshake rfl ha.past ⟨hrxgot, hend, rfl, hpub⟩, settled_of_noEnd hpub hend⟩

/-- sending is of no account -/
theorem account_flush (ha : Account conf h c) : Account conf h (flushUpstreamTx e c).2 := by
  have hsent : Account conf h (c.afterSend e) :=
    ha.reframe rfl (bufSend e.sends c.tx).2.1 c.interest (c.ses.out ++ (bufSend e.sends c.tx).2.2) c.ses.frames
  obtain h | h := flushUpstreamTx_cases e c <;> rw [h]
  · exact hsent
  · exact hsent.updateEvents rfl

theorem flush_ses : (flushUpstreamTx e c).2.ses = { c.ses with out := (flushUpstreamTx e c).2.ses.out } := by
  obtain h | h := flushUpstreamTx_cases e c <;> rw [h]
  · rfl
  · rcases updateEvents_cases e (c.afterSend e) with hu | hu <;> rw [hu] <;> rfl

theorem flush_ok (hfd : c.fd ≠ none) (hsend : (bufSend e.sends c.tx).1 ≠ -1) (hctl : e.ctl = true) :
    (flushUpstreamTx e c).1 = true := by
  unfold flushUpstreamTx
  dsimp only
  rw [if_neg hsend, updateEvents_ok (by exact hfd) hctl]

theorem account_head {fl : EpollFlags} (ha : Account conf (.reported fl) c) (hs : Steady conf True (.reported fl) c)
    (hok : Spares conf e size (.reported fl) c) :
    Account conf (handStep conf e size (.reported fl) c).1 (handStep conf e size (.reported fl) c).2 := by
  obtain ⟨hi, hfd, -⟩ := hs.held
  have howed : c.readPaused = false → owed conf (.reported fl) c = [] := owed_of_idle hs rfl hi
  unfold handStep upstreamEventHead
  dsimp only
  split_ifs with herr hcon hup hq hout hbad hend
  · refine ha.disconnect hs (howed (hok.resolve_right fun h => ?_))
    rw [h.1] at herr
    cases herr
  · exact (account_queueHandshake ha hcon.2).1
  · exact account_disconnect (account_queueHandshake ha hcon.2).1.past (account_queueHandshake ha hcon.2).2
  · refine ha.disconnect hs (howed (hs.whole.unpaused ?_))
    rw [hcon.2]
    nofun
  · -- the flush failed, so the client was not paused
    have hp : c.readPaused = false := by
      refine hok.resolve_right fun h => ?_
      rw [flush_ok hfd (h.2 hout).1 (h.2 hout).2] at hbad
      cases hbad
    have htotal := ha.total hs
    rw [howed hp, List.append_nil] at htotal
    refine account_disconnect (account_flush ha).past ?_
    rw [flush_ses]
    exact htotal
  · exact account_disconnect (account_flush ha).past ((account_flush ha).closing hend.1)
  · exact (account_flush ha).rehand rfl
  · exact ha.rehand rfl

/-- the bytes read go to rx and to the record -/
theorem receive_foldl_data (bss : List Bytes) (c : UpstreamClient) :
    bufData (bss.foldl UpstreamClient.receive c).rx = bufData c.rx ++ bss.flatten ∧
      (bss.foldl UpstreamClient.receive c).ses.got = c.ses.got ++ bss.flatten := by
  induction bss generalizing c with
  | nil => simp
  | cons bs bss ih =>
    obtain ⟨h1, h2⟩ := ih (c.receive bs)
    rw [List.foldl_cons, h1, h2]
    simp [UpstreamClient.receive]

/-- the whole response opens the stream; what follows it is in rx -/
theorem bodyAt_response {ses : UpSession} {i : ℕ} (hi : httpFindHeaderEnd ses.got = some i) :
    ses.bodyAt = if responseOk ses.accept (ses.got.take (i + 4)) then .some (i + 4) else .none := by
  unfold UpSession.bodyAt
  rw [hi]

/-- the response is examined: the session opens and its stream starts in rx, or no message is lost -/
theorem account_processHandshakeResponse (hpast : ∀ ses ∈ d.past, contents ses.published = ses.messages conf)
    (hst : d.state = .UPSTREAM_HANDSHAKE) (hfd : d.fd ≠ none) (hrx : bufData d.rx = d.ses.got)
    (hacc : d.ses.accept = d.expectedAccept) (hpub : d.ses.published = []) (hfrag : d.fragmenting = false)
    (hpend : d.pendingMsg = none) (hok : e.ctl = true ∨ d.ses.messages conf = []) :
    let r := processHandshakeResponse conf e d
    (r.1 = true → Account conf .rest r.2) ∧
      (r.1 = false → r.2.past = d.past ∧ contents r.2.ses.published = r.2.ses.messages conf) := by
  intro r
  cases hi : httpFindHeaderEnd (bufData d.rx) with
  | none =>
    rw [hrx] at hi
    have hr : r.2 = d := by
      simp only [r, processHandshakeResponse, hrx, hi]
    rw [hr]
    exact ⟨fun _ => .of_handshake hst hpast ⟨hrx, hi, hacc, hpub⟩, fun _ => ⟨rfl, settled_of_noEnd hpub hi⟩⟩
  | some i =>
    rw [hrx] at hi
    have hbody := bodyAt_response hi
    by_cases hresp : responseOk d.expectedAccept (d.ses.got.take (i + 4)) = true
    · rw [hacc, if_pos hresp] at hbody
      have hr : r = updateEvents e { d with
          rx := bufConsume d.rx (i + 4), state := .UPSTREAM_OPEN, reconnectAttempt := 0 } := by
        simp only [r, processHandshakeResponse, hrx, hi, hresp, if_true]
      have hopened : Account conf .rest { d with
          rx := bufConsume d.rx (i + 4), state := .UPSTREAM_OPEN, reconnectAttempt := 0 } := by
        refine .of_open rfl hpast ?_ [] ?_ ?_
        · show d.ses.bodyAt.isSome = true
          rw [hbody]
          rfl
        · show Rules.pass (upstreamLimits conf) none d.ses.stream = Rules.Pass.after []
            (Rules.pass (upstreamLimits conf) (if d.fragmenting then some (d.msgOpcode, bufData d.msg) else none) _)
          rw [hfrag, bufConsume_data, hrx, UpSession.stream, hbody]
          rfl
        · show _ = contents (d.ses.published ++ [] ++ d.pendingMsg.toList)
          rw [hpub, hpend]
          rfl
      rw [hr]
      refine ⟨fun _ => hopened.updateEvents rfl, fun hbad => ?_⟩
      have hnil : d.ses.messages conf = [] := by
        refine hok.resolve_left fun hctl => ?_
        rw [updateEvents_ok (by exact hfd) hctl] at hbad
        cases hbad
      rcases updateEvents_cases e { d with
        rx := bufConsume d.rx (i + 4), state := .UPSTREAM_OPEN, reconnectAttempt := 0 } with hu | hu <;> rw [hu] at hbad ⊢
      · cases hbad
      · refine ⟨rfl, ?_⟩
        show contents d.ses.published = d.ses.messages conf
        rw [hpub, hnil]
        rfl
    · rw [hacc, if_neg hresp] at hbody
      have hr : r = (false, d) := by
        simp only [r, processHandshakeResponse, hrx, hi, hresp]
        rfl
      rw [hr]
      refine ⟨nofun, fun _ => ⟨rfl, ?_⟩⟩
      rw [hpub, UpSession.messages_nil hbody]
      rfl

theorem account_readHandshake (ha : Account conf h c) (hw : Whole True c) (hst : c.state = .UPSTREAM_HANDSHAKE)
    (hok : (e.reads.2 = .open ∧ e.ctl = true) ∨
      UpSession.messages conf { c.ses with got := c.ses.got ++ e.reads.1.flatten } = []) :
    let r := readHandshake conf e c
    (r.1 = true → Account conf .rest r.2) ∧
      (r.1 = false → r.2.past = c.past ∧ contents r.2.ses.published = r.2.ses.messages conf) := by
  obtain ⟨hrx, -, hacc, hpub⟩ := ha.shaking hst
  have hfd := hw.has_fd (by rw [hst]; nofun) (by rw [hst]; nofun)
  have hfrag := hw.fresh (by rw [hst]; nofun) (by rw [hst]; nofun)
  have hpend : c.pendingMsg = none := by
    have hp := hw.paused
    rw [hw.unpaused (by rw [hst]; nofun)] at hp
    exact Option.not_isSome_iff_eq_none.1 (by rw [← hp]; nofun)
  obtain ⟨hdata, hgot⟩ := receive_foldl_data e.reads.1 c
  rw [hrx, ← hgot] at hdata
  rw [← hgot] at hok
  unfold readHandshake
  dsimp only
  rw [receive_foldl]
  generalize (e.reads.1.foldl UpstreamClient.receive c).rx = rx at hdata ⊢
  generalize (e.reads.1.foldl UpstreamClient.receive c).ses.got = got at hdata hok ⊢
  by_cases hend : e.reads.2 = .open
  · rw [if_pos hend]
    have hr := @account_processHandshakeResponse conf e { c with rx := rx, ses := { c.ses with got := got } } ha.past hst hfd
      hdata hacc hpub hfrag hpend (hok.imp_left And.right)
    exact hr
  · rw [if_neg hend]
    refine ⟨nofun, fun _ => ⟨rfl, ?_⟩⟩
    show contents c.ses.published = UpSession.messages conf { c.ses with got := got }
    rw [hpub, hok.resolve_left fun h => hend h.1]
    rfl

theorem account_read {fl : EpollFlags} (ha : Account conf (.shaking fl) c) (hs : Steady conf True (.shaking fl) c)
    (hok : Spares conf e size (.shaking fl) c) :
    Account conf (handStep conf e size (.shaking fl) c).1 (handStep conf e size (.shaking fl) c).2 := by
  unfold handStep upstreamEventRead
  dsimp only
  by_cases hshake : fl.inn = true ∧ c.state = .UPSTREAM_HANDSHAKE
  · rw [if_pos hshake]
    obtain ⟨h1, h2⟩ := account_readHandshake ha hs.whole hshake.2 (hok.resolve_left (not_not.2 hshake))
    split_ifs with hbad hopen
    · obtain ⟨hpast, hses⟩ := h2 hbad
      refine account_disconnect ?_ hses
      rw [hpast]
      exact ha.past
    · rw [Bool.not_eq_false] at hbad
      exact (h1 hbad).rehand rfl
    · rw [Bool.not_eq_false] at hbad
      exact (h1 hbad).rehand rfl
  · rw [if_neg hshake]
    rw [if_neg (show ¬ (true, c).1 = false by simp)]
    split_ifs
    · exact ha.rehand rfl
    · exact ha.rehand rfl

theorem account_receiving {hup : Bool} (ha : Account conf (.receiving hup) c) (hs : Steady conf True (.receiving hup) c) :
    Account conf (handStep conf e size (.receiving hup) c).1 (handStep conf e size (.receiving hup) c).2 := by
  obtain ⟨hi, hr⟩ := hs.held
  have howed := owed_of_idle hs rfl hi hr.paused
  obtain ⟨hbody, evs, hpass, hev⟩ := ha.opened hr.state
  unfold handStep
  dsimp only
  cases e.recv with
  | got bs =>
    refine .of_open hr.state ha.past ?_ evs ?_ hev
    · obtain ⟨n, hn⟩ := Option.isSome_iff_exists.1 hbody
      show (UpSession.bodyAt { c.ses with got := c.ses.got ++ bs }).isSome = true
      rw [(UpSession.bodyAt_append hn bs).1]
      rfl
    · -- the pass goes on where it stood
      show Rules.pass (upstreamLimits conf) none (UpSession.stream { c.ses with got := c.ses.got ++ bs }) =
        Rules.Pass.after evs (Rules.pass (upstreamLimits conf) c.asm (bufData (bufAppend true c.rx bs)))
      rw [UpSession.stream_append hbody, Rules.pass_append, hpass, Rules.after_goOn, ← Rules.pass_append, bufAppend_data]
  | again => exact ha.rehand rfl
  | eof => exact ha.disconnect hs howed
  | err => exact ha.disconnect hs howed

theorem account_leaving {hup : Bool} (ha : Account conf (.leaving hup) c) (hs : Steady conf True (.leaving hup) c)
    (hok : Spares conf e size (.leaving hup) c) :
    Account conf (handStep conf e size (.leaving hup) c).1 (handStep conf e size (.leaving hup) c).2 := by
  cases hup with
  | false => exact ha.rehand rfl
  | true => exact ha.disconnect hs (owed_of_idle hs rfl hs.held.1 (hok.resolve_left nofun))

theorem account_reconnect {now : ℕ} (ha : Account conf .rest c) : Account conf .rest (reconnectClient e now c) := by
  unfold reconnectClient
  split_ifs with h1 h2
  · exact ha
  · exact ha
  rw [not_not] at h1
  have hdown := ha.down (Or.inl h1)
  rcases upstreamConnect_cases e c with ⟨-, hr⟩ | ⟨-, fd, -, hr⟩ | ⟨-, -, hr⟩
  · simp only [hr, Bool.false_eq_true, if_false]
    exact .of_down (Or.inl h1) ha.past hdown
  · simp only [hr, if_true]
    exact .of_down (Or.inr rfl) ha.past ⟨rfl, rfl, hdown.2.2⟩
  · simp only [hr, Bool.false_eq_true, if_false]
    exact .of_down (Or.inr rfl) ha.past ⟨rfl, rfl, hdown.2.2⟩

/-- **A step that spares the client keeps its account.** -/
theorem account_step {h' : Hand} {c' : UpstreamClient} (ha : Account conf h c) (hs : Steady conf True h c)
    (hstep : ClientStep conf (Spares conf) e size c h h' c') : Account conf h' c' := by
  cases hstep with
  | same => exact ha
  | report fl => exact ha.rehand rfl
  | reconnect now => exact account_reconnect ha
  | pick => exact ha.rehand rfl
  | hand h hne hok =>
    cases h with
    | rest => exact absurd rfl hne
    | reported fl => exact account_head ha hs hok
    | shaking fl => exact account_read ha hs hok
    | receiving hup => exact account_receiving ha hs
    | leaving hup => exact account_leaving ha hs hok
    | processing k => exact account_processing ha hs hok
    | publishing k m => exact account_publishing ha hs hok
    | pushing k m => exact account_pushing ha hs
    | resuming => exact account_resuming ha hs hok

/-! ## Every run -/

theorem account_added {id : ℕ} {host : Bytes} {port : ℕ} {path : Bytes} (h : upstreamAdd id host port path = some c) :
    Account conf .rest c := by
  unfold upstreamAdd at h
  split_ifs at h
  obtain rfl := Option.some.inj h
  exact .of_down (Or.inl rfl) nofun ⟨rfl, rfl, rfl⟩

theorem upReach_account {client : ℕ → UpstreamClient} {count : ℕ} {s : UpSys} (hadd : Added client)
    (h : Reach (upStep conf) (Meets (Spares conf)) (UpSys.start client count) s) (i : ℕ) :
    Steady conf True (s.reactor.pc.hand i) (s.reactor.client i) ∧
      Account conf (s.reactor.pc.hand i) (s.reactor.client i) := by
  apply upReach_client (P := fun h c => Steady conf True h c ∧ Account conf h c) _ _ h i
  · intro i
    obtain ⟨id, host, port, path, hi⟩ := hadd i
    exact ⟨steady_added hi, account_added hi⟩
  · rintro e size h c h' c' ⟨hs, ha⟩ hstep
    exact ⟨clientStep_steady (fun _ _ _ => trivial) hs hstep, account_step ha hs hstep⟩

/-- **Nothing is lost** in a run whose steps throw no client away that holds a complete message. Of a session that is
over exactly the messages received were pushed, in their order; of the present one those that are not owed; and a client
that is not paused owes nothing between two steps of the reactor. -/
theorem nothing_lost {client : ℕ → UpstreamClient} {count : ℕ} {s : UpSys} (hadd : Added client)
    (h : Reach (upStep conf) (Meets (Spares conf)) (UpSys.start client count) s) (i : ℕ) :
    let c := s.reactor.client i
    let hand := s.reactor.pc.hand i
    (∀ ses ∈ c.past, contents ses.published = ses.messages conf) ∧
      contents c.ses.published ++ owed conf hand c = c.ses.messages conf ∧
      (hand = .rest → c.readPaused = false → owed conf hand c = []) := by
  obtain ⟨hs, ha⟩ := upReach_account hadd h i
  refine ⟨ha.past, ha.total hs, fun hrest hp => ?_⟩
  have hi : Idle conf (s.reactor.client i) := by
    have := hs.held
    rw [hrest] at this
    exact this
  exact owed_of_idle hs (by rw [hrest]; rfl) hi hp

/-! ## The record and the queue -/

/-- what the client ever pushed -/
def UpstreamClient.log (c : UpstreamClient) : List Msg := c.past.flatMap UpSession.published ++ c.ses.published

/-- the same client with the same record; a message that waits with it stays or goes -/
structure Kin (c d : UpstreamClient) : Prop where
  id : d.id = c.id
  log : d.log = c.log
  pending : d.pendingMsg = c.pendingMsg ∨ d.pendingMsg = none

theorem Kin.refl (c : UpstreamClient) : Kin c c := ⟨rfl, rfl, .inl rfl⟩

theorem Kin.trans {d f : UpstreamClient} (h : Kin c d) (h' : Kin d f) : Kin c f := by
  refine ⟨h'.id.trans h.id, h'.log.trans h.log, ?_⟩
  rcases h'.pending with hp | hp
  · rw [hp]
    exact h.pending
  · exact .inr hp

theorem kin_of {d : UpstreamClient} (hid : d.id = c.id) (hp : d.past = c.past) (hs : d.ses.published = c.ses.published)
    (hm : d.pendingMsg = c.pendingMsg) : Kin c d := by
  refine ⟨hid, ?_, .inl hm⟩
  unfold UpstreamClient.log
  rw [hp, hs]

/-- a session that ends moves to the others -/
theorem kin_disconnect (e : UpEnv) (c : UpstreamClient) : Kin c (upstreamDisconnect e c) := by
  refine ⟨rfl, ?_, .inr rfl⟩
  show (c.past ++ [c.ses]).flatMap UpSession.published ++ [] = _
  simp [UpstreamClient.log]

theorem Kin.updateEvents {d : UpstreamClient} (h : Kin c d) (e : UpEnv) : Kin c (updateEvents e d).2 := by
  rcases updateEvents_cases e d with hu | hu
  · rw [hu]
    exact h.trans (kin_of rfl rfl rfl rfl)
  · rw [hu]
    exact h

theorem kin_queueHandshake (e : UpEnv) (c : UpstreamClient) : Kin c (queueHandshake e c).2 := by
  obtain ⟨accept, h⟩ | ⟨accept, key, h⟩ := queueHandshake_cases e c <;> rw [h]
  · exact kin_of rfl rfl rfl rfl
  · refine Kin.updateEvents ?_ e
    exact kin_of rfl rfl rfl rfl

theorem kin_flush (e : UpEnv) (c : UpstreamClient) : Kin c (flushUpstreamTx e c).2 := by
  obtain h | h := flushUpstreamTx_cases e c <;> rw [h]
  · exact kin_of rfl rfl rfl rfl
  · refine Kin.updateEvents ?_ e
    exact kin_of rfl rfl rfl rfl

theorem kin_readHandshake (conf : ServerConfig) (e : UpEnv) (c : UpstreamClient) : Kin c (readHandshake conf e c).2 := by
  obtain ⟨rx, got, ⟨ok, h⟩ | h⟩ := readHandshake_cases conf e c <;> rw [h]
  · exact kin_of rfl rfl rfl rfl
  · refine Kin.updateEvents ?_ e
    exact kin_of rfl rfl rfl rfl

theorem Queued.kin {d : UpstreamClient} (h : Queued c d) : Kin c d := by
  refine kin_of ?_ ?_ ?_ ?_
  · rw [h.rest]
  · rw [h.rest]
  · rw [h.ses]
  · rw [h.rest]

theorem Core.kin {d : UpstreamClient} (h : Core c d) : Kin c d := by
  refine kin_of ?_ ?_ ?_ ?_ <;> rw [show d = _ from h]

/-- what a step does to the record, and where the messages come from that are not in it yet -/
structure Advance (h : Hand) (c : UpstreamClient) (next : Hand × UpstreamClient) : Prop where
  id : next.2.id = c.id
  log : next.2.log = c.log ++ (h.pushes c).toList
  waiting : ∀ m, next.1.message = some m ∨ next.2.pendingMsg = some m →
    m.srcId = c.id ∨ h.message = some m ∨ c.pendingMsg = some m

theorem Kin.advance {d : UpstreamClient} (hk : Kin c d) (hpush : h.pushes c = none) {h' : Hand} (hm : h'.message = none) :
    Advance h c (h', d) := by
  refine ⟨hk.id, hk.log.trans ?_, ?_⟩
  · rw [hpush]
    exact (List.append_nil _).symm
  · rintro m (hw | hw)
    · rw [hm] at hw
      cases hw
    · rcases hk.pending with hp | hp
      · exact .inr (.inr (hp ▸ hw))
      · rw [hp] at hw
        cases hw

/-- **A step records what it pushes**, and a message that waits behind it waited before or is a new one of the client. -/
theorem handStep_advance (hs : Steady conf True h c) : Advance h c (handStep conf e size h c) := by
  cases h with
  | rest => exact (Kin.refl c).advance rfl rfl
  | reported fl =>
    unfold handStep upstreamEventHead
    dsimp only
    split_ifs
    · exact (kin_disconnect e c).advance rfl rfl
    · exact (kin_queueHandshake e c).advance rfl rfl
    · exact ((kin_queueHandshake e c).trans (kin_disconnect e _)).advance rfl rfl
    · exact (kin_disconnect e c).advance rfl rfl
    · exact ((kin_flush e c).trans (kin_disconnect e _)).advance rfl rfl
    · exact ((kin_flush e c).trans (kin_disconnect e _)).advance rfl rfl
    · exact (kin_flush e c).advance rfl rfl
    · exact (Kin.refl c).advance rfl rfl
  | shaking fl =>
    unfold handStep upstreamEventRead
    dsimp only
    by_cases hshake : fl.inn = true ∧ c.state = .UPSTREAM_HANDSHAKE
    · rw [if_pos hshake]
      have hread := kin_readHandshake conf e c
      split_ifs
      · exact (hread.trans (kin_disconnect e _)).advance rfl rfl
      · exact hread.advance rfl rfl
      · exact hread.advance rfl rfl
    · rw [if_neg hshake]
      rw [if_neg (show ¬ (true, c).1 = false by simp)]
      split_ifs
      · exact (Kin.refl c).advance rfl rfl
      · exact (Kin.refl c).advance rfl rfl
  | receiving hup =>
    unfold handStep
    dsimp only
    cases e.recv with
    | got bs => exact (kin_of rfl rfl rfl rfl : Kin c (c.receive bs)).advance rfl rfl
    | again => exact (Kin.refl c).advance rfl rfl
    | eof => exact (kin_disconnect e c).advance rfl rfl
    | err => exact (kin_disconnect e c).advance rfl rfl
  | leaving hup =>
    cases hup with
    | true => exact (kin_disconnect e c).advance rfl rfl
    | false => exact (Kin.refl c).advance rfl rfl
  | processing k =>
    obtain ⟨asm, hagr⟩ := hs.whole.agrees (show Reading c from hs.held).state
    have hf := upstreamFrame_follows conf e hagr
    unfold handStep
    dsimp only
    generalize upstreamFrame conf e c = st at hf
    generalize Rules.move (upstreamLimits conf) asm (bufData c.rx) = mv at hf
    cases hf with
    | rest => exact (Kin.refl c).advance rfl (k.after_message c)
    | @stop d s hd hst =>
      have hkin := hd.kin.trans (queueMaskedFrame_queued e d opClose (echoOf s)).kin
      cases (queueMaskedFrame e d opClose (echoOf s)).1 with
      | true => exact hkin.advance rfl (k.after_message _)
      | false => exact (hkin.trans (kin_disconnect e _)).advance rfl rfl
    | @pong _ p _ d _ _ hd _ =>
      refine ((queueMaskedFrame_queued e c opPong p).kin.trans (kin_of ?_ ?_ ?_ ?_)).advance rfl rfl <;> rw [hd]
    | @noPong _ p _ _ => exact ((queueMaskedFrame_queued e c opPong p).kin.trans (kin_disconnect e _)).advance rfl rfl
    | next hd => exact hd.kin.advance rfl rfl
    | @message d op data _ hd =>
      have hadv : Advance (.processing k) c (.processing k, d) := hd.kin.advance rfl rfl
      refine ⟨hadv.id, hadv.log, ?_⟩
      rintro m (hm | hm)
      · obtain rfl := Option.some.inj hm
        exact .inl hadv.id
      · exact hadv.waiting m (.inr hm)
  | publishing k m =>
    unfold handStep publishReactorMessage
    dsimp only
    by_cases hfull : conf.highWatermark ≤ size
    · rw [if_pos hfull]
      rcases updateEvents_cases e { c with pendingMsg := some m, readPaused := true } with hu | hu <;> rw [hu]
      · refine ⟨rfl, (List.append_nil _).symm, ?_⟩
        rintro x (hx | hx)
        · cases (k.after_message _).symm.trans hx
        · exact .inr (.inl hx)
      · exact (kin_disconnect e c).advance rfl rfl
    · rw [if_neg hfull]
      exact ⟨rfl, (List.append_nil _).symm, fun x hx => .inr hx⟩
  | pushing k m =>
    refine ⟨rfl, (List.append_assoc _ _ _).symm, ?_⟩
    rintro x (hx | hx)
    · cases hx
    · exact .inr (.inr hx)
  | resuming =>
    have hlog : c.resumed.log = c.log ++ c.pendingMsg.toList := by
      rw [resumed_eq]
      exact (List.append_assoc _ _ _).symm
    have hid : c.resumed.id = c.id := by rw [resumed_eq]
    have hnone : c.resumed.pendingMsg = none := rfl
    have hres : ∀ {d : UpstreamClient} {h' : Hand}, Kin c.resumed d → h'.message = none →
        Advance .resuming c (h', d) := by
      intro d h' hk hm
      refine ⟨hk.id.trans hid, hk.log.trans hlog, ?_⟩
      rintro x (hx | hx)
      · rw [show h'.message = none from hm] at hx
        cases hx
      · rcases hk.pending with hp | hp
        · rw [hp, hnone] at hx
          cases hx
        · rw [hp] at hx
          cases hx
    unfold handStep
    dsimp only
    split_ifs
    · exact hres ((Kin.refl _).updateEvents e) rfl
    · exact hres (((Kin.refl _).updateEvents e).trans (kin_disconnect e _)) rfl

/-- every message the client has, recorded or waiting, carries its id -/
structure Tagged (id : ℕ) (h : Hand) (c : UpstreamClient) : Prop where
  own : c.id = id
  log : ∀ m ∈ c.log, m.srcId = id
  waiting : ∀ m, h.message = some m ∨ c.pendingMsg = some m → m.srcId = id

theorem pushes_waiting {m : Msg} (h' : m ∈ (h.pushes c).toList) : h.message = some m ∨ c.pendingMsg = some m := by
  cases h with
  | pushing k x => exact .inl (Option.mem_toList.1 h')
  | resuming => exact .inr (Option.mem_toList.1 h')
  | _ => cases h'

theorem reconnectClient_tagged {now id : ℕ} (ht : Tagged id .rest c) : Tagged id .rest (reconnectClient e now c) := by
  -- a connection that is opened starts a new record
  have hnew : ∀ {d : UpstreamClient}, d.id = c.id → d.past = c.past → d.ses.published = [] →
      d.pendingMsg = c.pendingMsg → Tagged id .rest d := by
    intro d hid hpast hpub hm
    refine ⟨hid.trans ht.own, fun m hmem => ht.log m ?_, fun m hw => ht.waiting m (hm ▸ hw)⟩
    unfold UpstreamClient.log at hmem ⊢
    rw [hpub, List.append_nil, hpast] at hmem
    exact List.mem_append_left _ hmem
  unfold reconnectClient
  split_ifs
  · exact ht
  · exact ht
  rcases upstreamConnect_cases e c with ⟨-, hr⟩ | ⟨-, fd, -, hr⟩ | ⟨-, -, hr⟩
  · simp only [hr, Bool.false_eq_true, if_false]
    exact ⟨ht.own, ht.log, ht.waiting⟩
  · simp only [hr, if_true]
    exact hnew rfl rfl rfl rfl
  · simp only [hr, Bool.false_eq_true, if_false]
    exact hnew rfl rfl rfl rfl

theorem tagged_step {h' : Hand} {c' : UpstreamClient} {id : ℕ} {cond : Condition} (ht : Tagged id h c)
    (hs : Steady conf True h c) (hstep : ClientStep conf cond e size c h h' c') : Tagged id h' c' := by
  cases hstep with
  | same => exact ht
  | report fl => exact ⟨ht.own, ht.log, fun m hm => ht.waiting m (hm.imp_left nofun)⟩
  | reconnect now => exact reconnectClient_tagged ht
  | pick => exact ⟨ht.own, ht.log, fun m hm => ht.waiting m (hm.imp_left nofun)⟩
  | hand =>
    have hadv : Advance h c (handStep conf e size h c) := handStep_advance hs
    refine ⟨hadv.id.trans ht.own, fun m hm => ?_, fun m hm => ?_⟩
    · rw [hadv.log] at hm
      rcases List.mem_append.1 hm with hm | hm
      · exact ht.log m hm
      · exact ht.waiting m (pushes_waiting hm)
    · rcases hadv.waiting m hm with hid | hw
      · exact hid.trans ht.own
      · exact ht.waiting m hw

/-- **A client's messages carry its id**, which is the one `upstreamAdd` gave it. -/
theorem upReach_tagged {client : ℕ → UpstreamClient} {count : ℕ} {s : UpSys} (hadd : Added client)
    (h : Reachable (upStep conf) (UpSys.start client count) s) (i : ℕ) :
    Tagged (client i).id (s.reactor.pc.hand i) (s.reactor.client i) := by
  have hall := upReach_each (P := fun i h c => Steady conf True h c ∧ Tagged (client i).id h c) ?_ ?_ (upReach_any h) i
  · exact hall.2
  · intro i
    obtain ⟨id, host, port, path, hi⟩ := hadd i
    refine ⟨steady_added hi, ?_⟩
    unfold upstreamAdd at hi
    split_ifs at hi
    rw [← Option.some.inj hi]
    exact ⟨rfl, nofun, by rintro m (hm | hm) <;> cases hm⟩
  · rintro i e size h c h' c' ⟨hs, ht⟩ hstep
    exact ⟨clientStep_steady (fun _ _ _ => trivial) hs hstep, tagged_step ht hs hstep⟩

/-- a new session starts with an empty record behind an empty one -/
theorem log_reconnect_of {now : ℕ} (hpub : c.state = .UPSTREAM_DISCONNECTED → c.ses.published = []) :
    (reconnectClient e now c).log = c.log := by
  unfold reconnectClient
  split_ifs with h1 h2
  · rfl
  · rfl
  rw [not_not] at h1
  rcases upstreamConnect_cases e c with ⟨-, hr⟩ | ⟨-, fd, -, hr⟩ | ⟨-, -, hr⟩
  · simp only [hr, Bool.false_eq_true, if_false]
    rfl
  · simp only [hr, if_true]
    exact congrArg (c.past.flatMap UpSession.published ++ ·) (hpub h1).symm
  · simp only [hr, Bool.false_eq_true, if_false]
    exact congrArg (c.past.flatMap UpSession.published ++ ·) (hpub h1).symm

/-- the message a step of the reactor pushes -/
def Reactor.pushes (r : Reactor) : Option Msg :=
  match r.pc with
  | .busy i h _ => h.pushes (r.client i)
  | _ => none

theorem reactorStep_queue {q : Queue Msg} {r : Reactor} {e : UpEnv} {t : Queue Msg × Reactor}
    (h : reactorStep conf q r e = some t) : t.1 = r.pushes.elim q (push q) := by
  unfold reactorStep at h
  unfold Reactor.pushes
  cases hpc : r.pc with
  | top => simp only [hpc] at h ⊢; obtain rfl := Option.some.inj h; rfl
  | reconnect i now => simp only [hpc] at h ⊢; split_ifs at h <;> obtain rfl := Option.some.inj h <;> rfl
  | resume => simp only [hpc] at h ⊢; obtain rfl := Option.some.inj h; rfl
  | resumeAt i => simp only [hpc] at h ⊢; split_ifs at h <;> obtain rfl := Option.some.inj h <;> rfl
  | wait =>
    simp only [hpc] at h ⊢
    split at h
    · obtain rfl := Option.some.inj h; rfl
    · obtain rfl := Option.some.inj h; rfl
    · split_ifs at h; obtain rfl := Option.some.inj h; rfl
  | events evs =>
    cases evs with
    | nil => simp only [hpc] at h ⊢; obtain rfl := Option.some.inj h; rfl
    | cons ev evs => simp only [hpc] at h ⊢; obtain rfl := Option.some.inj h; rfl
  | busy i hd back => simp only [hpc] at h ⊢; obtain rfl := Option.some.inj h; rfl
  | done => simp only [hpc] at h; cases h

/-- the message a step records with client `i` -/
def Reactor.records (r : Reactor) (i : ℕ) : Option Msg :=
  match r.pc with
  | .busy j h _ => if i = j then h.pushes (r.client j) else none
  | _ => none

/-- **A step of the reactor records what it pushes**, with the client it works on. -/
theorem reactorStep_logs {q : Queue Msg} {r : Reactor} {t : Queue Msg × Reactor}
    (hs : ∀ i, Steady conf True (r.pc.hand i) (r.client i))
    (hpub : ∀ i, (r.client i).state = .UPSTREAM_DISCONNECTED → (r.client i).ses.published = [])
    (hstep : reactorStep conf q r e = some t) (i : ℕ) : (t.2.client i).log = (r.client i).log ++ (r.records i).toList := by
  have hquiet : (r.client i).log = (r.client i).log ++ (none : Option Msg).toList := (List.append_nil _).symm
  unfold reactorStep at hstep
  unfold Reactor.records
  cases hpc : r.pc with
  | top => simp only [hpc] at hstep ⊢; obtain rfl := Option.some.inj hstep; exact hquiet
  | reconnect j now =>
    simp only [hpc] at hstep ⊢
    split_ifs at hstep
    · obtain rfl := Option.some.inj hstep
      show (Function.update r.client j _ i).log = _
      by_cases hi : i = j
      · subst hi
        rw [Function.update_self, log_reconnect_of (hpub i)]
        exact hquiet
      · rw [Function.update_of_ne hi]
        exact hquiet
    · obtain rfl := Option.some.inj hstep
      exact hquiet
  | resume => simp only [hpc] at hstep ⊢; obtain rfl := Option.some.inj hstep; exact hquiet
  | resumeAt j => simp only [hpc] at hstep ⊢; split_ifs at hstep <;> obtain rfl := Option.some.inj hstep <;> exact hquiet
  | wait =>
    simp only [hpc] at hstep ⊢
    split at hstep
    · obtain rfl := Option.some.inj hstep; exact hquiet
    · obtain rfl := Option.some.inj hstep; exact hquiet
    · split_ifs at hstep
      obtain rfl := Option.some.inj hstep
      exact hquiet
  | events evs => cases evs <;> simp only [hpc] at hstep ⊢ <;> obtain rfl := Option.some.inj hstep <;> exact hquiet
  | busy j hd back =>
    simp only [hpc] at hstep ⊢
    obtain rfl := Option.some.inj hstep
    have hj : Steady conf True hd (r.client j) := by
      have := hs j
      rwa [hpc, show (UpPc.busy j hd back).hand j = hd from if_pos rfl] at this
    show (Function.update r.client j _ i).log = _
    by_cases hi : i = j
    · subst hi
      rw [Function.update_self, if_pos rfl]
      exact (handStep_advance hj).log
    · rw [Function.update_of_ne hi, if_neg hi]
      exact hquiet
  | done => simp only [hpc] at hstep; cases hstep

/-- **The record is the queue's**: a step of the reactor pushes the message it records, and no other. -/
theorem reactorStep_pushes {client : ℕ → UpstreamClient} {count : ℕ} {s : UpSys} {q' : Queue Msg} {r' : Reactor}
    (hadd : Added client) (h : Reach (upStep conf) (Meets (Spares conf)) (UpSys.start client count) s)
    (hstep : reactorStep conf s.queue s.reactor e = some (q', r')) :
    ∃ (j : ℕ) (m : Option Msg), q' = m.elim s.queue (push s.queue) ∧
      ∀ i, (r'.client i).log = (s.reactor.client i).log ++ if i = j then m.toList else [] := by
  have hall := upReach_account hadd h
  have hqueue := reactorStep_queue hstep
  have hlog := reactorStep_logs (fun i => (hall i).1) (fun i hdown => ((hall i).2.down (Or.inl hdown)).2.1) hstep
  unfold Reactor.pushes at hqueue
  unfold Reactor.records at hlog
  cases hpc : s.reactor.pc with
  | busy j hd back =>
    simp only [hpc] at hqueue hlog
    refine ⟨j, hd.pushes (s.reactor.client j), hqueue, fun i => ?_⟩
    rw [hlog i]
    split_ifs <;> rfl
  | _ =>
    simp only [hpc] at hqueue hlog
    exact ⟨0, none, hqueue, fun i => (hlog i).trans (by simp)⟩

/-! ## A message is lost -/

/-- `--high-watermark 2 --low-watermark 1` -/
def narrowConf : ServerConfig :=
  { smallConf with highWatermark := 2, lowWatermark := 1, low_lt_high := Nat.one_lt_two, low_pos := Nat.one_pos }

/-- the client is paused with the message [41], then the peer's close is reported -/
def pausedClose : List UpAct :=
  opening [0x82, 0x01, 0x41] ++ [UpAct.others (push (push createQueue (msgNewSrcDown 3)) (msgNewSrcDown 4))] ++ calmSteps 8 ++
    [waitStep [(0, { EpollFlags.none with rdhup := true })]] ++ calmSteps 4

/-- **A peer's close discards the parked message**: the session is over, its message was received and never pushed. -/
theorem close_discards_paused : ∃ s, Reachable (upStep narrowConf) (UpSys.start (fun _ => closedClient 9) 1) s ∧
    ∃ ses ∈ (s.reactor.client 0).past, ses.published = [] ∧ ses.messages narrowConf = [(opBin, [0x41])] := by
  obtain ⟨s, hs, hp⟩ := Reachable.of_check (upStep narrowConf) (UpSys.start (fun _ => closedClient 9) 1) pausedClose
    (fun s => (s.reactor.client 0).past.any fun ses => ses.published = [] ∧ ses.stream = [0x82, 0x01, 0x41])
    (by decide +kernel)
  obtain ⟨ses, hmem, hses⟩ := List.any_eq_true.1 hp
  rw [decide_eq_true_eq] at hses
  refine ⟨s, hs, ses, hmem, hses.1, ?_⟩
  have hmove : Rules.move (upstreamLimits narrowConf) none [0x82, 0x01, 0x41] = .go none [.message opBin [0x41]] [] := by
    rfl
  unfold UpSession.messages
  rw [hses.2, Rules.pass_go hmove, Rules.pass_more rfl]
  rfl

/-- the queue drains first: the message is pushed when the client is let go, and the close finds nothing -/
def drainedClose : List UpAct :=
  opening [0x82, 0x01, 0x41] ++ [UpAct.others (push (push createQueue (msgNewSrcDown 3)) (msgNewSrcDown 4))] ++ calmSteps 8 ++
    [UpAct.others createQueue] ++ calmSteps 9 ++ [waitStep [(0, { EpollFlags.none with rdhup := true })]] ++ calmSteps 4

theorem nothing_lost_drained : ∃ s : UpSys, ∃ ses ∈ (s.reactor.client 0).past,
    contents ses.published = [(opBin, [0x41])] ∧ contents ses.published = ses.messages narrowConf := by
  have hex : (exec (guarded (upStep narrowConf) (Meets (Spares narrowConf))) (UpSys.start (fun _ => closedClient 9) 1)
      drainedClose).any fun s =>
        (s.reactor.client 0).past.any fun ses => contents ses.published = [(opBin, [0x41])] := by decide +kernel
  obtain ⟨s, hs, hp⟩ := (Option.any_eq_true _ _).1 hex
  obtain ⟨ses, hmem, hses⟩ := List.any_eq_true.1 hp
  rw [decide_eq_true_eq] at hses
  exact ⟨s, ses, hmem, hses, (nothing_lost (added_closedClient 9) (.of_guarded .start hs) 0).1 ses hmem⟩

end WsServer
