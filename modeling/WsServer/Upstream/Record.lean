/-
The record of a client's sessions, and what a step of the reactor adds to it.

A frame goes to the record when it goes to tx, a message when it goes to dataQueue. Both happen while the client is open,
and a CLOSE takes it out of this state.

- `handStep_adds`: a step adds one frame at most to the present session, and the messages it pushes; it may end the
  session.
- `Recorded`: so in every session nothing is behind a CLOSE, and the bytes sent are the request and the frames.
- `clientStep_lasts`: a session with a CLOSE in it stays as it is, present or past.
-/
import Mathlib
import WsServer.Upstream.Account
import WsServer.Upstream.Masked

namespace WsServer

open Ws Machine

/-! ## What was said in a session -/

def UpSession.opcodes (ses : UpSession) : List ℕ := ses.frames.map Rules.ClientFrame.op

/-- the request, and the frames behind it -/
def UpSession.bytes (ses : UpSession) : Bytes := ses.request ++ ses.frames.flatMap Rules.ClientFrame.bytes

/-- what left in this session or waits in tx is the request and the frames -/
def UpstreamClient.Told (c : UpstreamClient) : Prop := c.ses.out ++ bufData c.tx = c.ses.bytes

variable {conf : ServerConfig} {e : UpEnv} {c d u : UpstreamClient} {h h' : Hand} {size : ℕ}
  {fs fs' : List Rules.ClientFrame} {ms ms' : List Msg}

/-- `d` has the record of `c`, with frames and messages more in the present session -/
structure Grows (c d : UpstreamClient) (fs : List Rules.ClientFrame) (ms : List Msg) : Prop where
  past : d.past = c.past
  frames : d.ses.frames = c.ses.frames ++ fs
  published : d.ses.published = c.ses.published ++ ms
  told : c.Told → d.Told

/-- the record is the same -/
theorem grows_of (hpast : d.past = c.past) (hses : d.ses.frames = c.ses.frames) (hpub : d.ses.published = c.ses.published)
    (htold : c.Told → d.Told) : Grows c d [] [] :=
  ⟨hpast, by rw [hses, List.append_nil], by rw [hpub, List.append_nil], htold⟩

theorem Grows.refl (c : UpstreamClient) : Grows c c [] [] := grows_of rfl rfl rfl id

theorem Grows.trans (hg : Grows c d fs ms) (hg' : Grows d u fs' ms') : Grows c u (fs ++ fs') (ms ++ ms') where
  past := hg'.past.trans hg.past
  frames := by rw [hg'.frames, hg.frames, List.append_assoc]
  published := by rw [hg'.published, hg.published, List.append_assoc]
  told ht := hg'.told (hg.told ht)

/-- nothing is added behind -/
theorem Grows.same (hg : Grows c d fs ms) (hg' : Grows d u [] []) : Grows c u fs ms := by
  have h := hg.trans hg'
  rwa [List.append_nil, List.append_nil] at h

/-- what is sent leaves tx -/
theorem grows_same (hpast : d.past = c.past) (hses : d.ses = c.ses) (htx : d.tx = c.tx) : Grows c d [] [] := by
  refine grows_of hpast (by rw [hses]) (by rw [hses]) fun ht => ?_
  unfold UpstreamClient.Told at ht ⊢
  rw [hses, htx]
  exact ht

theorem Grows.updateEvents (hg : Grows c d fs ms) (e : UpEnv) : Grows c (updateEvents e d).2 fs ms := by
  rcases updateEvents_cases e d with hu | hu
  · rw [hu]
    exact hg.same (grows_same rfl rfl rfl)
  · rw [hu]
    exact hg

theorem Core.grows (hd : Core c d) : Grows c d [] [] := by
  apply grows_same <;> rw [show d = _ from hd]

theorem flushUpstreamTx_grows (e : UpEnv) (c : UpstreamClient) : Grows c (flushUpstreamTx e c).2 [] [] := by
  have hsent : Grows c (c.afterSend e) [] [] := by
    refine grows_of rfl rfl rfl fun ht => ?_
    show c.ses.out ++ (bufSend e.sends c.tx).2.2 ++ bufData (bufSend e.sends c.tx).2.1 = c.ses.bytes
    rw [List.append_assoc, bufSend_data]
    exact ht
  obtain h | h := flushUpstreamTx_cases e c <;> rw [h]
  · exact hsent
  · exact hsent.updateEvents e

/-- the request starts a session -/
theorem queueHandshake_grows (hses : c.ses = .none) : Grows c (queueHandshake e c).2 [] [] := by
  obtain ⟨accept, h⟩ | ⟨accept, key, h⟩ := queueHandshake_cases e c <;> rw [h]
  · exact grows_same rfl rfl rfl
  · refine Grows.updateEvents ?_ e
    refine grows_of rfl rfl rfl fun _ => ?_
    unfold UpstreamClient.Told UpSession.bytes UpstreamClient.withRequest
    dsimp only
    rw [hses, bufAppend_data, bufReset_data]
    exact (List.append_nil _).symm

theorem readHandshake_grows (conf : ServerConfig) (e : UpEnv) (c : UpstreamClient) :
    Grows c (readHandshake conf e c).2 [] [] := by
  obtain ⟨rx, got, ⟨ok, h⟩ | h⟩ := readHandshake_cases conf e c <;> rw [h]
  · exact grows_of rfl rfl rfl id
  · refine Grows.updateEvents ?_ e
    exact grows_of rfl rfl rfl id

/-- one frame goes to tx, or none when there is no mask -/
theorem queueMaskedFrame_grows {op : ℕ} (hop : IsOpcode op) (e : UpEnv) (c : UpstreamClient) (payload : Bytes) :
    ∃ fs, Grows c (queueMaskedFrame e c op payload).2 fs [] ∧ fs.length ≤ 1 ∧
      ∀ f ∈ fs, f.op = op ∧ f.payload = payload ∧ e.mask ≠ none := by
  have hq := queueMaskedFrame_queued e c op payload
  cases hm : e.mask with
  | none =>
    refine ⟨[], ?_, Nat.zero_le 1, fun _ hf => absurd hf List.not_mem_nil⟩
    unfold queueMaskedFrame
    rw [hm]
    exact .refl c
  | some mask =>
    have htx := queueMaskedFrame_tx hm c op payload
    have hframes : (queueMaskedFrame e c op payload).2.ses.frames = c.ses.frames ++ [⟨true, op, payload, mask.1⟩] := by
      unfold queueMaskedFrame
      rw [hm]
      dsimp only
      rcases updateEvents_cases e (c.addFrame op payload mask) with hu | hu <;> rw [hu] <;> rfl
    refine ⟨[⟨true, op, payload, mask.1⟩], ⟨?_, hframes, ?_, fun ht => ?_⟩, le_rfl, ?_⟩
    · rw [hq.rest]
    · rw [hq.ses, List.append_nil]
    · unfold UpstreamClient.Told UpSession.bytes at ht ⊢
      rw [htx, hframes, List.flatMap_append, hq.ses, ← List.append_assoc, ht, maskedBytes_eq hop]
      simp [Rules.ClientFrame.bytes]
    · intro f hf
      obtain rfl := List.mem_singleton.1 hf
      exact ⟨rfl, rfl, Option.some_ne_none _⟩

/-! ## A step -/

/-- what a step does to the record: it adds to the present session, and it may end it -/
inductive Adds (c : UpstreamClient) (fs : List Rules.ClientFrame) (ms : List Msg) : UpstreamClient → Prop where
  | on {d : UpstreamClient} : Grows c d fs ms → (opClose ∈ fs.map Rules.ClientFrame.op → d.state = .UPSTREAM_CLOSING) →
      (c.state = .UPSTREAM_CLOSING → d.state = .UPSTREAM_CLOSING) →
      (d.state = .UPSTREAM_DISCONNECTED ∨ d.state = .UPSTREAM_CONNECTING → d.ses = .none) → Adds c fs ms d
  | ends (e : UpEnv) {u : UpstreamClient} : Grows c u fs ms → Adds c fs ms (upstreamDisconnect e u)

variable (conf e h) in
/-- a step that may queue a CLOSE, and with what payload: the rules stop at the front of rx -/
def Closing (c : UpstreamClient) (payload : Bytes) : Prop :=
  (∃ k, h = .processing k) ∧ e.mask ≠ none ∧
    ∃ s, Rules.move (upstreamLimits conf) c.asm (bufData c.rx) = .stop s ∧ payload = echoOf s

variable (conf e h) in
/-- what one step may add -/
structure Addition (c : UpstreamClient) (fs : List Rules.ClientFrame) (ms : List Msg) : Prop where
  one : fs.length ≤ 1
  opened : fs ≠ [] ∨ ms ≠ [] → c.state = .UPSTREAM_OPEN
  close : ∀ f ∈ fs, f.op = opClose → Closing conf e h c f.payload

/-- no frame -/
theorem addition_of (ms : List Msg) (hopen : ms ≠ [] → c.state = .UPSTREAM_OPEN) : Addition conf e h c [] ms :=
  ⟨Nat.zero_le 1, fun hne => hopen (hne.resolve_left fun hnil => hnil rfl), nofun⟩

theorem addition_none (c : UpstreamClient) : Addition conf e h c [] [] := addition_of [] fun hne => absurd rfl hne

/-- nothing was said before there is a connection -/
def Fresh (c : UpstreamClient) : Prop :=
  c.state = .UPSTREAM_DISCONNECTED ∨ c.state = .UPSTREAM_CONNECTING → c.ses = .none

variable (conf e h) in
/-- a step of the reactor on a client adds something -/
def StepAdds (c d : UpstreamClient) : Prop := ∃ fs ms, Addition conf e h c fs ms ∧ Adds c fs ms d

theorem stepAdds_ends (hg : Grows c u [] []) : StepAdds conf e h c (upstreamDisconnect e u) :=
  ⟨[], [], addition_none c, .ends e hg⟩

/-- a client whose state stays, and its record too -/
theorem stepAdds_same (hg : Grows c d [] []) (hstate : d.state = c.state) (hses : c.ses = .none → d.ses = .none)
    (hf : Fresh c) : StepAdds conf e h c d :=
  ⟨[], [], addition_none c, .on hg nofun (fun h => hstate.trans h) fun h => hses (hf (hstate ▸ h))⟩

theorem stepAdds_refl (hf : Fresh c) : StepAdds conf e h c c := stepAdds_same (.refl c) rfl id hf

/-- a client with a connection -/
theorem stepAdds_up (hg : Grows c d fs ms) (ha : Addition conf e h c fs ms)
    (hclose : opClose ∈ fs.map Rules.ClientFrame.op → d.state = .UPSTREAM_CLOSING)
    (hstay : c.state = .UPSTREAM_CLOSING → d.state = .UPSTREAM_CLOSING)
    (hup : d.state = .UPSTREAM_HANDSHAKE ∨ d.state = .UPSTREAM_OPEN ∨ d.state = .UPSTREAM_CLOSING) : StepAdds conf e h c d := by
  refine ⟨fs, ms, ha, .on hg hclose hstay ?_⟩
  intro hdown
  rcases hup with h | h | h <;> rw [h] at hdown <;> rcases hdown with hd | hd <;> cases hd

theorem updateEvents_state (e : UpEnv) (c : UpstreamClient) : (updateEvents e c).2.state = c.state := by
  rcases updateEvents_cases e c with h | h <;> rw [h]

theorem queueHandshake_state (hok : (queueHandshake e c).1 = true) : (queueHandshake e c).2.state = .UPSTREAM_HANDSHAKE := by
  obtain ⟨accept, h⟩ | ⟨accept, key, h⟩ := queueHandshake_cases e c
  · rw [h] at hok
    cases hok
  · rw [h]
    exact updateEvents_state e _

theorem flushUpstreamTx_state (e : UpEnv) (c : UpstreamClient) : (flushUpstreamTx e c).2.state = c.state := by
  obtain h | h := flushUpstreamTx_cases e c <;> rw [h]
  · rfl
  · exact updateEvents_state e _

theorem readHandshake_state (conf : ServerConfig) (e : UpEnv) (c : UpstreamClient) :
    (readHandshake conf e c).2.state = c.state ∨ (readHandshake conf e c).2.state = .UPSTREAM_OPEN := by
  obtain ⟨rx, got, ⟨ok, h⟩ | h⟩ := readHandshake_cases conf e c <;> rw [h]
  · exact .inl rfl
  · exact .inr (updateEvents_state e _)

theorem head_adds {fl : EpollFlags} (hs : Steady conf True (.reported fl) c) (hf : Fresh c) :
    StepAdds conf e (.reported fl) c (upstreamEventHead e fl c).2 := by
  have hfd := hs.held.2.1
  have hflush := flushUpstreamTx_grows e c
  unfold upstreamEventHead
  dsimp only
  split_ifs with herr hcon hup hq hout hbad hend
  · exact stepAdds_ends (.refl c)
  · have hses := hf (.inr hcon.2)
    refine stepAdds_up (queueHandshake_grows hses) (addition_none c) nofun (fun h => ?_) (.inl (queueHandshake_state hq))
    rw [hcon.2] at h
    cases h
  · exact stepAdds_ends (queueHandshake_grows (hf (.inr hcon.2)))
  · exact stepAdds_ends (.refl c)
  · exact stepAdds_ends hflush
  · exact stepAdds_ends hflush
  · -- a connecting client was dealt with before, a disconnected one is not reported
    refine ⟨[], [], addition_none c, .on hflush nofun (fun h => (flushUpstreamTx_state e c).trans h) fun hdown => ?_⟩
    rw [flushUpstreamTx_state] at hdown
    rcases hdown with hdown | hdown
    · exact absurd (hs.whole.gone hdown).1 hfd
    · exact absurd ⟨hout, hdown⟩ hcon
  · exact stepAdds_refl hf

theorem read_adds {fl : EpollFlags} (hf : Fresh c) : StepAdds conf e (.shaking fl) c (upstreamEventRead conf e fl c).2 := by
  unfold upstreamEventRead
  by_cases hshake : fl.inn = true ∧ c.state = .UPSTREAM_HANDSHAKE
  · have hread := readHandshake_grows conf e c
    have hon : StepAdds conf e (.shaking fl) c (readHandshake conf e c).2 := by
      refine stepAdds_up hread (addition_none c) nofun (fun h => ?_) ?_
      · rw [hshake.2] at h
        cases h
      · rcases readHandshake_state conf e c with h | h
        · exact .inl (h.trans hshake.2)
        · exact .inr (.inl h)
    rw [if_pos hshake]
    dsimp only
    split_ifs
    · exact stepAdds_ends hread
    · exact hon
    · exact hon
  · rw [if_neg hshake]
    dsimp only
    rw [if_neg (show ¬ true = false by nofun)]
    split_ifs
    · exact stepAdds_refl hf
    · exact stepAdds_refl hf

theorem no_close {payload : Bytes} (hfs : ∀ f ∈ fs, f.op = opPong ∧ f.payload = payload ∧ e.mask ≠ none) :
    opClose ∉ fs.map Rules.ClientFrame.op := by
  intro hmem
  obtain ⟨f, hf, hop⟩ := List.mem_map.1 hmem
  exact absurd ((hfs f hf).1.symm.trans hop) (by decide)

theorem addition_pong {payload : Bytes} (hlen : fs.length ≤ 1)
    (hfs : ∀ f ∈ fs, f.op = opPong ∧ f.payload = payload ∧ e.mask ≠ none) (hopen : c.state = .UPSTREAM_OPEN) :
    Addition conf e h c fs [] :=
  ⟨hlen, fun _ => hopen, fun _ hf hop => absurd (List.mem_map.2 ⟨_, hf, hop⟩) (no_close hfs)⟩

theorem processing_adds {k : Caller} (hs : Steady conf True (.processing k) c) :
    StepAdds conf e (.processing k) c (handStep conf e size (.processing k) c).2 := by
  have hr : Reading c := hs.held
  obtain ⟨asm, hagr⟩ := hs.whole.agrees hr.state
  have hf := upstreamFrame_follows conf e hagr
  rw [← hagr.asm_eq] at hf
  have hopen : ∀ d : UpstreamClient, d.state = c.state → d.state = .UPSTREAM_OPEN := fun d h => h.trans hr.state
  have hstay : ∀ d : UpstreamClient, c.state = .UPSTREAM_CLOSING → d.state = .UPSTREAM_CLOSING := by
    intro d h
    rw [hr.state] at h
    cases h
  unfold handStep
  dsimp only
  generalize upstreamFrame conf e c = st at hf
  generalize hmv : Rules.move (upstreamLimits conf) c.asm (bufData c.rx) = mv at hf
  cases hf with
  | rest => exact stepAdds_up (.refl c) (addition_none c) nofun (hstay c) (.inr (.inl hr.state))
  | @stop d s hd hst =>
    obtain ⟨fs, hgrow, hlen, hfs⟩ := queueMaskedFrame_grows (show IsOpcode opClose by decide) e d (echoOf s)
    have hclose : ∀ f ∈ fs, f.op = opClose → Closing conf e (.processing k) c f.payload := by
      intro f hfmem _
      obtain ⟨-, hpayload, hmask⟩ := hfs f hfmem
      exact ⟨⟨k, rfl⟩, hmask, s, hmv, hpayload⟩
    have hg : Grows c (queueMaskedFrame e d opClose (echoOf s)).2 fs [] := hd.grows.trans hgrow
    have hclosing : (queueMaskedFrame e d opClose (echoOf s)).2.state = .UPSTREAM_CLOSING := by
      rw [(queueMaskedFrame_queued e d opClose (echoOf s)).rest]
      exact hst
    cases (queueMaskedFrame e d opClose (echoOf s)).1 with
    | true => exact stepAdds_up hg ⟨hlen, fun _ => hr.state, hclose⟩ (fun _ => hclosing) (fun _ => hclosing) (.inr (.inr hclosing))
    | false => exact ⟨fs, [], ⟨hlen, fun _ => hr.state, hclose⟩, .ends e hg⟩
  | @pong _ p _ d _ _ hd _ =>
    obtain ⟨fs, hgrow, hlen, hfs⟩ := queueMaskedFrame_grows (show IsOpcode opPong by decide) e c p
    have hstate : d.state = .UPSTREAM_OPEN := by
      rw [hd, (queueMaskedFrame_queued e c opPong p).rest]
      exact hr.state
    have hg : Grows c d fs [] := by
      refine hgrow.same (grows_same ?_ ?_ ?_) <;> rw [hd]
    exact stepAdds_up hg (addition_pong hlen hfs hr.state) (fun hmem => absurd hmem (no_close hfs)) (hstay d)
      (.inr (.inl hstate))
  | @noPong _ p _ _ =>
    obtain ⟨fs, hgrow, hlen, hfs⟩ := queueMaskedFrame_grows (show IsOpcode opPong by decide) e c p
    exact ⟨fs, [], addition_pong hlen hfs hr.state, .ends e hgrow⟩
  | @next d _ _ hd hst => exact stepAdds_up hd.grows (addition_none c) nofun (hstay d) (.inr (.inl (hopen d hst)))
  | @message d op data _ hd hst => exact stepAdds_up hd.grows (addition_none c) nofun (hstay d) (.inr (.inl (hopen d hst)))

/-- what is pushed is pushed while the client is open -/
theorem publishing_adds {k : Caller} {m : Msg} (hs : Steady conf True (.publishing k m) c) :
    StepAdds conf e (.publishing k m) c (handStep conf e size (.publishing k m) c).2 := by
  have hr : Reading c := hs.held.1
  have hon : ∀ d : UpstreamClient, Grows c d [] [] → d.state = c.state → StepAdds conf e (.publishing k m) c d := by
    intro d hg hst
    refine stepAdds_up hg (addition_none c) nofun (fun h => hst.trans h) (.inr (.inl (hst.trans hr.state)))
  unfold handStep publishReactorMessage
  dsimp only
  by_cases hfull : conf.highWatermark ≤ size
  · rw [if_pos hfull]
    rcases updateEvents_cases e { c with pendingMsg := some m, readPaused := true } with hu | hu <;> rw [hu]
    · exact hon _ (grows_same rfl rfl rfl) rfl
    · refine stepAdds_ends ?_
      exact grows_same rfl rfl rfl
  · rw [if_neg hfull]
    exact hon c (.refl c) rfl

theorem pushing_adds {k : Caller} {m : Msg} (hs : Steady conf True (.pushing k m) c) :
    StepAdds conf e (.pushing k m) c (handStep conf e size (.pushing k m) c).2 := by
  have hr : Reading c := hs.held.1
  have hg : Grows c (c.record m) [] [m] := ⟨rfl, (List.append_nil _).symm, rfl, id⟩
  exact stepAdds_up hg (addition_of [m] fun _ => hr.state) nofun id (.inr (.inl hr.state))

theorem resuming_adds (hs : Steady conf True .resuming c) :
    StepAdds conf e .resuming c (handStep conf e size .resuming c).2 := by
  have hst : c.state = .UPSTREAM_OPEN := hs.whole.pausedOpen hs.held
  have hg : Grows c c.resumed [] c.pendingMsg.toList ∧ c.resumed.state = c.state := by
    unfold UpstreamClient.resumed
    cases c.pendingMsg with
    | none => exact ⟨grows_same rfl rfl rfl, rfl⟩
    | some m => exact ⟨⟨rfl, (List.append_nil _).symm, rfl, id⟩, rfl⟩
  have hgrow := hg.1.updateEvents e
  have hstate : (updateEvents e c.resumed).2.state = .UPSTREAM_OPEN := (updateEvents_state e _).trans (hg.2.trans hst)
  have ha : Addition conf e .resuming c [] c.pendingMsg.toList := addition_of _ fun _ => hst
  unfold handStep
  dsimp only
  split_ifs
  · refine stepAdds_up hgrow ha nofun (fun h => ?_) (.inr (.inl hstate))
    rw [hst] at h
    cases h
  · exact ⟨[], _, ha, .ends e hgrow⟩

/-- **A step adds one frame at most, and what it pushes, to the present session**, and only while the client is open. -/
theorem handStep_adds (hs : Steady conf True h c) (hf : Fresh c) : StepAdds conf e h c (handStep conf e size h c).2 := by
  cases h with
  | rest => exact stepAdds_refl hf
  | reported fl => exact head_adds hs hf
  | shaking fl => exact read_adds hf
  | receiving hup =>
    have hr : Reading c := hs.held.2
    unfold handStep
    dsimp only
    cases e.recv with
    | got bs =>
      refine stepAdds_up ?_ (addition_none c) nofun id (.inr (.inl hr.state))
      exact grows_of rfl rfl rfl id
    | again => exact stepAdds_refl hf
    | eof => exact stepAdds_ends (.refl c)
    | err => exact stepAdds_ends (.refl c)
  | leaving hup =>
    cases hup with
    | true => exact stepAdds_ends (.refl c)
    | false => exact stepAdds_refl hf
  | processing k => exact processing_adds hs
  | publishing k m => exact publishing_adds hs
  | pushing k m => exact pushing_adds hs
  | resuming => exact resuming_adds hs

/-- a client that is connected starts a new session -/
theorem reconnect_adds {now : ℕ} (hf : Fresh c) : StepAdds conf e .rest c (reconnectClient e now c) := by
  unfold reconnectClient
  split_ifs with h1 h2
  · exact stepAdds_refl hf
  · exact stepAdds_refl hf
  rw [not_not] at h1
  have hses : c.ses = .none := hf (.inl h1)
  have hnew : ∀ d : UpstreamClient, d.past = c.past → d.ses = .none → d.tx = c.tx →
      (c.state = .UPSTREAM_CLOSING → d.state = .UPSTREAM_CLOSING) → StepAdds conf e .rest c d := by
    intro d hpast hnone htx hstay
    exact ⟨[], [], addition_none c, .on (grows_same hpast (hnone.trans hses.symm) htx) nofun hstay fun _ => hnone⟩
  have hno : ∀ st : UpstreamState, c.state = .UPSTREAM_CLOSING → st = .UPSTREAM_CLOSING := by
    intro st h
    rw [h1] at h
    cases h
  rcases upstreamConnect_cases e c with ⟨-, hr⟩ | ⟨-, fd, -, hr⟩ | ⟨-, -, hr⟩
  · simp only [hr, Bool.false_eq_true, if_false]
    exact hnew _ rfl hses rfl (hno _)
  · simp only [hr, if_true]
    exact hnew _ rfl rfl rfl (hno _)
  · simp only [hr, Bool.false_eq_true, if_false]
    exact hnew _ rfl rfl rfl (hno _)

/-! ## Every run -/

/-- the record of a client -/
structure Recorded (c : UpstreamClient) : Prop where
  last : ∀ ses ∈ c.past ++ [c.ses], Rules.ClosesLast ses.opcodes
  closing : opClose ∈ c.ses.opcodes → c.state = .UPSTREAM_CLOSING
  fresh : Fresh c
  told : c.Told
  sent : ∀ ses ∈ c.past, ses.out <+: ses.bytes

/-- a session behind a step: one of the past, the present one with the frames that were added, or a new one -/
theorem Adds.sessions {ses : UpSession} (hadds : Adds c fs ms d) (hmem : ses ∈ d.past ++ [d.ses]) :
    ses ∈ c.past ∨ ses.frames = c.ses.frames ++ fs ∨ ses = .none := by
  have hold : ∀ {u : UpstreamClient}, Grows c u fs ms → ses ∈ u.past ++ [u.ses] →
      ses ∈ c.past ∨ ses.frames = c.ses.frames ++ fs := by
    intro u hg hmem
    rcases List.mem_append.1 hmem with hmem | hmem
    · exact .inl (hg.past ▸ hmem)
    · rw [List.mem_singleton.1 hmem]
      exact .inr hg.frames
  cases hadds with
  | on hg => exact (hold hg hmem).imp_right .inl
  | ends e hg =>
    rcases List.mem_append.1 hmem with hmem | hmem
    · exact (hold hg hmem).imp_right .inl
    · exact .inr (.inr (List.mem_singleton.1 hmem))

/-- the frames of the present session behind a step -/
theorem Recorded.closesLast (hc : Recorded c) (ha : Addition conf e h c fs ms) :
    Rules.ClosesLast ((c.ses.frames ++ fs).map Rules.ClientFrame.op) := by
  have hpresent := hc.last c.ses (List.mem_append_right _ (List.mem_singleton_self _))
  unfold UpSession.opcodes at hpresent
  cases fs with
  | nil => rwa [List.append_nil]
  | cons f rest =>
    have hopen := ha.opened (.inl (List.cons_ne_nil f rest))
    have hnone : opClose ∉ c.ses.frames.map Rules.ClientFrame.op := by
      intro hmem
      have := hc.closing hmem
      rw [hopen] at this
      cases this
    obtain rfl : rest = [] := List.length_eq_zero_iff.1 (Nat.le_zero.1 (Nat.le_of_succ_le_succ ha.one))
    rw [List.map_append]
    exact Rules.closesLast_snoc hnone _

theorem StepAdds.recorded (hc : Recorded c) (hstep : StepAdds conf e h c d) : Recorded d := by
  obtain ⟨fs, ms, ha, hadds⟩ := hstep
  have hlast : ∀ ses ∈ d.past ++ [d.ses], Rules.ClosesLast ses.opcodes := by
    intro ses hmem
    unfold UpSession.opcodes
    rcases hadds.sessions hmem with hpast | hframes | rfl
    · exact hc.last ses (List.mem_append_left _ hpast)
    · rw [hframes]
      exact hc.closesLast ha
    · exact Rules.closesLast_of_none nofun
  cases hadds with
  | on hg hclose hstay hdown =>
    refine ⟨hlast, fun hmem => ?_, hdown, hg.told hc.told, fun ses hmem => hc.sent ses (hg.past ▸ hmem)⟩
    unfold UpSession.opcodes at hmem
    rw [hg.frames, List.map_append] at hmem
    rcases List.mem_append.1 hmem with hmem | hmem
    · exact hstay (hc.closing hmem)
    · exact hclose hmem
  | @ends e u hg =>
    refine ⟨hlast, nofun, fun _ => rfl, bufReset_data u.tx, fun ses hmem => ?_⟩
    rcases List.mem_append.1 (show ses ∈ u.past ++ [u.ses] from hmem) with hmem | hmem
    · exact hc.sent ses (hg.past ▸ hmem)
    · rw [List.mem_singleton.1 hmem]
      exact ⟨_, hg.told hc.told⟩

theorem clientStep_adds {cond : Condition} (hs : Steady conf True h c) (hf : Fresh c)
    (hstep : ClientStep conf cond e size c h h' d) : StepAdds conf e h c d := by
  cases hstep with
  | same | report | pick => exact stepAdds_refl hf
  | reconnect now => exact reconnect_adds hf
  | hand => exact handStep_adds hs hf

/-! ## A session that has its CLOSE -/

variable {client : ℕ → UpstreamClient} {count : ℕ} {s t : UpSys}

/-- a client as `upstreamAdd` makes it -/
theorem recorded_added {id port : ℕ} {host path : Bytes} (hadd : upstreamAdd id host port path = some c) : Recorded c := by
  unfold upstreamAdd at hadd
  split_ifs at hadd
  rw [← Option.some.inj hadd]
  refine ⟨fun ses hses => ?_, nofun, fun _ => rfl, rfl, nofun⟩
  rw [List.mem_singleton.1 hses]
  exact Rules.closesLast_of_none nofun

/-- every client has its record in every run of the reactor -/
theorem upReach_recorded (hadd : Added client) (h : Reachable (upStep conf) (UpSys.start client count) s) :
    s.reactor.pc.Tidy ∧ ∀ i, Steady conf True (s.reactor.pc.hand i) (s.reactor.client i) ∧ Recorded (s.reactor.client i) := by
  have htidy : (UpSys.start client count).reactor.pc.Tidy := trivial
  refine upReach_from (P := fun _ h c => Steady conf True h c ∧ Recorded c) htidy (fun i => ?_) ?_ (upReach_any h)
  · obtain ⟨id, host, port, path, hi⟩ := hadd i
    exact ⟨steady_added hi, recorded_added hi⟩
  · rintro i e size h c h' c' ⟨hs, hc⟩ hstep
    exact ⟨clientStep_steady (fun _ _ _ => trivial) hs hstep, (clientStep_adds hs hc.fresh hstep).recorded hc⟩

end WsServer
