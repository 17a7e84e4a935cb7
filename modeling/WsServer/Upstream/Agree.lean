/-
Both receive loops read one sequence of frames in the same way: `handleWsOpen` its masked encoding, the upstream
reactor its unmasked one.

Each loop is compared with the rules (`wsOpenRuns_refines`, `readMore_looped`); the passes over the two encodings go
through the same frames (`Rules.pass_encoded`). What differs is the answer to a CLOSE, and what a worker does before it
reads a frame at all: `bufRecv` limits what may wait in rx, and the reactor has no such limit.
-/
import Mathlib
import WsServer.Proto.Forms
import WsServer.Upstream.Frames
import WsServer.Worker.Runs

namespace WsServer

open Ws

/-! ## Reading piece by piece -/

/-- an open client that has read nothing yet -/
structure FreshUpstream (c : UpstreamClient) : Prop where
  state : c.state = .UPSTREAM_OPEN
  fd : c.fd ≠ none
  paused : c.readPaused = false
  fragmenting : c.fragmenting = false
  rx : bufData c.rx = []
  frames : c.ses.frames = []
  published : c.ses.published = []

/-- one more `recv` of `readUpstreamFrames`, in the same event or in a later one -/
def readMore (conf : ServerConfig) (u : ℤ × UpstreamClient) (x : Bytes × (ℕ → UpEnv × ℕ)) : ℤ × UpstreamClient :=
  if u.1 = 0 ∧ u.2.readPaused = false ∧ u.2.state = .UPSTREAM_OPEN then
    processBufferedFrames conf x.2 (u.2.receive x.1)
  else u

variable {conf : ServerConfig} {c : UpstreamClient}

theorem receive_looped {bs x : Bytes} {u : ℤ × UpstreamClient} {env : ℕ → UpEnv × ℕ} (hs : Smooth conf env)
    (hfd : c.fd ≠ none) (hpa : c.readPaused = false) (hst : c.state = .UPSTREAM_OPEN)
    (hu : UpLooped c (Rules.pass (upstreamLimits conf) none bs) u) :
    UpLooped c (Rules.pass (upstreamLimits conf) none (bs ++ x)) (readMore conf u (x, env)) := by
  unfold readMore
  rw [Rules.pass_append, Rules.Pass.goOn]
  by_cases hstop : (Rules.pass (upstreamLimits conf) none bs).stop.isSome = true
  · have hclosing := hu.stopped hstop
    rw [if_pos hstop, if_neg (fun h => by rw [hclosing] at h; exact absurd h.2.2 (by simp))]
    exact ⟨hu.rc, hu.fd, hu.paused, hu.published, hu.answers, fun h => absurd hstop (Option.not_isSome_iff_eq_none.2 h),
      hu.stopped⟩
  · have hnone : (Rules.pass (upstreamLimits conf) none bs).stop = none := by
      rwa [Option.not_isSome_iff_eq_none] at hstop
    obtain ⟨hst', hag, hrx⟩ := hu.going hnone
    have hrx' : bufData (u.2.receive x).rx =
        (Rules.pass (upstreamLimits conf) none bs).rest ++ x := by
      simp [UpstreamClient.receive, hrx]
    rw [if_neg hstop, if_pos ⟨hu.rc, hu.paused.trans hpa, hst'.trans hst⟩]
    have hl := framesLoop_looped conf (bufLen (u.2.receive x).rx + 1) hs
      (show (u.2.receive x).fd ≠ none from hu.fd ▸ hfd)
      (show UpAgrees (u.2.receive x) _ from ⟨hag.fragmenting, hag.joined⟩) (Nat.lt_succ_self _)
    rw [hrx'] at hl
    refine hl.after hu.fd hu.paused hst' hu.published ?_
    show u.2.answers = _
    rw [hu.answers, echoesOf, hnone]
    simp

/-- **The reactor's reads refine one pass over the stream**, however it is cut. -/
theorem readMore_looped {xs : List (Bytes × (ℕ → UpEnv × ℕ))} (hc : FreshUpstream c)
    (hs : ∀ x ∈ xs, Smooth conf x.2) :
    UpLooped c (Rules.pass (upstreamLimits conf) none (xs.flatMap Prod.fst)) (xs.foldl (readMore conf) (0, c)) := by
  induction xs using List.reverseRecOn with
  | nil =>
    have hm : Rules.move (upstreamLimits conf) none [] = .more := rfl
    rw [List.flatMap_nil, Rules.pass_more hm]
    exact ⟨rfl, rfl, rfl, by simp [Rules.messages], by simp [echoesOf, Rules.pings],
      fun _ => ⟨rfl, ⟨hc.fragmenting, by simp⟩, hc.rx⟩, by simp⟩
  | append_singleton xs x ih =>
    have h := ih fun y hy => hs y (List.mem_append_left _ hy)
    rw [List.foldl_append, List.flatMap_append, List.flatMap_singleton]
    exact receive_looped (hs x (List.mem_append_right _ (List.mem_singleton_self x))) hc.fd hc.paused hc.state h

/-! ## The comparison -/

/-- a sequence of frames and the keys a masking sender takes -/
abbrev Sequence := List (Rules.AnyFrame × Random 4)

def Sequence.masked (fs : Sequence) : Bytes := fs.flatMap fun f => f.1.masked f.2.1

def Sequence.plain (fs : Sequence) : Bytes := fs.flatMap fun f => f.1.plain

/-- the passes over the two encodings -/
theorem pass_masked_plain (conf : ServerConfig) (fs : Sequence) :
    (Rules.pass (workerLimits conf) none fs.masked).events = (Rules.pass (upstreamLimits conf) none fs.plain).events ∧
      (Rules.pass (workerLimits conf) none fs.masked).stop = (Rules.pass (upstreamLimits conf) none fs.plain).stop := by
  obtain ⟨w1, w2, -⟩ := Rules.pass_encoded (workerLimits conf) (fun f : Rules.AnyFrame × Random 4 => f.1.masked f.2.1)
    Prod.fst (fun f t => Rules.readFrame_masked rfl f.1 f.2.2 t) fs none
  obtain ⟨u1, u2, -⟩ := Rules.pass_encoded (upstreamLimits conf) (fun f : Rules.AnyFrame × Random 4 => f.1.plain)
    Prod.fst (fun f t => Rules.readFrame_plain rfl f.1 t) fs none
  have hg := Rules.goThrough_masked true false conf.maxFrame conf.maxMessage none (fs.map Prod.fst)
  exact ⟨w1.trans ((congrArg Prod.fst hg).trans u1.symm), w2.trans ((congrArg (·.2.1) hg).trans u2.symm)⟩

/-- without a CLOSE in the sequence the pass does not end in one -/
theorem pass_plain_noClose {fs : Sequence} (h : ∀ f ∈ fs, f.1.op.1 ≠ opClose) (payload : Bytes) :
    (Rules.pass (upstreamLimits conf) none fs.plain).stop ≠ some (.closed payload) := by
  obtain ⟨-, u2, -⟩ := Rules.pass_encoded (upstreamLimits conf) (fun f : Rules.AnyFrame × Random 4 => f.1.plain)
    Prod.fst (fun f t => Rules.readFrame_plain rfl f.1 t) fs none
  intro he
  refine Rules.goThrough_noClose (upstreamLimits conf) none (fs.map Prod.fst) ?_ payload ?_
  · intro f hf
    obtain ⟨g, hg, rfl⟩ := List.mem_map.1 hf
    exact h g hg
  · rw [← u2]
    exact he

theorem echoesOf_pongs (p : Rules.Pass) :
    (echoesOf p).filter (·.1 = opPong) = (Rules.pings p.events).map fun payload => (opPong, payload) := by
  cases hs : p.stop <;> simp [echoesOf, hs, List.filter_map, Function.comp_def]

theorem answersOf_pongs (p : Rules.Pass) :
    (answersOf p).filter (·.1 = opPong) = (Rules.pings p.events).map fun payload => (opPong, payload) := by
  cases hs : p.stop <;> simp [answersOf, hs, List.filter_map, Function.comp_def]

/-- **The receive loops agree.** A sequence of frames with any headers reaches a worker masked and the reactor
unmasked, each cut into reads at will, with dataQueue below the high watermark. As long as the worker's reads stay
within the limit of its read buffer, both publish the same messages and answer the same PINGs with the same PONGs;
without a CLOSE in the sequence both stop, with the same code, or neither does. Read for every prefix of a sequence,
this is also the same frame. -/
theorem receive_loops_agree (conf : ServerConfig) (fs : Sequence) (c : Conn) (hc : FreshOpen c) (hrx : bufData c.rx = [])
    (e : ReadEvent) (es : List ReadEvent) (hbytes : (e :: es).flatMap ReadEvent.bytes = fs.masked)
    (hd : Delivers (e :: es)) (hq : ∀ x ∈ e :: es, ∀ mk ∈ x.wake.marks, mk.2 < conf.highWatermark)
    (hfit : ReadsFit conf (Session.start c) (e :: es)) (u : UpstreamClient) (hu : FreshUpstream u)
    (xs : List (Bytes × (ℕ → UpEnv × ℕ))) (hxs : xs.flatMap Prod.fst = fs.plain) (hs : ∀ x ∈ xs, Smooth conf x.2) :
    let s := wsOpenRuns conf (Session.start c) (e :: es)
    let v := (xs.foldl (readMore conf) (0, u)).2
    contents s.published = contents v.ses.published ∧
      s.answers.filter (·.1 = opPong) = v.answers.filter (·.1 = opPong) ∧
      ((∀ f ∈ fs, f.1.op.1 ≠ opClose) →
        s.answers = v.answers ∧ (s.conn.closeAfterSend = true ↔ v.state = .UPSTREAM_CLOSING)) := by
  obtain ⟨hat, hw⟩ := wsOpenRuns_stands hc hd hfit hq
  have hl := readMore_looped hu hs
  obtain ⟨hev, hstop⟩ := pass_masked_plain conf fs
  rw [hrx, List.nil_append, hbytes] at hat
  rw [hxs] at hl
  obtain ⟨hpub, htx⟩ := hat.complete hw
  have hans := Session.answers_eq htx (answersOf_sendOk _ _ _)
  have hans' : (xs.foldl (readMore conf) (0, u)).2.answers = echoesOf (Rules.pass (upstreamLimits conf) none fs.plain) := by
    rw [hl.answers, UpstreamClient.answers, hu.frames]
    rfl
  refine ⟨?_, ?_, fun hno => ⟨?_, ?_⟩⟩
  · rw [hpub, hl.published, hu.published, hev]
    rfl
  · rw [hans, hans', echoesOf_pongs, answersOf_pongs, hev]
  · rw [hans, hans', answersOf, echoesOf, hev, hstop]
    cases hst : (Rules.pass (upstreamLimits conf) none fs.plain).stop with
    | none => rfl
    | some st =>
      cases st with
      | violation code => rfl
      | closed payload => exact absurd hst (pass_plain_noClose hno payload)
  · cases hat with
    | answered st hst _ hmark _ _ =>
      rw [hstop] at hst
      simp only [hmark, true_iff]
      exact hl.stopped (by rw [hst]; rfl)
    | going events asm hpass hag _ _ _ _ hidle =>
      have hnone : (Rules.pass (workerLimits conf) none fs.masked).stop = none := by
        rw [hpass, hidle hw]; rfl
      rw [hstop] at hnone
      simp only [hag.opened, (hl.going hnone).1, hu.state]
      simp

/-- a ping and a text in two fragments, cut for both sides -/
def mixedFrames : Sequence :=
  [(.short true 9 .seven [0x21], Rules.maskKey 1 2 3 4), (.short false 1 .seven [0x68], Rules.maskKey 5 6 7 8),
    (.short true 0 .two [0x69], Rules.maskKey 9 9 9 9)]

/-- a read buffer of one chunk: `--max-frame 16 --max-message 4080` -/
def tightConf : ServerConfig :=
  { smallConf with
    maxMessage := 4080
    maxMessage_pos := Nat.lt_of_lt_of_le smallConf.maxFrame_pos (by decide)
    maxMessage_lt := Nat.lt_of_le_of_lt (by decide) smallConf.maxMessage_lt }

/-- a frame of sixteen bytes; masked it takes 22 -/
def sixteen : Rules.AnyFrame := .short true 2 .seven (List.replicate 16 0)

/-- more of them than the read buffer may hold -/
def manyFrames : Sequence := List.replicate 187 (sixteen, Rules.maskKey 1 2 3 4)

theorem smooth_calmUp (conf : ServerConfig) : Smooth conf fun _ => (calmUp, 0) :=
  ⟨fun _ => rfl, fun _ => rfl, fun _ => Nat.lt_of_le_of_lt (Nat.zero_le _) conf.low_lt_high⟩

/-- the comparison on a sequence that ends in a length that is not in its shortest form -/
theorem receive_loops_agree_mixed :
    let s := wsOpenRuns smallConf (Session.start (freshConn 7))
      [⟨(Sequence.masked mixedFrames).take 9, .open, ⟨[], [], []⟩⟩, ⟨(Sequence.masked mixedFrames).drop 9, .open, ⟨[], [], []⟩⟩]
    let v := ([((Sequence.plain mixedFrames), fun _ => (calmUp, 0))].foldl (readMore smallConf) (0, openClient 9)).2
    contents s.published = contents v.ses.published ∧
      s.answers.filter (·.1 = opPong) = v.answers.filter (·.1 = opPong) ∧
      ((∀ f ∈ mixedFrames, f.1.op.1 ≠ opClose) →
        s.answers = v.answers ∧ (s.conn.closeAfterSend = true ↔ v.state = .UPSTREAM_CLOSING)) :=
  receive_loops_agree smallConf mixedFrames (freshConn 7) ⟨rfl, rfl, rfl, rfl⟩ rfl _ _ (by decide)
    (by unfold Delivers; decide) (by decide) (by decide +kernel) (openClient 9) ⟨rfl, by decide, rfl, rfl, rfl, rfl, rfl⟩ _
    (by decide) (by intro x hx; rw [List.mem_singleton.1 hx]; exact smooth_calmUp _)

/-- a frame that is a message by itself, any number of times -/
theorem goThrough_replicate {lim : Rules.Limits} {f : Rules.AnyFrame} {fin : Bool} {op : ℕ} {payload rest : Bytes}
    {event : Rules.Event} (hv : f.verdict lim.maxFrame [] = .frame fin op payload rest)
    (hj : Rules.judge lim none fin op payload = .go none [event]) (n : ℕ) :
    (Rules.goThrough lim none (List.replicate n f)).1 = List.replicate n event := by
  induction n with
  | zero => rfl
  | succ n ih =>
    rw [List.replicate_succ, List.replicate_succ, Rules.goThrough, hv]
    dsimp only
    rw [hj]
    exact congrArg (event :: ·) ih

theorem messages_replicate (op : ℕ) (data : Bytes) (n : ℕ) :
    Rules.messages (List.replicate n (.message op data)) = List.replicate n (op, data) := by
  induction n with
  | zero => rfl
  | succ n ih =>
    rw [List.replicate_succ, List.replicate_succ, ← ih]
    rfl

theorem length_manyFrames : (Sequence.masked manyFrames).length = 4114 := by
  unfold Sequence.masked manyFrames
  rw [List.length_flatMap, List.map_replicate, List.sum_replicate]
  rfl

/-- beyond the limit of the read buffer they do not: of 187 legal frames read at once, more than the buffer may hold, the
worker publishes none -/
theorem read_limit_differs : ∃ (fs : Sequence) (es : List ReadEvent) (xs : List (Bytes × (ℕ → UpEnv × ℕ))),
    FreshOpen (freshConn 7) ∧ es.flatMap ReadEvent.bytes = fs.masked ∧ Delivers es ∧ FreshUpstream (openClient 9) ∧
      xs.flatMap Prod.fst = fs.plain ∧ (∀ x ∈ xs, Smooth tightConf x.2) ∧
      tightConf.maxMessage + tightConf.maxFrame = 4096 ∧ 4096 < fs.masked.length ∧
      contents (wsOpenRuns tightConf (Session.start (freshConn 7)) es).published = [] ∧
      contents (xs.foldl (readMore tightConf) (0, openClient 9)).2.ses.published =
        List.replicate 187 (opBin, List.replicate 16 0) := by
  have hfresh : FreshUpstream (openClient 9) := ⟨rfl, by decide, rfl, rfl, rfl, rfl, rfl⟩
  have hsmooth : ∀ x ∈ [(Sequence.plain manyFrames, fun _ => (calmUp, 0))], Smooth tightConf x.2 := by
    intro x hx
    rw [List.mem_singleton.1 hx]
    exact smooth_calmUp _
  refine ⟨manyFrames, [⟨Sequence.masked manyFrames, .open, ⟨[], [], []⟩⟩], [(Sequence.plain manyFrames, fun _ => (calmUp, 0))],
    ⟨rfl, rfl, rfl, rfl⟩, List.flatMap_singleton .., ?_, hfresh, List.flatMap_singleton .., hsmooth, rfl,
    by rw [length_manyFrames]; decide, ?_, ?_⟩
  · intro e he
    simp at he
  · -- nothing is parsed
    have hfit : ¬ Fits tightConf (Session.start (freshConn 7)) ⟨Sequence.masked manyFrames, .open, ⟨[], [], []⟩⟩ := by
      unfold Fits
      dsimp only
      rw [length_manyFrames]
      decide
    rw [wsOpenRuns, List.foldl_cons, List.foldl_nil, wsOpenEvent_over rfl hfit]
    rfl
  · have hl := readMore_looped hfresh hsmooth
    rw [List.flatMap_singleton] at hl
    obtain ⟨hevents, -, -⟩ := Rules.pass_encoded (upstreamLimits tightConf)
      (fun f : Rules.AnyFrame × Random 4 => f.1.plain) Prod.fst (fun f t => Rules.readFrame_plain rfl f.1 t) manyFrames none
    have hverdict : sixteen.verdict (upstreamLimits tightConf).maxFrame [] = .frame true opBin (List.replicate 16 0) [] := rfl
    have hjudge : Rules.judge (upstreamLimits tightConf) none true opBin (List.replicate 16 0) =
        .go none [.message opBin (List.replicate 16 0)] := rfl
    have hall := goThrough_replicate hverdict hjudge 187
    rw [manyFrames, List.map_replicate, hall] at hevents
    rw [hl.published]
    dsimp only
    unfold Sequence.plain manyFrames
    rw [hevents, messages_replicate, hfresh.published]
    exact List.nil_append _

end WsServer
