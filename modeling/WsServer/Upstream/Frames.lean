/-
The frame loop of the upstream reactor follows the documented rules, those of a client.

`UpAgrees c asm` relates a client to the open message of `Proto/Rules.lean`, as `Agrees` does for a worker's
connection. `UpFollows` says what a pass does where the rules make a move, whatever its system calls return: every
field of the client a pass may change is either one the frame loop owns (`Core`) or is changed by the one
`queueMaskedFrame` the pass makes.
-/
import Mathlib
import WsServer.Upstream.Client
import WsServer.Worker.Refine

namespace WsServer

open Ws

/-! ## One pass -/

/-- the rules an upstream has to follow -/
def upstreamLimits (conf : ServerConfig) : Rules.Limits := ⟨false, conf.maxFrame, conf.maxMessage⟩

/-- only the fields of the frame loop differ -/
def Core (c d : UpstreamClient) : Prop :=
  d = { c with
    rx := d.rx, msg := d.msg, msgOpcode := d.msgOpcode, fragmenting := d.fragmenting, msgUtf8 := d.msgUtf8
    state := d.state }

theorem Core.refl (c : UpstreamClient) : Core c c := rfl

theorem Core.after {a b c : UpstreamClient} (g : Core b c) (h : Core a b) : Core a c := by
  unfold Core at g h ⊢
  rw [h] at g
  exact g

/-- what `queueMaskedFrame` leaves alone -/
structure Queued (c d : UpstreamClient) : Prop where
  rest : d = { c with tx := d.tx, interest := d.interest, ses := d.ses }
  ses : d.ses = { c.ses with frames := d.ses.frames }

theorem queueMaskedFrame_queued (e : UpEnv) (c : UpstreamClient) (op : ℕ) (payload : Bytes) :
    Queued c (queueMaskedFrame e c op payload).2 := by
  unfold queueMaskedFrame
  cases e.mask with
  | none => exact ⟨rfl, rfl⟩
  | some mask =>
    dsimp only
    rcases updateEvents_cases e (c.addFrame op payload mask) with h | h <;> rw [h] <;> exact ⟨rfl, rfl⟩

/-- the client holds the open message of the rules -/
structure UpAgrees (c : UpstreamClient) (asm : Rules.Assembly) : Prop where
  fragmenting : c.fragmenting = asm.isSome
  joined : ∀ op d, asm = some (op, d) →
    c.msgOpcode = op ∧ bufData c.msg = d ∧ (op = opText → wsUtf8Feed wsUtf8Reset d = some c.msgUtf8)

/-- the payload of the CLOSE the client sends at the end of a pass: the peer's own one is sent back -/
def echoOf : Rules.Stop → Bytes
  | .violation code => codeBytes code
  | .closed payload => if payload.length = 1 then codeBytes 1002 else payload

/-- a pass from `c` does what a move says -/
inductive UpFollows (e : UpEnv) (c : UpstreamClient) : UpStep → Rules.Move → Prop where
  | rest : UpFollows e c (.ret true c) .more
  | stop {d : UpstreamClient} {s : Rules.Stop} : Core c d → d.state = .UPSTREAM_CLOSING →
      UpFollows e c (.ret (queueMaskedFrame e d opClose (echoOf s)).1 (queueMaskedFrame e d opClose (echoOf s)).2)
        (.stop s)
  | pong {asm : Rules.Assembly} {p rest : Bytes} {d : UpstreamClient} : UpAgrees c asm →
      (queueMaskedFrame e c opPong p).1 = true →
      d = { (queueMaskedFrame e c opPong p).2 with rx := d.rx } → bufData d.rx = rest →
      UpFollows e c (.next d) (.go asm [.ping p] rest)
  | noPong {asm : Rules.Assembly} {p rest : Bytes} : (queueMaskedFrame e c opPong p).1 = false →
      UpFollows e c (.ret false (queueMaskedFrame e c opPong p).2) (.go asm [.ping p] rest)
  | next {d : UpstreamClient} {asm : Rules.Assembly} {rest : Bytes} : Core c d → d.state = c.state → UpAgrees d asm →
      bufData d.rx = rest → UpFollows e c (.next d) (.go asm [] rest)
  | message {d : UpstreamClient} {op : ℕ} {data rest : Bytes} : Core c d → d.state = c.state → UpAgrees d none →
      bufData d.rx = rest → bufData d.msg = [] → UpFollows e c (.message d op data) (.go none [.message op data] rest)

variable {conf : ServerConfig} {e : UpEnv} {c : UpstreamClient} {asm : Rules.Assembly} {h : WsFrameHdr} {payload : Bytes}

/-- the first client matters only outside the fields of the frame loop -/
theorem UpFollows.of_core {d : UpstreamClient} {st : UpStep} {mv : Rules.Move} (hf : UpFollows e d st mv) (hd : Core c d)
    (hs : d.state = c.state) (hp : ∀ asm p rest, mv ≠ .go asm [.ping p] rest) (hm : mv ≠ .more) :
    UpFollows e c st mv := by
  cases hf with
  | rest => exact absurd rfl hm
  | stop h1 h2 => exact .stop (h1.after hd) h2
  | pong => exact absurd rfl (hp _ _ _)
  | noPong => exact absurd rfl (hp _ _ _)
  | next h1 h2 h3 h4 => exact .next (h1.after hd) (h2.trans hs) h3 h4
  | message h1 h2 h3 h4 h5 => exact .message (h1.after hd) (h2.trans hs) h3 h4 h5

theorem closeAndReturn_follows {d : UpstreamClient} (hd : Core c d) (code : ℕ) :
    UpFollows e c (closeAndReturn e d code) (.stop (.violation code)) :=
  @UpFollows.stop e c { d with state := .UPSTREAM_CLOSING } (.violation code)
    (Core.after (show Core d _ from rfl) hd) rfl

theorem upstreamControl_follows (lim : Rules.Limits) (ha : UpAgrees c asm) (hop : IsOpcode h.opcode)
    (hctl : h.opcode &&& 0x8 ≠ 0) (hok : h.fin = true ∧ h.payloadLen ≤ 125) (hlen : h.payloadLen = payload.length) :
    UpFollows e c (upstreamControl e c h payload)
      ((Rules.judge lim asm h.fin h.opcode payload).move ((bufData c.rx).drop (h.headerLen + h.payloadLen))) := by
  have hnot : ¬ (h.fin = false ∨ 125 < h.payloadLen) := by
    rintro (hf | hl)
    · rw [hok.1] at hf; cases hf
    · omega
  unfold upstreamControl Rules.judge
  rw [if_neg hnot]
  by_cases hping : h.opcode = opPing
  · rw [if_pos hping, if_pos hping]
    cases hq : (queueMaskedFrame e c opPong payload).1 with
    | true =>
      simp only [hq, if_true]
      exact .pong ha hq rfl (by rw [bufConsume_data, (queueMaskedFrame_queued e c opPong payload).rest])
    | false =>
      simp only [hq, Bool.false_eq_true, if_false]
      exact .noPong hq
  rw [if_neg hping, if_neg hping]
  by_cases hclose : h.opcode = opClose
  · rw [if_pos hclose, if_neg (show ¬ h.opcode = opPong by rw [hclose]; decide), if_pos hclose]
    by_cases hone : h.payloadLen = 1
    · rw [if_pos hone]
      have hecho : echoOf (.closed payload) = codeBytes 1002 := by
        rw [echoOf, if_pos (hlen ▸ hone)]
      have hs := @UpFollows.stop e c { c with state := .UPSTREAM_CLOSING } (.closed payload) rfl rfl
      rw [hecho] at hs
      exact hs
    · rw [if_neg hone]
      have hecho : echoOf (.closed payload) = payload := by
        rw [echoOf, if_neg (hlen ▸ hone)]
      have hs := @UpFollows.stop e c
        { c with rx := bufConsume c.rx (h.headerLen + h.payloadLen), state := .UPSTREAM_CLOSING } (.closed payload) rfl rfl
      rw [hecho] at hs
      exact hs
  · have hpong : h.opcode = opPong := by
      rcases hop with h' | h' | h' | h' | h' | h'
      · rw [h'] at hctl; exact absurd rfl hctl
      · rw [h'] at hctl; exact absurd rfl hctl
      · rw [h'] at hctl; exact absurd rfl hctl
      · exact absurd h' hclose
      · exact absurd h' hping
      · exact h'
    rw [if_neg hclose, if_pos hpong]
    exact .next rfl rfl ⟨ha.fragmenting, ha.joined⟩ (bufConsume_data _ _)

variable (e) in
/-- the state after a fragment stands for the bytes joined so far -/
theorem upstreamJoined_follows {op : ℕ} {d rest : Bytes} (fin : Bool) (ha : UpAgrees c (some (op, d)))
    (hrx : bufData c.rx = rest) :
    UpFollows e c (upstreamJoined e c fin)
      ((if ¬ fin then Rules.Judgement.go (some (op, d)) []
        else if op = opText ∧ ¬ Utf8.WellFormed d then .stop (.violation 1007)
        else .go none [.message op d]).move rest) := by
  obtain ⟨hop, hd, hutf⟩ := ha.joined op d rfl
  unfold upstreamJoined
  cases fin with
  | false => exact .next rfl rfl ha hrx
  | true =>
    simp only [not_true, if_false]
    have hdone : (c.msgOpcode = opText ∧ ¬ wsUtf8Done c.msgUtf8 = true) ↔ (op = opText ∧ ¬ Utf8.WellFormed d) := by
      rw [hop]
      refine and_congr_right fun ht => not_congr ?_
      rw [wsUtf8Feed_wellFormed, hutf ht]
      simp
    by_cases hbad : op = opText ∧ ¬ Utf8.WellFormed d
    · rw [if_pos hbad, if_pos (hdone.2 hbad)]
      exact closeAndReturn_follows (by exact rfl) 1007
    · rw [if_neg hbad, if_neg (fun hb => hbad (hdone.1 hb))]
      simp only [hop, hd, Rules.Judgement.move]
      exact .message rfl rfl ⟨rfl, by simp⟩ hrx (bufReset_data _)

theorem feedPayload_eq {op : ℕ} {d : Bytes} (ha : UpAgrees c (some (op, d))) (hlen : h.payloadLen = payload.length) :
    (op = opText → feedPayload c h payload = wsUtf8Feed wsUtf8Reset (d ++ payload)) ∧
      (op ≠ opText → feedPayload c h payload = some c.msgUtf8) := by
  obtain ⟨hop, -, hutf⟩ := ha.joined op d rfl
  unfold feedPayload
  rw [hop]
  constructor
  · intro ht
    rw [wsUtf8Feed_append, hutf ht]
    by_cases hp : 0 < h.payloadLen
    · rw [if_pos ⟨ht, hp⟩]; rfl
    · have hnil : payload = [] := List.eq_nil_of_length_eq_zero (by omega)
      rw [if_neg (fun hh => hp hh.2), hnil]; rfl
  · intro ht
    rw [if_neg (fun hh => ht hh.1)]

/-- a judgement of a data fragment reports no ping -/
theorem judgeFragment_noPing {lim : Rules.Limits} {op : ℕ} {d : Bytes} {fin : Bool} {rest : Bytes}
    (asm' : Rules.Assembly) (p rest' : Bytes) :
    (Rules.judgeFragment lim op d fin payload).move rest ≠ .go asm' [.ping p] rest' := by
  unfold Rules.judgeFragment
  split_ifs <;> simp [Rules.Judgement.move]

theorem judgeFragment_ne_more {lim : Rules.Limits} {op : ℕ} {d : Bytes} {fin : Bool} {rest : Bytes} :
    (Rules.judgeFragment lim op d fin payload).move rest ≠ .more := by
  unfold Rules.judgeFragment
  split_ifs <;> simp [Rules.Judgement.move]

theorem upstreamFragment_follows {op : ℕ} {d : Bytes} (ha : UpAgrees c (some (op, d)))
    (hlen : h.payloadLen = payload.length) :
    UpFollows e c (upstreamFragment conf e c h payload)
      ((Rules.judgeFragment (upstreamLimits conf) op d h.fin payload).move
        ((bufData c.rx).drop (h.headerLen + h.payloadLen))) := by
  obtain ⟨hop, hd, hutf⟩ := ha.joined op d rfl
  obtain ⟨hfeedT, hfeedB⟩ := feedPayload_eq ha hlen
  -- the source tests the two halves apart so that the sum cannot overflow
  have hsize : (conf.maxMessage < bufLen c.msg ∨ conf.maxMessage - bufLen c.msg < h.payloadLen) ↔
      ((upstreamLimits conf).maxMessage < d.length + payload.length) := by
    rw [← length_bufData, hd, hlen]
    simp only [upstreamLimits]
    omega
  unfold upstreamFragment Rules.judgeFragment
  dsimp only
  by_cases hbig : (upstreamLimits conf).maxMessage < d.length + payload.length
  · rw [if_pos hbig, if_pos (hsize.2 hbig)]
    exact closeAndReturn_follows (.refl _) 1009
  rw [if_neg hbig, if_neg (fun hb => hbig (hsize.1 hb))]
  cases hf : feedPayload c h payload with
  | none =>
    have ht : op = opText := by
      by_contra ht
      rw [hfeedB ht] at hf
      cases hf
    have hv : ¬ Utf8.Viable (d ++ payload) := by
      rw [wsUtf8Feed_viable, ← hfeedT ht, hf]; simp
    rw [if_pos ⟨ht, hv⟩]
    exact closeAndReturn_follows (.refl _) 1007
  | some st =>
    have hv : op = opText → Utf8.Viable (d ++ payload) := by
      intro ht
      rw [wsUtf8Feed_viable, ← hfeedT ht, hf]; rfl
    rw [if_neg (fun hh => hh.2 (hv hh.1))]
    have hj : UpAgrees { c with
        msgUtf8 := st
        msg := bufAppend true c.msg payload
        rx := bufConsume c.rx (h.headerLen + h.payloadLen) } (some (op, d ++ payload)) := by
      refine ⟨ha.fragmenting, ?_⟩
      rintro op' d' he
      cases he
      exact ⟨hop, by simp [hd], fun ht => by rw [← hfeedT ht, hf]⟩
    have hfol := upstreamJoined_follows e h.fin hj (bufConsume_data _ _)
    refine hfol.of_core (by exact rfl) rfl ?_ ?_
    · intro asm' p rest
      split_ifs <;> simp [Rules.Judgement.move]
    · split_ifs <;> simp [Rules.Judgement.move]

theorem upstreamData_follows (ha : UpAgrees c asm) (hop : IsOpcode h.opcode) (hdata : h.opcode &&& 0x8 = 0)
    (hlen : h.payloadLen = payload.length) :
    UpFollows e c (upstreamData conf e c h payload)
      ((Rules.judge (upstreamLimits conf) asm h.fin h.opcode payload).move
        ((bufData c.rx).drop (h.headerLen + h.payloadLen))) := by
  have h8 : h.opcode ≠ opPing ∧ h.opcode ≠ opPong ∧ h.opcode ≠ opClose := by
    refine ⟨?_, ?_, ?_⟩ <;> intro he <;> rw [he] at hdata <;> exact absurd hdata (by decide)
  unfold upstreamData Rules.judge Rules.belongsTo
  rw [if_neg h8.1, if_neg h8.2.1, if_neg h8.2.2]
  by_cases hcont : h.opcode = opCont
  · rw [if_pos hcont, if_pos hcont]
    cases asm with
    | none =>
      rw [if_pos (by rw [ha.fragmenting]; simp)]
      exact closeAndReturn_follows (.refl _) 1002
    | some od =>
      rw [if_neg (by rw [ha.fragmenting]; simp)]
      exact upstreamFragment_follows ha hlen
  have htb : h.opcode = opText ∨ h.opcode = opBin := by
    rcases hop with h' | h' | h' | h' | h' | h'
    · exact absurd h' hcont
    · exact Or.inl h'
    · exact Or.inr h'
    · exact absurd h' h8.2.2
    · exact absurd h' h8.1
    · exact absurd h' h8.2.1
  rw [if_neg hcont, if_neg hcont, if_pos htb]
  cases asm with
  | some od =>
    rw [if_pos (by rw [ha.fragmenting]; rfl), if_pos (by rfl)]
    exact closeAndReturn_follows (.refl _) 1002
  | none =>
    rw [if_neg (by rw [ha.fragmenting]; simp), if_neg (by simp)]
    have hj : UpAgrees { c with
        msgOpcode := h.opcode
        fragmenting := true
        msg := bufReset c.msg
        msgUtf8 := wsUtf8Reset } (some (h.opcode, [])) := by
      refine ⟨rfl, ?_⟩
      rintro op' d' he
      cases he
      exact ⟨rfl, by simp, fun _ => rfl⟩
    exact (upstreamFragment_follows hj hlen).of_core (by exact rfl) rfl judgeFragment_noPing judgeFragment_ne_more

/-- **One pass of the loop is one move of the rules.** -/
theorem upstreamFrame_follows (conf : ServerConfig) (e : UpEnv) (ha : UpAgrees c asm) :
    UpFollows e c (upstreamFrame conf e c) (Rules.move (upstreamLimits conf) asm (bufData c.rx)) := by
  unfold upstreamFrame
  by_cases hnil : bufLen c.rx = 0
  · have hd : bufData c.rx = [] := List.eq_nil_of_length_eq_zero (by rw [length_bufData, hnil])
    rw [if_pos hnil, hd]
    exact .rest
  rw [if_neg hnil]
  unfold Rules.move Rules.readFrame
  cases hp : wsParseHeader (bufData c.rx) with
  | needMore => exact .rest
  | errProto => exact closeAndReturn_follows (.refl _) 1002
  | ok h =>
    dsimp only
    have hg := wsParseHeader_good hp
    cases hmask : h.masked with
    | true =>
      rw [if_pos rfl, if_pos (show true ≠ (upstreamLimits conf).masked by simp [upstreamLimits])]
      exact closeAndReturn_follows (.refl _) 1002
    | false =>
      rw [if_neg (by simp), if_neg (show ¬ false ≠ (upstreamLimits conf).masked by simp [upstreamLimits])]
      by_cases hbig : conf.maxFrame < h.payloadLen
      · rw [if_pos hbig, if_pos (show (upstreamLimits conf).maxFrame < h.payloadLen from hbig)]
        exact closeAndReturn_follows (.refl _) 1009
      have hsz : ¬ SIZE_MAX - h.headerLen < h.payloadLen := by
        have h1 := hg.len_lt
        have h2 := hg.le_14
        unfold SIZE_MAX
        omega
      rw [if_neg hbig, if_neg (show ¬ (upstreamLimits conf).maxFrame < h.payloadLen from hbig), if_neg hsz, length_bufData]
      by_cases hshort : bufLen c.rx < h.headerLen + h.payloadLen
      · rw [if_pos hshort, if_pos hshort]
        exact .rest
      rw [if_neg hshort, if_neg hshort]
      have hpay : Rules.payloadOf h (bufData c.rx) = ((bufData c.rx).drop h.headerLen).take h.payloadLen := by
        rw [Rules.payloadOf, if_neg (by rw [hmask]; simp)]
      have hlen : h.payloadLen = (((bufData c.rx).drop h.headerLen).take h.payloadLen).length := by
        rw [List.length_take, List.length_drop, length_bufData]; omega
      rw [hpay]
      dsimp only
      by_cases hctl : h.opcode &&& 0x8 = 0
      · rw [if_neg (fun hh => hh hctl)]
        exact upstreamData_follows ha hg.opcode hctl hlen
      · rw [if_pos hctl]
        exact upstreamControl_follows _ ha hg.opcode hctl (hg.control hctl) hlen

/-! ## The loop is the pass -/

/-- random bytes and `epoll_ctl` are there for every pass, and dataQueue stays below the high watermark -/
structure Smooth (conf : ServerConfig) (env : ℕ → UpEnv × ℕ) : Prop where
  mask : ∀ n, (env n).1.mask.isSome = true
  ctl : ∀ n, (env n).1.ctl = true
  size : ∀ n, (env n).2 < conf.highWatermark

theorem Smooth.tail {env : ℕ → UpEnv × ℕ} (h : Smooth conf env) : Smooth conf fun n => env (n + 1) :=
  ⟨fun n => h.mask (n + 1), fun n => h.ctl (n + 1), fun n => h.size (n + 1)⟩

/-- the frames queued for the upstream so far, opcode and payload -/
def UpstreamClient.answers (c : UpstreamClient) : List (ℕ × Bytes) := c.ses.frames.map fun f => (f.op, f.payload)

/-- the frames a pass is answered with -/
def echoesOf (p : Rules.Pass) : List (ℕ × Bytes) :=
  (Rules.pings p.events).map (fun payload => (opPong, payload)) ++ p.stop.toList.map fun s => (opClose, echoOf s)

theorem queueMaskedFrame_ok (op : ℕ) (payload : Bytes) (hm : e.mask.isSome = true) (hctl : e.ctl = true) (hfd : c.fd ≠ none) :
    (queueMaskedFrame e c op payload).1 = true ∧
      (queueMaskedFrame e c op payload).2.answers = c.answers ++ [(op, payload)] := by
  obtain ⟨mask, hmask⟩ := Option.isSome_iff_exists.1 hm
  unfold queueMaskedFrame
  rw [hmask]
  dsimp only
  rw [updateEvents_ok (show (c.addFrame op payload mask).fd ≠ none from hfd) hctl]
  exact ⟨rfl, by simp [UpstreamClient.answers, UpstreamClient.addFrame]⟩

/-- the loop from `c` ends where the pass ends -/
structure UpLooped (c : UpstreamClient) (p : Rules.Pass) (r : ℤ × UpstreamClient) : Prop where
  rc : r.1 = 0
  fd : r.2.fd = c.fd
  paused : r.2.readPaused = c.readPaused
  published : contents r.2.ses.published = contents c.ses.published ++ Rules.messages p.events
  answers : r.2.answers = c.answers ++ echoesOf p
  going : p.stop = none → r.2.state = c.state ∧ UpAgrees r.2 p.asm ∧ bufData r.2.rx = p.rest
  stopped : p.stop.isSome = true → r.2.state = .UPSTREAM_CLOSING

/-- the rest of the loop, seen from before one more move -/
theorem UpLooped.after {c d : UpstreamClient} {p : Rules.Pass} {r : ℤ × UpstreamClient} {events : List Rules.Event}
    (h : UpLooped d p r) (hfd : d.fd = c.fd) (hpa : d.readPaused = c.readPaused) (hst : d.state = c.state)
    (hpub : contents d.ses.published = contents c.ses.published ++ Rules.messages events)
    (hans : d.answers = c.answers ++ (Rules.pings events).map fun payload => (opPong, payload)) :
    UpLooped c (p.after events) r where
  rc := h.rc
  fd := h.fd.trans hfd
  paused := h.paused.trans hpa
  published := by rw [h.published, hpub, Rules.Pass.after, Rules.messages_append, List.append_assoc]
  answers := by
    rw [h.answers, hans, List.append_assoc]
    simp only [echoesOf, Rules.Pass.after, Rules.pings_append, List.map_append, List.append_assoc]
  going := fun hs => ⟨(h.going hs).1.trans hst, (h.going hs).2⟩
  stopped := h.stopped

variable (conf) in
/-- **The loop is the pass** over what is in rx; the fuel never decides. -/
theorem framesLoop_looped (fuel : ℕ) {env : ℕ → UpEnv × ℕ} (hs : Smooth conf env) (hfd : c.fd ≠ none)
    (ha : UpAgrees c asm) (hfuel : bufLen c.rx < fuel) :
    UpLooped c (Rules.pass (upstreamLimits conf) asm (bufData c.rx)) (framesLoop conf fuel env c) := by
  induction fuel generalizing env c asm with
  | zero => omega
  | succ fuel ih =>
    have hf := upstreamFrame_follows conf (env 0).1 ha
    unfold framesLoop
    cases hm : Rules.move (upstreamLimits conf) asm (bufData c.rx) with
    | more =>
      rw [hm] at hf
      rw [Rules.pass_more hm]
      generalize upstreamFrame conf (env 0).1 c = st at hf
      cases hf with
      | rest =>
        exact ⟨rfl, rfl, rfl, by simp [Rules.messages], by simp [echoesOf, Rules.pings], fun _ => ⟨rfl, ha, rfl⟩, by simp⟩
    | stop s =>
      rw [hm] at hf
      rw [Rules.pass_stop hm]
      generalize upstreamFrame conf (env 0).1 c = st at hf
      cases hf with
      | @stop d _ hd hst =>
        have hdfd : d.fd = c.fd := by rw [hd]
        have hdses : d.ses = c.ses := by rw [hd]
        obtain ⟨h1, h2⟩ := queueMaskedFrame_ok opClose (echoOf s) (hs.mask 0) (hs.ctl 0) (hdfd ▸ hfd)
        have hq := queueMaskedFrame_queued (env 0).1 d opClose (echoOf s)
        generalize hr : queueMaskedFrame (env 0).1 d opClose (echoOf s) = r at h1 h2 hq
        refine ⟨by simp [h1], ?_, ?_, ?_, ?_, by simp, fun _ => ?_⟩
        · show r.2.fd = c.fd
          rw [hq.rest, hdfd]
        · show r.2.readPaused = c.readPaused
          rw [hq.rest, hd]
        · show contents r.2.ses.published = _
          rw [hq.ses, hdses]
          simp [Rules.messages]
        · show r.2.answers = _
          rw [h2, UpstreamClient.answers, hdses]
          simp [echoesOf, Rules.pings, UpstreamClient.answers]
        · show r.2.state = _
          rw [hq.rest]
          exact hst
    | go asm' events rest =>
      have hlt := Rules.move_go_length hm
      rw [length_bufData] at hlt
      rw [hm] at hf
      rw [Rules.pass_go hm]
      generalize upstreamFrame conf (env 0).1 c = st at hf
      cases hf with
      | @pong _ p _ d hag hok hd hrx =>
        obtain ⟨-, h2⟩ := queueMaskedFrame_ok opPong p (hs.mask 0) (hs.ctl 0) hfd
        have hq := queueMaskedFrame_queued (env 0).1 c opPong p
        have hfd' : d.fd = c.fd := by rw [hd, hq.rest]
        have hag' : UpAgrees d asm' := by
          rw [hd, hq.rest]
          exact ⟨hag.fragmenting, hag.joined⟩
        have hans : d.answers = c.answers ++ [(opPong, p)] := by
          rw [← h2, hd]; rfl
        have hr := ih hs.tail (hfd' ▸ hfd) hag' (by rw [← length_bufData, hrx]; omega)
        rw [hrx] at hr
        refine hr.after hfd' (by rw [hd, hq.rest]) (by rw [hd, hq.rest]) ?_ hans
        rw [hd]
        show contents (queueMaskedFrame (env 0).1 c opPong p).2.ses.published = _
        rw [hq.ses]
        simp [Rules.messages]
      | noPong hno =>
        rw [(queueMaskedFrame_ok _ _ (hs.mask 0) (hs.ctl 0) hfd).1] at hno
        cases hno
      | @next d _ _ hd hst hag hrx =>
        have hfd' : d.fd = c.fd := by rw [hd]
        have hses : d.ses = c.ses := by rw [hd]
        have hr := ih hs.tail (hfd' ▸ hfd) hag (by rw [← length_bufData, hrx]; omega)
        rw [hrx] at hr
        refine hr.after hfd' (by rw [hd]) hst (by rw [hses]; simp [Rules.messages]) ?_
        rw [UpstreamClient.answers, hses]
        simp [Rules.pings, UpstreamClient.answers]
      | @message d op data _ hd hst hag hrx _ =>
        have hfd' : d.fd = c.fd := by rw [hd]
        have hses : d.ses = c.ses := by rw [hd]
        have hlow : ¬ conf.highWatermark ≤ (env 0).2 := not_le.2 (hs.size 0)
        dsimp only
        unfold publishReactorMessage
        rw [if_neg hlow]
        dsimp only
        rw [if_pos rfl]
        have hr := @ih (d.record (msgNewData d.id op (env 0).1.ts data)) none _ hs.tail (hfd' ▸ hfd)
          ⟨hag.fragmenting, hag.joined⟩ (by show bufLen d.rx < fuel; rw [← length_bufData, hrx]; omega)
        rw [show bufData (d.record (msgNewData d.id op (env 0).1.ts data)).rx = rest from hrx] at hr
        refine hr.after hfd' (by show d.readPaused = _; rw [hd]) hst ?_ ?_
        · show contents (d.ses.published ++ [msgNewData d.id op (env 0).1.ts data]) = _
          rw [contents_append, hses]
          rfl
        · show d.answers = _
          rw [UpstreamClient.answers, hses]
          simp [Rules.pings, UpstreamClient.answers]

end WsServer
