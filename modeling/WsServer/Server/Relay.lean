/-
The whole way of a message: what the peers of the sources send, and what the clients behind the sinks read.

`Server/Merge.lean` follows the messages from the sources to the frames made for the sinks, `Agg/Reads.lean` the frames to
the reader of a stream. Between them stands that every message of a source is one the reader can take: a source completes
only BIN messages and TEXT that is UTF-8, within the limit of the configuration.

- `Rules.pass_sound`: what a pass reports.
- `node_sound`: what the aggregator takes.
- `sink_reads_sources`: a sink reads messages of the sources, of each of them some in the order in which it sent them, and
  nothing else.
-/
import Mathlib
import WsServer.Agg.Reads
import WsServer.Server.Merge

namespace WsServer

open Ws Machine Packets

/-! ## What a pass reports -/

namespace Rules

/-- a message as the rules let it through -/
def Sound (lim : Limits) (x : ℕ × Bytes) : Prop :=
  (x.1 = opBin ∨ x.1 = opText ∧ Utf8.WellFormed x.2) ∧ x.2.length ≤ lim.maxMessage

/-- an open message is TEXT or BIN -/
def Opened (asm : Assembly) : Prop := ∀ x, asm = some x → x.1 = opText ∨ x.1 = opBin

variable {lim : Limits} {asm asm' : Assembly} {bs rest : Bytes} {events : List Event}

theorem judgeFragment_sound {op : ℕ} {sofar payload : Bytes} {fin : Bool} (hop : op = opText ∨ op = opBin)
    (h : judgeFragment lim op sofar fin payload = .go asm' events) :
    Opened asm' ∧ ∀ x ∈ messages events, Sound lim x := by
  unfold judgeFragment at h
  split_ifs at h with hbig hview hfin hwf
  · obtain ⟨rfl, rfl⟩ := Judgement.go.inj h
    refine ⟨by rintro x ⟨⟩, fun x hx => ?_⟩
    obtain rfl : x = (op, sofar ++ payload) := List.mem_singleton.1 hx
    refine ⟨?_, show (sofar ++ payload).length ≤ _ by rw [List.length_append]; omega⟩
    rcases hop with rfl | rfl
    · exact .inr ⟨rfl, not_not.1 fun hbad => hwf ⟨rfl, hbad⟩⟩
    · exact .inl rfl
  · obtain ⟨rfl, rfl⟩ := Judgement.go.inj h
    refine ⟨fun x hx => ?_, by rintro x ⟨⟩⟩
    obtain rfl := Option.some.inj hx
    exact hop

/-- one frame: the open message stays TEXT or BIN, and what is reported is sound -/
theorem move_sound (hasm : Opened asm) (h : move lim asm bs = .go asm' events rest) :
    Opened asm' ∧ ∀ x ∈ messages events, Sound lim x := by
  unfold move at h
  cases hr : readFrame lim bs with
  | more => rw [hr] at h; cases h
  | bad code => rw [hr] at h; cases h
  | frame fin op payload rest' =>
    obtain ⟨-, -, -, -, hop⟩ := readFrame_rest hr
    rw [hr] at h
    dsimp only at h
    cases hj : judge lim asm fin op payload with
    | stop s => rw [hj] at h; cases h
    | go asm'' ev =>
      rw [hj] at h
      obtain ⟨rfl, rfl, -⟩ := Move.go.inj h
      unfold judge at hj
      split_ifs at hj with hping hpong hclose
      · obtain ⟨rfl, rfl⟩ := Judgement.go.inj hj
        exact ⟨hasm, by rintro x ⟨⟩⟩
      · obtain ⟨rfl, rfl⟩ := Judgement.go.inj hj
        exact ⟨hasm, by rintro x ⟨⟩⟩
      · cases hb : belongsTo asm op with
        | none => rw [hb] at hj; cases hj
        | some y =>
          rw [hb] at hj
          refine judgeFragment_sound ?_ hj
          unfold belongsTo at hb
          split_ifs at hb with hcont hsome
          · exact hasm y hb
          · -- a frame that opens a message is a data frame
            obtain rfl := Option.some.inj hb
            rcases hop with h' | h' | h' | h' | h' | h'
            · exact absurd h' hcont
            · exact .inl h'
            · exact .inr h'
            · exact absurd h' hclose
            · exact absurd h' hping
            · exact absurd h' hpong

/-- **What a pass reports** is BIN, or TEXT that is UTF-8, within the limit. -/
theorem pass_sound (hasm : Opened asm) : ∀ x ∈ messages (pass lim asm bs).events, Sound lim x := by
  induction hn : bs.length using Nat.strong_induction_on generalizing asm bs with
  | _ n ih =>
    cases hm : move lim asm bs with
    | more => rw [pass_more hm]; rintro x ⟨⟩
    | stop s => rw [pass_stop hm]; rintro x ⟨⟩
    | go asm' events rest =>
      obtain ⟨hasm', hall⟩ := move_sound hasm hm
      rw [pass_go hm, Pass.after]
      intro x hx
      rw [messages_append, List.mem_append] at hx
      rcases hx with hx | hx
      · exact hall x hx
      · exact ih rest.length (hn ▸ move_go_length hm) hasm' rfl x hx

end Rules

/-! ## What the aggregator takes -/

variable {conf : ServerConfig} {W : ℕ} {us : List UpstreamConfig} {ls : List NodeAct} {n m : Node} {a : NodeAct} {k : ℕ}

/-- a message of a source, as the rules of the server let it through -/
def Msg.Sound (conf : ServerConfig) (x : Msg) : Prop := Rules.Sound (workerLimits conf) (x.opcode, x.data)

/-- the numbers of a message are within the types of the source -/
structure Msg.InRange (x : Msg) : Prop where
  srcId : x.srcId < 2 ^ 64
  sec : x.ts.sec < 2 ^ 63
  nsec : x.ts.nsec < 10 ^ 9

theorem mem_contents {xs : List Msg} {x : Msg} (hx : x ∈ xs) : (x.opcode, x.data) ∈ contents xs := by
  exact List.mem_map.2 ⟨x, hx, rfl⟩

/-- what the aggregator takes was let through by the rules, in every run that throws away no client with a message -/
theorem node_sound (h : exec (nodeStep conf W) (.started us) ls = some n)
    (hr : Reach (nodeStep conf W) IdsLeft (.started us) n)
    (hspare : Reach (nodeStep conf W) (NodeMeets (Spares conf)) (.started us) n) : ∀ x ∈ n.srv.sys.popped, x.Sound conf := by
  intro x hx
  obtain ⟨b, hb, hsrc⟩ := popped_has hr hx
  have hmem : x ∈ n.taken b := List.mem_filter.2 ⟨hx, decide_eq_true hsrc⟩
  cases b with
  | conn c =>
    rcases taken_heard h hr hb with hnone | ⟨r, body, -, hpre⟩
    · rw [hnone] at hmem
      cases hmem
    · exact Rules.pass_sound (by rintro y ⟨⟩) _ (hpre.subset (mem_contents hmem))
  | upstream i =>
    have hlog := (contents_before (taken_upstream hr hb)).trans (log_sessions hspare i)
    obtain ⟨ses, -, hses⟩ := List.mem_flatMap.1 (hlog.subset (mem_contents hmem))
    have hsound : Rules.Sound (upstreamLimits conf) (x.opcode, x.data) := Rules.pass_sound (by rintro y ⟨⟩) _ hses
    exact hsound

/-- a reader with room for the largest message has room for its envelope -/
theorem Msg.Sound.readable {lim : Rules.Limits} {x : Msg} (h : x.Sound conf) (hx : x.InRange)
    (hframe : conf.maxMessage * 6 + 128 ≤ lim.maxFrame) (hmessage : conf.maxMessage * 6 + 128 ≤ lim.maxMessage)
    (halloc : conf.maxMessage * 6 + 128 < 2 ^ 63) : Readable lim x := by
  have hlen : x.data.length ≤ conf.maxMessage := h.2
  exact ⟨h.1, hx.srcId, hx.sec, hx.nsec, by omega, by omega, by omega⟩

/-! ## What a sink reads -/

/-- the aggregator of a run that starts no frame inside another one -/
theorem nodeReach_wire (h : Reach (nodeStep conf W) Node.Apart (.started us) n) :
    Reach (aggSysStep conf) WireOk (Node.started us).agg n.agg := by
  induction h with
  | start => exact .start
  | @step u v a _ hok hstep ih =>
    rcases nodeStep_cases hstep with ⟨b, s, rfl, -, hs, rfl⟩ | ⟨e, r, rfl, -, rfl⟩
    · by_cases hb : ∃ e, b = .agg e
      · obtain ⟨e, rfl⟩ := hb
        obtain ⟨x, hx, rfl⟩ := Option.map_eq_some_iff.1 hs
        exact .step (.agg e) ih hok.2 hx
      · have hothers := srvStep_others hs fun e he => hb ⟨e, he⟩
        exact .step (.others s.sys.conn s.sys.dataQueue s.sys.ctrlQueue s.sys.park) ih trivial
          (congrArg some hothers.symm)
    · exact .step (.others u.srv.sys.conn r.1 u.srv.sys.ctrlQueue u.srv.sys.park) ih trivial rfl

/-- what the sink of stream `k` was sent of source `b` -/
def Node.relayedOf (n : Node) (k : ℕ) (b : Source) : List Msg := ((n.agg.delivered k).map Prod.snd).filter (·.srcId = b.number)

theorem relayed_sublist (h : Reach (nodeStep conf W) IdsLeft (.started us) n) (k : ℕ) :
    ((n.agg.delivered k).map Prod.snd).Sublist n.srv.sys.popped := by
  have hsub := (inFull_sublist (numberedFrom [] (n.agg.encoded.map Prod.fst)) n.agg.fates k).map Prod.snd
  rw [numberedFrom_snd] at hsub
  exact (node_merged h).encoded ▸ hsub

/-- **A sink reads its sources.** In every run of the program before the shutdown in which no connection is accepted under
a number of an upstream, no client is thrown away with a complete message, and no frame for a sink is started inside
another one: a client with room for the messages, reading the bytes of any one stream by one pass, is told the messages
delivered on that stream, in their order, and nothing else, and the pass waits for more or ends with a CLOSE of the server.
Each of these messages comes from a source; those of a connection are some of the messages of one pass over the bytes its
peer sent, in that order, and those of an upstream client some of the messages of the passes over its sessions. -/
theorem sink_reads_sources (conf : ServerConfig) (W : ℕ) (us : List UpstreamConfig) (ls : List NodeAct) (n : Node)
    (h : exec (nodeStep conf W) (.started us) ls = some n) (hok : allOk (nodeStep conf W) Node.Apart (.started us) ls)
    (hspare : allOk (nodeStep conf W) (NodeMeets (Spares conf)) (.started us) ls) (lim : Rules.Limits)
    (hlim : lim.masked = false) (hframe : conf.maxMessage * 6 + 128 ≤ lim.maxFrame)
    (hmessage : conf.maxMessage * 6 + 128 ≤ lim.maxMessage) (halloc : conf.maxMessage * 6 + 128 < 2 ^ 63)
    (hrange : ∀ x ∈ n.srv.sys.popped, x.InRange) (hcount : n.srv.sys.popped.length < 2 ^ 64) (k : ℕ) (w : Log UInt8)
    (hw : n.agg.logs[k]? = some w) :
    let told := Rules.pass lim none (w.map Prod.snd)
    told.events = (n.agg.delivered k).map sayOf ∧
      (told.stop = none ∨ ∃ code, (code = 1000 ∨ code = 1001 ∨ code = 1002) ∧ told.stop = some (.closed (codeBytes code))) ∧
      ((n.agg.delivered k).map Prod.snd).Sublist n.srv.sys.popped ∧
      (∀ x ∈ n.agg.delivered k, ∃ b, n.Has b ∧ x.2.srcId = b.number) ∧
      (∀ c < n.srv.nextId, n.relayedOf k (.conn c) = [] ∨ ∃ r body, Accepted (heard ls c) r body ∧
        (contents (n.relayedOf k (.conn c))).Sublist (Rules.messages (passOf conf body).events)) ∧
      ∀ i < n.reactor.count, (contents (n.relayedOf k (.upstream i))).Sublist
        (((n.reactor.client i).past ++ [(n.reactor.client i).ses]).flatMap (UpSession.messages conf)) := by
  have hapart : Reach (nodeStep conf W) Node.Apart (.started us) n := .of_exec hok h
  have hids : Reach (nodeStep conf W) IdsLeft (.started us) n := hapart.mono fun _ _ hok => hok.1
  have hspared : Reach (nodeStep conf W) (NodeMeets (Spares conf)) (.started us) n := .of_exec hspare h
  have hsub := relayed_sublist hids k
  have hof : ∀ b, (n.relayedOf k b).Sublist (n.taken b) := fun b => hsub.filter _
  have henc : n.agg.encoded.map Prod.fst = n.srv.sys.popped := (node_merged hids).encoded
  have hread : ∀ e ∈ n.agg.encoded, Readable lim e.1 := by
    intro e he
    have hmem : e.1 ∈ n.srv.sys.popped := henc ▸ List.mem_map_of_mem he
    exact (node_sound h hids hspared e.1 hmem).readable (hrange e.1 hmem) hframe hmessage halloc
  have hlen : n.agg.encoded.length < 2 ^ 64 := by
    rwa [← henc, List.length_map] at hcount
  have hr : Readings n.agg := (nodeReach_wire hapart).invariant (.start _ _ _ _) fun _ _ _ hr hok hs => hr.act hok hs
  obtain ⟨hevents, hstop⟩ := hr.reads hlim (by omega) hlen hread hw
  refine ⟨hevents, hstop.imp_right fun ⟨_, hclosed⟩ => hclosed, hsub, fun x hx => ?_, fun c hc => ?_, fun i hi => ?_⟩
  · exact popped_has hids (hsub.subset (List.mem_map_of_mem hx))
  · rcases taken_heard h hids hc with hnone | ⟨r, body, hacc, hpre⟩
    · exact .inl (List.sublist_nil.1 (hnone ▸ hof (.conn c)))
    · exact .inr ⟨r, body, hacc, ((hof (.conn c)).map _).trans hpre.sublist⟩
  · have hlog := (contents_before (taken_upstream hids hi)).trans (log_sessions hspared i)
    exact ((hof (.upstream i)).map _).trans hlog.sublist

theorem allOk_srv {cond : Condition} (bs : List Act) (n : Node) :
    allOk (nodeStep conf W) (NodeMeets cond) n (bs.map .srv) := by
  induction bs generalizing n with
  | nil => trivial
  | cons b bs ih =>
    refine ⟨trivial, ?_⟩
    cases nodeStep conf W n (.srv b) with
    | none => trivial
    | some m => exact ih m

/-- the sink reads the first message of source 2 -/
theorem sink_reads_sources_relayed : ∃ n w, exec (nodeStep tinyConf 1) (.started []) relayRun = some n ∧
    n.agg.logs[0]? = some w ∧ (Rules.pass ⟨false, 65536, 65536⟩ none (w.map Prod.snd)).events = [.message opBin [1]] := by
  obtain ⟨n, hrun, hp⟩ := Option.map_eq_some_iff.1 relayRun_ends
  obtain ⟨-, -, -, -, htaken, hfates, hpast⟩ := of_decide_eq_true hp
  obtain ⟨hn, hok⟩ := exec_of_guarded hrun
  have hlog : n.agg.logs[0]? = some n.agg.wire := by
    rw [AggSys.logs, show n.agg.past = [] from hpast]
    rfl
  have hrange : ∀ x ∈ n.srv.sys.popped, x.InRange := by
    intro x hx
    rw [htaken] at hx
    rw [List.mem_singleton.1 hx]
    exact ⟨by decide, by decide, by decide⟩
  have henc : n.agg.encoded.map Prod.fst = n.srv.sys.popped :=
    (node_merged (.of_exec (hok.mono fun _ _ h => h.1) hn)).encoded
  obtain ⟨hevents, -⟩ := sink_reads_sources tinyConf 1 [] relayRun n hn hok (allOk_srv _ _) ⟨false, 65536, 65536⟩ rfl
    (by decide) (by decide) (by decide) hrange (by rw [htaken]; decide) 0 n.agg.wire hlog
  rw [AggSys.delivered, henc, htaken, show n.agg.fates = [⟨0, true⟩] from hfates] at hevents
  exact ⟨n, n.agg.wire, hn, hlog, hevents⟩

end WsServer
