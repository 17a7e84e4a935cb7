/-
Which sources the aggregator counts as alive.

`agg->src` has a flag for every source. A message sets it; only a SRC_DOWN on ctrlQueue clears it, and no thread sends
one. So a source that is closed keeps its flag, and a message taken after the close even makes it an entry.

- `Srv.FlagsTrue`: what the flags are for.
- `flags_true`: they tell the truth in every run in which no source with an entry is closed, and no message of a closed
  source is taken into the table.
- `closed_source_alive`: a source that sends one message and leaves stays alive for good.
-/
import Mathlib
import WsServer.Agg.Numbering
import WsServer.Server.Closing
import WsServer.Server.Said

namespace WsServer

open Ws Machine Packets

/-! ## What the flags are for -/

/-- the number of live sources in the line of `logStats` -/
def liveCount (src : List AggSrc) : ℕ := src.countP AggSrc.alive

/-- the connections that are open and sources -/
def Srv.openSources (s : Srv) : ℕ :=
  (List.range s.nextId).countP fun c => (s.conn c).live ∧ (s.conn c).role = .ROLE_SOURCE

structure Srv.FlagsTrue (s : Srv) : Prop where
  closed : ∀ c < s.nextId, (s.conn c).role = .ROLE_SOURCE → (s.conn c).live = false → s.sys.dataQueue.items = [] →
    s.sys.ctrlQueue.items = [] → ∀ a ∈ s.sys.agg.src, a.id = c → a.alive = false
  count : liveCount s.sys.agg.src ≤ s.openSources

/-- a worker closes no source that has an entry, and the aggregator takes no message of a closed source into the table -/
def FlagsKept (s : Srv) : Act → Prop
  | .worker w _ => ∀ a ∈ s.sys.agg.src, s.workers w ≠ .apply a.id .DISP_CLOSE
  | .agg _ => s.sys.pc = .take → ∀ m ∈ s.sys.dataQueue.items.head?, (s.conn m.srcId).live = true ∨
      (findOrCreateSrc s.sys.agg.src m.srcId).1 = none
  | _ => True

instance (s : Srv) (a : Act) : Decidable (FlagsKept s a) :=
  match a with
  | .worker w _ => inferInstanceAs (Decidable (∀ a ∈ s.sys.agg.src, s.workers w ≠ .apply a.id .DISP_CLOSE))
  | .agg _ => inferInstanceAs (Decidable (s.sys.pc = .take → ∀ m ∈ s.sys.dataQueue.items.head?,
      (s.conn m.srcId).live = true ∨ (findOrCreateSrc s.sys.agg.src m.srcId).1 = none))
  | .accept | .deliver _ _ _ | .fetch _ | .enqueue _ => instDecidableTrue

/-! ## The table -/

variable {conf : ServerConfig} {s t : Srv} {x : ℕ}

theorem findOrCreateSrc_ids {src : List AggSrc} {id : ℕ} {a : AggSrc} (h : a ∈ (findOrCreateSrc src id).2) :
    (∃ b ∈ src, b.id = a.id) ∨ a.id = id ∧ (findOrCreateSrc src id).1 ≠ none := by
  unfold findOrCreateSrc at h ⊢
  split at h
  · exact .inl ⟨a, h, rfl⟩
  · next hnone =>
    split_ifs at h ⊢ with hfull
    · exact .inl ⟨a, h, rfl⟩
    · rcases List.mem_append.1 h with h | h
      · exact .inl ⟨a, h, rfl⟩
      · rw [List.mem_singleton.1 h]
        exact .inr ⟨rfl, nofun⟩

/-- a change to one entry that leaves the ids alone -/
theorem modify_ids {src : List AggSrc} {i : ℕ} {f : AggSrc → AggSrc} (hf : ∀ a, (f a).id = a.id) {a : AggSrc}
    (h : a ∈ src.modify i f) : ∃ b ∈ src, b.id = a.id := by
  obtain ⟨j, hj⟩ := List.mem_iff_getElem?.1 h
  rw [List.getElem?_modify, Option.map_eq_map, Option.map_eq_some_iff] at hj
  obtain ⟨b, hb, rfl⟩ := hj
  refine ⟨b, List.mem_of_getElem? hb, ?_⟩
  split_ifs
  · exact (hf b).symm
  · rfl

/-- an entry was there before, or is that of the message -/
theorem countMessage_ids {src : List AggSrc} {m : Msg} {a : AggSrc} (h : a ∈ countMessage src m) :
    (∃ b ∈ src, b.id = a.id) ∨ a.id = m.srcId ∧ (findOrCreateSrc src m.srcId).1 ≠ none := by
  unfold countMessage at h
  dsimp only at h
  split at h
  · obtain ⟨b, hb, hid⟩ := modify_ids (by intro a; rfl) h
    rw [← hid]
    exact findOrCreateSrc_ids hb
  · exact findOrCreateSrc_ids h

/-- a step that makes no frame of a message adds no entry -/
theorem Counts.unmade {enc enc' : List (Msg × Frame)} {src src' : List AggSrc} (h : Counts enc src enc' src')
    (hsame : enc' = enc) {a : AggSrc} (ha : a ∈ src') : ∃ b ∈ src, b.id = a.id := by
  cases h with
  | same => exact ⟨a, ha, rfl⟩
  | down srcId =>
    unfold aggSrcDown at ha
    split at ha
    · exact modify_ids (by intro a; rfl) ha
    · exact ⟨a, ha, rfl⟩
  | message m f => exact absurd hsame (by simp)

/-- an entry is an old one, or that of the message the aggregator takes in this step -/
theorem aggStep_ids {sys u : AggSys} {e : AggEnv} (hq : sys.dataQueue.shutdown = false) (hp : sys.pc.draining = false)
    (h : aggStep conf sys e = some u) {a : AggSrc} (ha : a ∈ u.agg.src) :
    (∃ b ∈ sys.agg.src, b.id = a.id) ∨ ∃ m ∈ sys.dataQueue.items.head?, sys.pc = .take ∧ a.id = m.srcId ∧
      (findOrCreateSrc sys.agg.src m.srcId).1 ≠ none := by
  by_cases hpc : sys.pc = .take
  · unfold aggStep at h
    simp only [hpc] at h
    cases hpop : trypop sys.dataQueue with
    | none =>
      simp only [hpop] at h
      obtain rfl := Option.some.inj h
      exact .inl ⟨a, ha, rfl⟩
    | some mq =>
      obtain ⟨m, q⟩ := mq
      simp only [hpop] at h
      obtain rfl := Option.some.inj h
      rcases countMessage_ids (m := m) ha with hold | ⟨hid, hroom⟩
      · exact .inl hold
      · have hitems : sys.dataQueue.items = m :: q.items := (trypop_eq_some.1 hpop).1
        refine .inr ⟨m, ?_, hpc, hid, hroom⟩
        rw [hitems]
        rfl
  · -- only that step makes a frame of a message
    have hsame : u.encoded = sys.encoded := by
      rcases (aggStep_shift hq hp h).taken with hnone | ⟨m, f, htake, -⟩
      · exact hnone.2
      · exact absurd htake hpc
    obtain ⟨b, hb, hid⟩ := (aggStep_counts h).unmade hsame ha
    exact .inl ⟨b, hb, hid⟩

/-! ## Whose entries there are -/

theorem srvReach_numbered (h : Reachable (srvStep conf) .start s) : Numbered s.sys.encoded s.sys.agg.src := by
  obtain ⟨W, n, hn, rfl⟩ := srvReach_node (fun _ => closedClient 0) h
  exact (nodeReach_agg hn).invariant (P := fun s => Numbered s.encoded s.agg.src) .start fun _ _ _ hp _ hstep =>
    numbered_act hp hstep

/-- each source has one entry -/
theorem entries_nodup (h : Reachable (srvStep conf) .start s) : (s.sys.agg.src.map AggSrc.id).Nodup := by
  rw [(srvReach_numbered h).table.ids]
  exact firstSources_nodup _

/-- a source in the table has completed a message -/
theorem entry_completed (h : Reachable (srvStep conf) .start s) {a : AggSrc} (ha : a ∈ s.sys.agg.src) :
    s.completed a.id ≠ [] := by
  have hledger := reachable_ledger h
  have hid : a.id ∈ firstSources (s.sys.encoded.map Prod.fst) := by
    rw [← (srvReach_numbered h).table.ids]
    exact List.mem_map.2 ⟨a, ha, rfl⟩
  obtain ⟨m, hm, hsrc⟩ := List.mem_map.1 (mem_sourcesOf.1 (List.mem_of_mem_take hid))
  rw [hledger.encoded] at hm
  intro hnone
  have hpre := hledger.past a.id
  rw [hnone, List.prefix_nil, List.filter_eq_nil_iff] at hpre
  exact hpre m hm (decide_eq_true hsrc)

/-- so it was accepted, and is a source -/
theorem entry_source (h : Reachable (srvStep conf) .start s) {a : AggSrc} (ha : a ∈ s.sys.agg.src) :
    a.id < s.nextId ∧ (s.conn a.id).role = .ROLE_SOURCE := by
  have hdone := entry_completed h ha
  obtain ⟨W, n, hn, rfl⟩ := srvReach_node (fun _ => closedClient 0) h
  have hlt : a.id < n.srv.nextId := by
    by_contra hge
    exact hdone (node_unborn hn a.id (not_lt.1 hge)).2.2
  refine ⟨hlt, ?_⟩
  obtain ⟨d, hat⟩ := n.srv.at_exists a.id
  have hsaid := (nodeReach_line hn hlt hat).said
  generalize n.sent a.id ++ bufData (n.srv.conn a.id).tx = said at hsaid
  generalize n.srv.completed a.id = ms at hsaid hdone
  cases hsaid with
  | reading | answering => exact absurd rfl hdone
  | talking _ _ _ _ hrole => exact hrole

/-! ## Who closes a source -/

/-- a source stays open in every step but the worker's that closes it -/
theorem srvStep_live {b : Act} (hg : Good s) (h : srvStep conf s b = some t) (hx : x < s.nextId)
    (hrole : (s.conn x).role = .ROLE_SOURCE) (hb : ∀ w e, b = .worker w e → s.workers w ≠ .apply x .DISP_CLOSE) :
    (t.conn x).live = (s.conn x).live := by
  by_cases haccept : b = .accept
  · subst haccept
    obtain rfl := Option.some.inj h
    exact congrArg Conn.live (setConn_conn_of_ne _ hx.ne)
  rw [srvStep_lives h haccept, if_neg]
  intro hcloses
  cases b with
  | worker w e => exact hb w e rfl (Srv.closes_worker.1 hcloses)
  | agg e =>
    -- the aggregator closes sinks only
    have hsink := AggSys.closes_sink hcloses
    have hfit := ((hg.fine x).fits .sink (by simp [Srv.cell, hsink])).2
    cases hrole.symm.trans hfit
  | _ => cases hcloses

/-! ## Every run -/

/-- every source in the table is still there -/
def EntriesLive (s : Srv) : Prop := ∀ a ∈ s.sys.agg.src, (s.conn a.id).live = true

theorem aggStep_take {sys u : AggSys} {e : AggEnv} (hpc : sys.pc = .take) (h : aggStep conf sys e = some u) :
    u.conn = sys.conn := by
  unfold aggStep at h
  simp only [hpc] at h
  split at h <;> obtain rfl := Option.some.inj h <;> rfl

theorem srvStep_entries {b : Act} (hr : Reachable (srvStep conf) .start s) (hj : EntriesLive s) (hok : FlagsKept s b)
    (h : srvStep conf s b = some t) : EntriesLive t := by
  have hg := reachable_good hr
  intro a ha
  by_cases hb : ∃ e, b = .agg e
  · obtain ⟨e, rfl⟩ := hb
    obtain ⟨u, hu, rfl⟩ := Option.map_eq_some_iff.1 h
    rcases aggStep_ids hg.dataQueue hg.draining hu ha with ⟨b, hb, hid⟩ | ⟨m, hm, hpc, hid, hroom⟩
    · obtain ⟨hlt, hrole⟩ := entry_source hr hb
      rw [← hid, srvStep_live hg h hlt hrole nofun]
      exact hj b hb
    · have hconn : u.conn = s.sys.conn := aggStep_take hpc hu
      show (u.conn a.id).live = true
      rw [hconn, hid]
      exact (hok hpc m hm).resolve_right hroom
  · have hagg : t.sys.agg = s.sys.agg := by rw [srvStep_others h fun e he => hb ⟨e, he⟩]
    rw [hagg] at ha
    obtain ⟨hlt, hrole⟩ := entry_source hr ha
    rw [srvStep_live hg h hlt hrole ?_]
    · exact hj a ha
    · rintro w e rfl
      exact hok a ha

theorem entries_live (h : Reach (srvStep conf) FlagsKept .start s) : EntriesLive s := by
  have hboth : Reachable (srvStep conf) .start s ∧ EntriesLive s := by
    refine h.invariant (P := fun s => Reachable (srvStep conf) .start s ∧ EntriesLive s) ⟨.start, nofun⟩ ?_
    rintro s b t ⟨hr, hj⟩ hok hstep
    exact ⟨.step b hr trivial hstep, srvStep_entries hr hj hok hstep⟩
  exact hboth.2

/-- **The flags tell the truth.** In every run in which no worker closes a source that has an entry, and the aggregator takes
no message of a closed source into the table, a closed source has no entry that is alive, and there are no more live
entries than open sources. -/
theorem flags_true (conf : ServerConfig) (s : Srv) (h : Reach (srvStep conf) FlagsKept .start s) : s.FlagsTrue := by
  have hr : Reachable (srvStep conf) .start s := h.mono fun _ _ _ => trivial
  have hlive := entries_live h
  constructor
  · intro c _ _ hclosed _ _ a ha hid
    have hopen := hlive a ha
    rw [hid, hclosed] at hopen
    cases hopen
  · -- the ids of the entries are different open sources
    have hsub : s.sys.agg.src.map AggSrc.id ⊆
        (List.range s.nextId).filter fun c => (s.conn c).live ∧ (s.conn c).role = .ROLE_SOURCE := by
      intro c hc
      obtain ⟨a, ha, rfl⟩ := List.mem_map.1 hc
      obtain ⟨hlt, hrole⟩ := entry_source hr ha
      exact List.mem_filter.2 ⟨List.mem_range.2 hlt, decide_eq_true ⟨hlive a ha, hrole⟩⟩
    calc liveCount s.sys.agg.src ≤ s.sys.agg.src.length := List.countP_le_length
      _ = (s.sys.agg.src.map AggSrc.id).length := (List.length_map _).symm
      _ ≤ ((List.range s.nextId).filter fun c => (s.conn c).live ∧ (s.conn c).role = .ROLE_SOURCE).length :=
        (List.subperm_of_subset (entries_nodup hr) hsub).length_le
      _ = s.openSources := (List.countP_eq_length_filter).symm

/-- a sink, a source that sends one message and stays, and one that leaves before it has sent anything -/
def silentRun : List Act :=
  [Act.accept, .deliver 1 (hello "/feed") .open, .fetch 1, .enqueue 1] ++ List.replicate 5 (Act.worker 0 calmWork) ++
    [Act.accept, .deliver 2 (hello "/" ++ binFrame 1) .open, .fetch 2, .enqueue 2] ++
    List.replicate 10 (Act.worker 0 calmWork) ++ List.replicate 6 (Act.agg calmAgg) ++
    [Act.accept, .deliver 3 (hello "/") .open, .fetch 3, .enqueue 3] ++ List.replicate 7 (Act.worker 0 calmWork) ++
    [Act.deliver 3 [] .eof, .fetch 3, .enqueue 3] ++ List.replicate 6 (Act.worker 0 calmWork)

/-- source 2 is open and its entry alive; source 3 is closed, and has none -/
def oneLeft (s : Srv) : Bool :=
  (s.conn 2).role = .ROLE_SOURCE ∧ (s.conn 2).live ∧ (s.conn 3).role = .ROLE_SOURCE ∧ (s.conn 3).live = false ∧
    s.sys.agg.src.map (fun a => (a.id, a.alive)) = [(2, true)]

theorem silentRun_left : (exec (guarded (srvStep smallConf) FlagsKept) .start silentRun).map oneLeft = some true := by
  decide +kernel

theorem flags_true_silent : ∃ s, Reach (srvStep smallConf) FlagsKept .start s ∧ oneLeft s = true ∧ s.FlagsTrue := by
  obtain ⟨s, hs, hview⟩ := Option.map_eq_some_iff.1 silentRun_left
  have hreach : Reach (srvStep smallConf) FlagsKept .start s := .of_guarded .start hs
  exact ⟨s, hreach, hview, flags_true smallConf s hreach⟩

/-- a sink, and a source that sends one message and leaves when the sink has it -/
def goneRun : List Act :=
  [Act.accept, .deliver 1 (hello "/feed") .open, .fetch 1, .enqueue 1] ++ List.replicate 5 (Act.worker 0 calmWork) ++
    [Act.accept, .deliver 2 (hello "/" ++ binFrame 1) .open, .fetch 2, .enqueue 2] ++
    List.replicate 10 (Act.worker 0 calmWork) ++ List.replicate 6 (Act.agg calmAgg) ++
    [Act.deliver 2 [] .eof, .fetch 2, .enqueue 2] ++ List.replicate 6 (Act.worker 0 calmWork)

/-- the source is closed, the queues are empty, and its entry is alive -/
def leftBehind (s : Srv) : Bool :=
  2 < s.nextId ∧ (s.conn 2).role = .ROLE_SOURCE ∧ (s.conn 2).live = false ∧ s.sys.dataQueue.items.isEmpty ∧
    s.sys.ctrlQueue.items.isEmpty ∧ s.sys.agg.src.map (fun a => (a.id, a.alive)) = [(2, true)]

theorem goneRun_left : (exec (srvStep smallConf) .start goneRun).map leftBehind = some true := by decide +kernel

/-- **It stays alive.** Nothing is left in the queues, the source is closed, and it is counted. -/
theorem closed_source_alive : ¬ ∀ s, Reachable (srvStep smallConf) .start s → s.FlagsTrue := by
  obtain ⟨s, hs, hleft⟩ := Reachable.of_check (srvStep smallConf) .start goneRun leftBehind goneRun_left
  simp only [leftBehind, decide_eq_true_eq, List.isEmpty_iff] at hleft
  obtain ⟨hnext, hrole, hlive, hdata, hctrl, hsrc⟩ := hleft
  obtain ⟨a, ha, hentry⟩ := List.map_eq_singleton_iff.1 hsrc
  obtain ⟨hid, halive⟩ := Prod.mk.inj hentry
  have hmem : a ∈ s.sys.agg.src := by rw [ha]; exact List.mem_singleton_self a
  intro hall
  have hdead := (hall s hs).closed 2 hnext hrole hlive hdata hctrl a hmem hid
  rw [halive] at hdead
  cases hdead

end WsServer
