/-
The `seq` of an envelope: the count of the source's messages, as long as the table of sources has room for the source.

`firstSources ms` are the ids the table holds after the messages `ms`. An entry is never given back, so in a long run
these are the first `AGG_MAX_SOURCES` sources that ever sent something; `alive` plays no part.

- `tallied_message`: what one message does to the table (the step lemma); `Numbered` carries it through a run.
- `seq_counts`: in every run each message of a source in the table is numbered by the count of that source's messages,
  whatever came from others in between, and a message of any other source is numbered 0.
- `late_source_unnumbered`: the first message of the 257th source is not number 1.
-/
import Mathlib
import WsServer.Agg.Wire

namespace WsServer

open Ws Packets Machine

/-! ## The table -/

/-- the ids of all sources, in the order of their first messages -/
def sourcesOf (ms : List Msg) : List ℕ := (ms.map Msg.srcId).reverse.dedup.reverse

/-- the sources that got an entry -/
def firstSources (ms : List Msg) : List ℕ := (sourcesOf ms).take AGG_MAX_SOURCES

/-- how many of the messages are of one source -/
def countOf (ms : List Msg) (id : ℕ) : ℕ := ms.countP fun m => m.srcId = id

/-- the number a message gets behind the messages `ms` -/
def numberAfter (ms : List Msg) (m : Msg) : ℕ :=
  if m.srcId ∈ firstSources (ms ++ [m]) then countOf ms m.srcId + 1 else 0

/-- what `aggOnMessage` makes of the table -/
def countMessage (src : List AggSrc) (m : Msg) : List AggSrc :=
  let r := findOrCreateSrc src m.srcId
  match r.1 with
  | some i => r.2.modify i fun a =>
    { a with msgCount := a.msgCount + 1, byteCount := a.byteCount + m.data.length, lastTs := m.ts, alive := true }
  | none => r.2

/-- the count it reads afterwards -/
def seqOf (src : List AggSrc) (m : Msg) : ℕ :=
  ((findOrCreateSrc src m.srcId).1.bind fun i => (countMessage src m)[i]?).elim 0 AggSrc.msgCount

theorem aggOnMessage_body (s : AggSys) (m : Msg) : (aggOnMessage s m).1.body =
    frameNew (encodeMsg (seqOf s.agg.src m) m).1 (encodeMsg (seqOf s.agg.src m) m).2 := rfl

/-- id and count of an entry -/
def AggSrc.tally (a : AggSrc) : ℕ × ℕ := (a.id, a.msgCount)

/-- the table after the messages `ms` -/
def Tallied (ms : List Msg) (src : List AggSrc) : Prop :=
  src.map AggSrc.tally = (firstSources ms).map fun i => (i, countOf ms i)

variable {ms : List Msg} {src : List AggSrc} {m : Msg}

theorem countOf_snoc (id : ℕ) : countOf (ms ++ [m]) id = countOf ms id + if m.srcId = id then 1 else 0 := by
  unfold countOf
  rw [List.countP_append, List.countP_singleton]
  simp only [decide_eq_true_eq]

theorem countOf_eq_zero {id : ℕ} (h : id ∉ ms.map Msg.srcId) : countOf ms id = 0 := by
  unfold countOf
  rw [List.countP_eq_zero]
  intro x hx hid
  exact h (List.mem_map.2 ⟨x, hx, of_decide_eq_true hid⟩)

theorem mem_sourcesOf {id : ℕ} : id ∈ sourcesOf ms ↔ id ∈ ms.map Msg.srcId := by
  unfold sourcesOf
  rw [List.mem_reverse, List.mem_dedup, List.mem_reverse]

theorem firstSources_nodup (ms : List Msg) : (firstSources ms).Nodup :=
  (List.nodup_reverse.2 (List.nodup_dedup _)).sublist (List.take_sublist _ _)

/-- a source seen before adds nothing -/
theorem sourcesOf_seen (h : m.srcId ∈ sourcesOf ms) : sourcesOf (ms ++ [m]) = sourcesOf ms := by
  have hmem : m.srcId ∈ (ms.map Msg.srcId).reverse := List.mem_reverse.2 (mem_sourcesOf.1 h)
  unfold sourcesOf
  rw [List.map_append, List.map_singleton, List.reverse_append, List.reverse_singleton, List.singleton_append,
    List.dedup_cons_of_mem hmem]

/-- a new one comes last -/
theorem sourcesOf_new (h : m.srcId ∉ sourcesOf ms) : sourcesOf (ms ++ [m]) = sourcesOf ms ++ [m.srcId] := by
  have hmem : m.srcId ∉ (ms.map Msg.srcId).reverse := fun hm => h (mem_sourcesOf.2 (List.mem_reverse.1 hm))
  unfold sourcesOf
  rw [List.map_append, List.map_singleton, List.reverse_append, List.reverse_singleton, List.singleton_append,
    List.dedup_cons_of_notMem hmem, List.reverse_cons]

/-- the table of a full history no longer changes -/
theorem firstSources_full (h : AGG_MAX_SOURCES ≤ (sourcesOf ms).length) : firstSources (ms ++ [m]) = firstSources ms := by
  unfold firstSources
  by_cases hm : m.srcId ∈ sourcesOf ms
  · rw [sourcesOf_seen hm]
  · rw [sourcesOf_new hm, List.take_append_of_le_length h]

theorem firstSources_room (hm : m.srcId ∉ sourcesOf ms) (h : (sourcesOf ms).length < AGG_MAX_SOURCES) :
    firstSources ms = sourcesOf ms ∧ firstSources (ms ++ [m]) = firstSources ms ++ [m.srcId] := by
  have hall : firstSources ms = sourcesOf ms := List.take_of_length_le h.le
  refine ⟨hall, ?_⟩
  rw [hall, firstSources, sourcesOf_new hm, List.take_of_length_le]
  rw [List.length_append, List.length_singleton]
  exact h

/-- a message of a source in the table -/
theorem firstSources_mem (h : m.srcId ∈ firstSources ms) : firstSources (ms ++ [m]) = firstSources ms := by
  unfold firstSources
  rw [sourcesOf_seen (List.mem_of_mem_take h)]

/-! ## One message -/

theorem Tallied.length (h : Tallied ms src) : src.length = (firstSources ms).length := by
  have := congrArg List.length h
  simpa using this

theorem Tallied.ids (h : Tallied ms src) : src.map AggSrc.id = firstSources ms := by
  have := congrArg (List.map Prod.fst) h
  rw [List.map_map, List.map_map] at this
  simpa [Function.comp_def, AggSrc.tally] using this

theorem Tallied.get (h : Tallied ms src) {i : ℕ} {a : AggSrc} (ha : src[i]? = some a) :
    (firstSources ms)[i]? = some a.id ∧ a.msgCount = countOf ms a.id := by
  have hi := congrArg (fun l => l[i]?) h
  simp only [List.getElem?_map, ha, Option.map_some] at hi
  obtain ⟨x, hx, hax⟩ := Option.map_eq_some_iff.1 hi.symm
  obtain ⟨rfl, hcount⟩ := Prod.mk.inj hax
  exact ⟨hx, hcount.symm⟩

/-- the entry of a source in the table -/
theorem Tallied.find (h : Tallied ms src) (hm : m.srcId ∈ firstSources ms) :
    ∃ i a, src.findIdx? (·.id = m.srcId) = some i ∧ src[i]? = some a ∧ a.id = m.srcId := by
  cases hf : src.findIdx? (·.id = m.srcId) with
  | none =>
    rw [← h.ids] at hm
    obtain ⟨a, ha, hid⟩ := List.mem_map.1 hm
    have hno := List.findIdx?_eq_none_iff.1 hf a ha
    rw [decide_eq_false_iff_not] at hno
    exact absurd hid hno
  | some i =>
    obtain ⟨hi, hid, -⟩ := List.findIdx?_eq_some_iff_getElem.1 hf
    exact ⟨i, src[i], rfl, List.getElem?_eq_getElem hi, of_decide_eq_true hid⟩

theorem Tallied.find_none (h : Tallied ms src) (hm : m.srcId ∉ firstSources ms) :
    src.findIdx? (·.id = m.srcId) = none := by
  rw [List.findIdx?_eq_none_iff]
  intro a ha
  rw [decide_eq_false_iff_not]
  intro hid
  apply hm
  rw [← h.ids, ← hid]
  exact List.mem_map_of_mem ha

/-- the counts of the other sources stay -/
theorem tally_others {ids : List ℕ} (h : m.srcId ∉ ids) :
    (ids.map fun i => (i, countOf (ms ++ [m]) i)) = ids.map fun i => (i, countOf ms i) := by
  refine List.map_congr_left fun i hi => ?_
  rw [countOf_snoc, if_neg (by rintro rfl; exact h hi), Nat.add_zero]

/-- a source in the table: its entry is moved on -/
theorem tallied_known (h : Tallied ms src) (hm : m.srcId ∈ firstSources ms) :
    Tallied (ms ++ [m]) (countMessage src m) ∧ seqOf src m = countOf ms m.srcId + 1 := by
  obtain ⟨i, a, hf, ha, hid⟩ := h.find hm
  obtain ⟨hi, hcount⟩ := h.get ha
  rw [hid] at hi hcount
  have hfind : findOrCreateSrc src m.srcId = (some i, src) := by
    unfold findOrCreateSrc
    rw [hf]
  unfold seqOf countMessage
  rw [hfind]
  dsimp only
  constructor
  · unfold Tallied
    rw [firstSources_mem hm]
    refine List.ext_getElem? fun j => ?_
    rw [List.getElem?_map, List.getElem?_map, List.getElem?_modify]
    cases hb : src[j]? with
    | none =>
      have hlen : (firstSources ms).length ≤ j := h.length ▸ List.getElem?_eq_none_iff.1 hb
      rw [List.getElem?_eq_none hlen]
      rfl
    | some b =>
      obtain ⟨hx, hbc⟩ := h.get hb
      rw [hx, Option.map_some, countOf_snoc, ← hbc]
      by_cases hij : i = j
      · subst hij
        obtain rfl := Option.some.inj (ha.symm.trans hb)
        simp [AggSrc.tally, hid]
      · have hne : m.srcId ≠ b.id := by
          intro he
          apply hij
          exact (List.getElem?_inj (List.getElem?_eq_some_iff.1 hi).1 (firstSources_nodup ms)).1 (by rw [hi, hx, he])
        simp [AggSrc.tally, hij, hne]
  · rw [Option.bind_some, List.getElem?_modify, ha]
    simp [hcount]

/-- a new source, and the table is full: nothing changes -/
theorem tallied_full (h : Tallied ms src) (hm : m.srcId ∉ firstSources ms) (hfull : AGG_MAX_SOURCES ≤ src.length) :
    Tallied (ms ++ [m]) (countMessage src m) ∧ seqOf src m = 0 ∧ m.srcId ∉ firstSources (ms ++ [m]) := by
  have hfind : findOrCreateSrc src m.srcId = (none, src) := by
    unfold findOrCreateSrc
    rw [h.find_none hm]
    dsimp only
    rw [if_pos hfull]
  have hlen : AGG_MAX_SOURCES ≤ (sourcesOf ms).length := by
    rw [h.length, firstSources, List.length_take] at hfull
    omega
  have hsame : firstSources (ms ++ [m]) = firstSources ms := firstSources_full hlen
  unfold seqOf countMessage
  rw [hfind, hsame]
  refine ⟨?_, rfl, hm⟩
  unfold Tallied
  rw [hsame, tally_others hm]
  exact h

/-- a new source, and there is room: it gets the next entry -/
theorem tallied_new (h : Tallied ms src) (hm : m.srcId ∉ firstSources ms) (hroom : src.length < AGG_MAX_SOURCES) :
    Tallied (ms ++ [m]) (countMessage src m) ∧ seqOf src m = countOf ms m.srcId + 1 ∧
      m.srcId ∈ firstSources (ms ++ [m]) := by
  have hfind : findOrCreateSrc src m.srcId = (some src.length, src ++ [⟨m.srcId, true, 0, 0, ⟨0, 0⟩⟩]) := by
    unfold findOrCreateSrc
    rw [h.find_none hm]
    dsimp only
    rw [if_neg (by omega)]
  have hlen : (sourcesOf ms).length < AGG_MAX_SOURCES := by
    rw [h.length, firstSources, List.length_take] at hroom
    omega
  have hnot : m.srcId ∉ sourcesOf ms := by
    intro hmem
    rw [firstSources, List.take_of_length_le hlen.le] at hm
    exact hm hmem
  obtain ⟨hall, hnext⟩ := firstSources_room hnot hlen
  have hzero : countOf ms m.srcId = 0 := countOf_eq_zero fun hmem => hnot (mem_sourcesOf.2 hmem)
  have hcount : countMessage src m = src ++ [⟨m.srcId, true, 1, m.data.length, m.ts⟩] := by
    unfold countMessage
    rw [hfind]
    dsimp only
    rw [List.modify_eq_take_cons_drop (by simp), List.take_left, List.drop_of_length_le (by simp)]
    simp
  refine ⟨?_, ?_, ?_⟩
  · unfold Tallied
    rw [hcount, hnext, List.map_append, List.map_append, h, tally_others hm, List.map_singleton, List.map_singleton,
      countOf_snoc, if_pos rfl, hzero]
    rfl
  · unfold seqOf
    rw [hfind, hcount, Option.bind_some, List.getElem?_append_right (le_refl _), Nat.sub_self, hzero]
    rfl
  · rw [hnext]
    exact List.mem_append_right _ (List.mem_singleton.2 rfl)

/-- **One message.** The table of the history becomes the table of the longer history, and the message is numbered by
its own source alone. -/
theorem tallied_message (h : Tallied ms src) (m : Msg) :
    Tallied (ms ++ [m]) (countMessage src m) ∧ seqOf src m = numberAfter ms m := by
  unfold numberAfter
  by_cases hm : m.srcId ∈ firstSources ms
  · rw [if_pos (by rw [firstSources_mem hm]; exact hm)]
    exact tallied_known h hm
  · rcases Nat.lt_or_ge src.length AGG_MAX_SOURCES with hroom | hfull
    · obtain ⟨ht, hseq, hin⟩ := tallied_new h hm hroom
      rw [if_pos hin]
      exact ⟨ht, hseq⟩
    · obtain ⟨ht, hseq, hout⟩ := tallied_full h hm hfull
      rw [if_neg hout]
      exact ⟨ht, hseq⟩

/-- a source that goes away keeps its entry and its count -/
theorem tallied_down (h : Tallied ms src) (srcId : ℕ) : Tallied ms (aggSrcDown src srcId) := by
  unfold aggSrcDown
  split
  · next i hi =>
    unfold Tallied at h ⊢
    rw [← h]
    refine List.ext_getElem? fun j => ?_
    rw [List.getElem?_map, List.getElem?_map, List.getElem?_modify]
    cases src[j]? with
    | none => rfl
    | some b =>
      show some _ = some _
      split_ifs <;> rfl
  · exact h

/-! ## A run -/

/-- what a step may do to the record of frames and to the table -/
inductive Counts (enc : List (Msg × Frame)) (src : List AggSrc) : List (Msg × Frame) → List AggSrc → Prop where
  | same : Counts enc src enc src
  | down (srcId : ℕ) : Counts enc src enc (aggSrcDown src srcId)
  | message (m : Msg) (f : Frame) : f.body = frameNew (encodeMsg (seqOf src m) m).1 (encodeMsg (seqOf src m) m).2 →
      Counts enc src (enc ++ [(m, f)]) (countMessage src m)

theorem Counts.of_eq {enc enc' : List (Msg × Frame)} {src src' : List AggSrc} (he : enc' = enc) (hs : src' = src) :
    Counts enc src enc' src' := by
  rw [he, hs]
  exact .same

theorem closeSink_src (s : AggSys) : (closeSink s).agg.src = s.agg.src := by
  unfold closeSink
  split <;> rfl

theorem sinkFlush_src (s : AggSys) (sends : List SendRes) : (sinkFlush s sends).2.agg.src = s.agg.src := by
  have hctrl : (sinkFlushCtrl s sends).2.1.agg.src = s.agg.src := by
    unfold sinkFlushCtrl
    split
    · rfl
    · dsimp only
      split_ifs <;> rfl
  have hdata : ∀ (u : AggSys) (rest : List SendRes), (sinkFlushData u rest).2.agg.src = u.agg.src := by
    intro u rest
    unfold sinkFlushData
    split
    · rfl
    · dsimp only
      split_ifs <;> rfl
  unfold sinkFlush
  dsimp only
  split_ifs
  · exact hctrl
  · exact (hdata _ _).trans hctrl

theorem freeSink_src (s : AggSys) (sends : List SendRes) : (freeSink s sends).agg.src = s.agg.src := by
  unfold freeSink
  split_ifs
  · rw [closeSink_src]; rfl
  · rfl

theorem handleCtrl_counts (s : AggSys) (sends : List SendRes) (m : Msg) :
    Counts s.encoded s.agg.src (handleCtrl s sends m).encoded (handleCtrl s sends m).agg.src := by
  unfold handleCtrl
  split
  · exact .of_eq (freeSink_only m.adds s sends).encoded (freeSink_src s sends)
  · exact .down m.srcId
  · exact .same

theorem sinkTaken_src (s : AggSys) (e : AggEnv) (k : ℕ) : (sinkTaken s e k).agg.src = s.agg.src := by
  unfold sinkTaken
  dsimp only
  split <;> rfl

theorem sinkReadAndHandle_src (s : AggSys) (e : AggEnv) (k : ℕ) : (sinkReadAndHandle s e k).2.agg.src = s.agg.src := by
  rw [sinkReadAndHandle_eq]
  split <;> exact sinkTaken_src s e k

theorem handleEvent_src (s : AggSys) (e : AggEnv) (ev : AggEvent) : (handleEvent s e ev).agg.src = s.agg.src := by
  cases ev with
  | wake => rfl
  | timer => rfl
  | conn c hup inn =>
    simp only [handleEvent]
    split_ifs
    · rfl
    · exact closeSink_src s
    · exact sinkReadAndHandle_src s e c
    · rw [closeSink_src]
      exact sinkReadAndHandle_src s e c
    · rfl

theorem drainMessage_counts (s : AggSys) (sends : List SendRes) (m : Msg) :
    Counts s.encoded s.agg.src (drainMessage s sends m).encoded (drainMessage s sends m).agg.src := by
  unfold drainMessage
  split_ifs
  · exact .message m (aggOnMessage s m).1 rfl
  · exact .same

variable {conf : ServerConfig} {s t : AggSys}

/-- **What one step does to the record and the table.** -/
theorem aggStep_counts {e : AggEnv} (h : aggStep conf s e = some t) :
    Counts s.encoded s.agg.src t.encoded t.agg.src := by
  unfold aggStep at h
  cases hpc : s.pc with
  | ctrl =>
    simp only [hpc] at h
    split at h <;> obtain rfl := Option.some.inj h
    · exact .same
    · exact handleCtrl_counts { s with ctrlQueue := _, pc := .ctrl } e.sends _
  | pump =>
    have henc := (sinkFlush_only (fun _ => False) s e.sends).encoded
    have hsrc := sinkFlush_src s e.sends
    simp only [hpc] at h
    split_ifs at h <;> obtain rfl := Option.some.inj h
    · exact .same
    · exact .of_eq ((closeSink_only (fun _ => False) _).encoded.trans henc) ((closeSink_src _).trans hsrc)
    · exact .of_eq henc hsrc
    · exact .of_eq henc hsrc
  | rpush c =>
    simp only [hpc, Option.map_eq_some_iff] at h
    obtain ⟨m, -, rfl⟩ := h
    exact .same
  | take =>
    simp only [hpc] at h
    split at h <;> obtain rfl := Option.some.inj h
    · exact .same
    · next m q _ => exact .message m _ rfl
  | exitCtrl | exitDrain | wait | unpark =>
    simp only [hpc] at h
    split at h <;> obtain rfl := Option.some.inj h <;> exact .same
  | events evs =>
    cases evs with
    | nil =>
      simp only [hpc] at h
      obtain rfl := Option.some.inj h
      exact .same
    | cons ev evs =>
      simp only [hpc] at h
      obtain rfl := Option.some.inj h
      exact .of_eq (handleEvent_only (fun _ => False) s e ev).encoded (handleEvent_src s e ev)
  | drainCtrl =>
    simp only [hpc] at h
    split at h <;> obtain rfl := Option.some.inj h
    · exact .same
    · exact handleCtrl_counts { s with ctrlQueue := _, pc := .drainCtrl } e.sends _
  | drainData =>
    simp only [hpc] at h
    split at h <;> obtain rfl := Option.some.inj h
    · exact .same
    · next m q _ => exact drainMessage_counts { s with dataQueue := q, popped := s.popped ++ [m], pc := .drainData } e.sends m
  | final =>
    simp only [hpc] at h
    obtain rfl := Option.some.inj h
    exact .of_eq (freeSink_only (fun _ => False) s e.sends).encoded (freeSink_src s e.sends)
  | done => simp only [hpc] at h; cases h
  | mark | rclear | radd | exitData =>
    simp only [hpc] at h
    obtain rfl := Option.some.inj h
    exact .same

/-- the frame of a message that is numbered `seq` -/
def frameOf (seq : ℕ) (m : Msg) : Bytes := frameNew (encodeMsg seq m).1 (encodeMsg seq m).2

/-- the table is that of the messages recorded, and each frame carries the number of its message -/
structure Numbered (enc : List (Msg × Frame)) (src : List AggSrc) : Prop where
  table : Tallied (enc.map Prod.fst) src
  frames : ∀ before e after, enc = before ++ e :: after →
    e.2.body = frameOf (numberAfter (before.map Prod.fst) e.1) e.1

theorem Numbered.start : Numbered [] [] where
  table := rfl
  frames := by
    intro before e after h
    simp at h

theorem Numbered.message {enc : List (Msg × Frame)} {src : List AggSrc} (h : Numbered enc src) {m : Msg} {f : Frame}
    (hf : f.body = frameOf (seqOf src m) m) : Numbered (enc ++ [(m, f)]) (countMessage src m) := by
  obtain ⟨htable, hseq⟩ := tallied_message h.table m
  constructor
  · rw [List.map_append]
    exact htable
  · intro before e after he
    rcases List.eq_nil_or_concat after with rfl | ⟨rest, x, rfl⟩
    · obtain ⟨rfl, hlast⟩ := List.append_inj' he rfl
      obtain rfl := (List.cons.inj hlast).1
      rw [hf, hseq]
    · -- the new frame stands behind the one looked at
      have hcut : enc ++ [(m, f)] = before ++ e :: rest ++ [x] := by
        rw [he]
        simp
      exact h.frames before e rest (List.append_inj' hcut rfl).1

theorem Counts.numbered {enc enc' : List (Msg × Frame)} {src src' : List AggSrc} (h : Counts enc src enc' src')
    (hn : Numbered enc src) : Numbered enc' src' := by
  cases h with
  | same => exact hn
  | down srcId => exact ⟨tallied_down hn.table srcId, hn.frames⟩
  | message m f hf => exact hn.message hf

theorem numbered_act {a : AggAct} (hn : Numbered s.encoded s.agg.src) (h : aggSysStep conf s a = some t) :
    Numbered t.encoded t.agg.src := by
  cases a with
  | agg e => exact (aggStep_counts h).numbered hn
  | others conn dq cq park =>
    simp only [aggSysStep, Option.some.injEq] at h
    subst h
    exact hn

/-- **Numbers count.** In every run of the aggregator among the other threads, a message of a source that is among the
first `AGG_MAX_SOURCES` is numbered by the count of that source's messages up to it, whatever other sources sent in
between and whichever of them went away; a message of any other source is numbered 0. -/
theorem seq_counts (conf : ServerConfig) (conn : ℕ → Conn) (dataQueue ctrlQueue : Queue Msg) (park : List ℕ)
    (s : AggSys) (h : Reachable (aggSysStep conf) (AggSys.start conn dataQueue ctrlQueue park) s)
    (before after : List (Msg × Frame)) (m : Msg) (f : Frame) (hsplit : s.encoded = before ++ (m, f) :: after) :
    (m.srcId ∈ firstSources (before.map Prod.fst ++ [m]) →
      f.body = frameOf (countOf (before.map Prod.fst) m.srcId + 1) m) ∧
    (m.srcId ∉ firstSources (before.map Prod.fst ++ [m]) → f.body = frameOf 0 m) := by
  have hn : Numbered s.encoded s.agg.src :=
    h.invariant (P := fun s => Numbered s.encoded s.agg.src) .start fun s a t hn _ hs => numbered_act hn hs
  have hbody := hn.frames before (m, f) after hsplit
  unfold numberAfter at hbody
  constructor
  · intro hm
    rwa [if_pos hm] at hbody
  · intro hm
    rwa [if_neg hm] at hbody

/-- sink 7 is handed over; source 3 sent twice, source 4 in between -/
def threeStart : AggSys :=
  .start freshConn ⟨[msgNewData 3 opText ⟨0, 0⟩ [0x61], msgNewData 4 opBin ⟨0, 0⟩ [0x62],
    msgNewData 3 opText ⟨0, 0⟩ [0x63]], false⟩ ⟨[msgNewSinkAdd 7], false⟩ []

/-- the kernel takes every frame at once -/
def threeRun : List AggAct := List.replicate 20 (.agg ⟨[.sent 1000], [], .interrupted⟩)

theorem seq_counts_three : ∃ s f, Reachable (aggSysStep smallConf) threeStart s ∧
    (msgNewData 3 opText ⟨0, 0⟩ [0x63], f) ∈ s.encoded ∧ f.body = frameOf 2 (msgNewData 3 opText ⟨0, 0⟩ [0x63]) := by
  have hrun : (exec (aggSysStep smallConf) threeStart threeRun).map (fun s => s.encoded.map Prod.fst) =
      some [msgNewData 3 opText ⟨0, 0⟩ [0x61], msgNewData 4 opBin ⟨0, 0⟩ [0x62],
        msgNewData 3 opText ⟨0, 0⟩ [0x63]] := by decide +kernel
  rw [Option.map_eq_some_iff] at hrun
  obtain ⟨s, hs, henc⟩ := hrun
  have hr : Reachable (aggSysStep smallConf) threeStart s := .of_exec (allOk_true _ _) hs
  obtain ⟨before, last, hsplit, hbefore, hlast⟩ := List.map_eq_append_iff.1
    (show s.encoded.map Prod.fst = [msgNewData 3 opText ⟨0, 0⟩ [0x61], msgNewData 4 opBin ⟨0, 0⟩ [0x62]] ++
      [msgNewData 3 opText ⟨0, 0⟩ [0x63]] from henc)
  obtain ⟨e, rfl, he⟩ := List.map_eq_singleton_iff.1 hlast
  have hseq := (seq_counts smallConf _ _ _ _ s hr before [] e.1 e.2 hsplit).1
  rw [he, hbefore] at hseq
  exact ⟨s, e.2, hr, by rw [hsplit, ← he]; simp, hseq (by decide)⟩

/-! ### More sources than entries -/

/-- the messages, one after the other -/
def handleAll (s : AggSys) (ms : List Msg) : AggSys := ms.foldl (fun s m => (aggOnMessage s m).2) s

theorem tallied_all (h : Tallied [] s.agg.src) (ms : List Msg) :
    Tallied ms (handleAll s ms).agg.src := by
  induction ms using List.reverseRecOn with
  | nil => exact h
  | append_singleton ms m ih =>
    unfold handleAll at ih ⊢
    rw [List.foldl_append]
    exact (tallied_message ih m).1

/-- one message from each of 256 sources -/
def crowd : List Msg := (List.range AGG_MAX_SOURCES).map fun i => msgNewData i opText ⟨0, 0⟩ []

theorem crowd_ids : crowd.map Msg.srcId = List.range AGG_MAX_SOURCES := by
  unfold crowd
  rw [List.map_map]
  exact List.map_id _

theorem crowd_sources : sourcesOf crowd = List.range AGG_MAX_SOURCES := by
  unfold sourcesOf
  rw [crowd_ids, (List.nodup_reverse.2 List.nodup_range).dedup, List.reverse_reverse]

/-- **The 257th source is not numbered**: its first message carries 0. -/
theorem late_source_unnumbered : ¬ ∀ (ms : List Msg) (m : Msg), (∀ x ∈ ms ++ [m], x.kind = .MSG_DATA) →
    (aggOnMessage (handleAll threeStart ms) m).1.body = frameOf (countOf ms m.srcId + 1) m := by
  intro h
  have hdata : ∀ x ∈ crowd ++ [msgNewData 256 opText ⟨0, 0⟩ []], x.kind = .MSG_DATA := by
    intro x hx
    rcases List.mem_append.1 hx with hx | hx
    · obtain ⟨i, -, rfl⟩ := List.mem_map.1 hx
      rfl
    · rw [List.mem_singleton.1 hx]
      rfl
  have hnew : (msgNewData 256 opText ⟨0, 0⟩ []).srcId ∉ sourcesOf crowd := by
    rw [crowd_sources, List.mem_range]
    exact lt_irrefl 256
  have hfull : firstSources (crowd ++ [msgNewData 256 opText ⟨0, 0⟩ []]) = firstSources crowd :=
    firstSources_full (by rw [crowd_sources, List.length_range])
  have hzero : numberAfter crowd (msgNewData 256 opText ⟨0, 0⟩ []) = 0 := by
    have hout : (msgNewData 256 opText ⟨0, 0⟩ []).srcId ∉ firstSources crowd :=
      fun hmem => hnew (List.mem_of_mem_take hmem)
    unfold numberAfter
    rw [hfull, if_neg hout]
  have htable : Tallied crowd (handleAll threeStart crowd).agg.src := tallied_all (s := threeStart) rfl crowd
  have hlate := h crowd (msgNewData 256 opText ⟨0, 0⟩ []) hdata
  rw [aggOnMessage_body, (tallied_message htable _).2, hzero,
    countOf_eq_zero fun hmem => hnew (mem_sourcesOf.2 hmem)] at hlate
  exact absurd hlate (by decide)

end WsServer
