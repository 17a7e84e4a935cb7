/-
`src/queue.c` with its nodes: the chain from `head`, the `tail` pointer, `size` and the shutdown flag.

Any number of threads call the operations; each holds the mutex for its whole body, so it is one step. A `pop` that finds
nothing waits and tries again, which is another step. `malloc` returns a node that is not in use, maybe one that was
freed before.

- `Holds`: the representation invariant, with the items in the chain.
- `push_holds`, `popHeadLocked_holds`: the operations on nodes are those of `Conn/Queue.lean` on items.
- `queue_history`: in every history, what was taken is the front of what was pushed.
-/
import Mathlib
import WsServer.Core.Chain
import WsServer.Core.Machine
import WsServer.Conn.Queue

namespace WsServer.Nodes

open Chain Machine

/-- `Queue_t`, and the memory of the nodes (`QNode_t`) -/
structure NodeQueue (A α : Type) where
  head : Option A
  tail : Option A
  size : ℕ
  shutdown : Bool
  next : A → Option A
  item : A → α

variable {A α : Type}

def createQueue (next : A → Option A) (item : A → α) : NodeQueue A α := ⟨none, none, 0, false, next, item⟩

/-- `n` is what `malloc` returned -/
def push [DecidableEq A] (q : NodeQueue A α) (n : A) (item : α) : NodeQueue A α :=
  let q := { q with item := Function.update q.item n item, next := Function.update q.next n none }
  let q :=
    match q.tail with
    | some t => { q with next := Function.update q.next t (some n) }
    | none => { q with head := some n }
  { q with tail := some n, size := q.size + 1 }

def shutdownQueue (q : NodeQueue A α) : NodeQueue A α := { q with shutdown := true }

def queueIsShutdown (q : NodeQueue A α) : Bool := q.shutdown

def queueSize (q : NodeQueue A α) : ℕ := q.size

/-- the node it frees, its item and the queue; `none` where `head` is NULL and is read -/
def popHeadLocked (q : NodeQueue A α) : Option (A × α × NodeQueue A α) :=
  match q.head with
  | none => none
  | some n =>
    some (n, q.item n,
      { q with head := q.next n, tail := if q.next n = none then none else q.tail, size := q.size - 1 })

/-- how a call to `pop` or `trypop` ends, or that it waits -/
inductive Popped (A α : Type) where
  | blocked
  | failed
  | crashed
  | item (n : A) (x : α) (q : NodeQueue A α)

def pop (q : NodeQueue A α) : Popped A α :=
  if q.size = 0 then
    if q.shutdown then .failed else .blocked
  else
    match popHeadLocked q with
    | none => .crashed
    | some (n, x, q') => .item n x q'

def trypop (q : NodeQueue A α) : Popped A α :=
  if q.size = 0 then .failed
  else
    match popHeadLocked q with
    | none => .crashed
    | some (n, x, q') => .item n x q'

/-! ## What the nodes hold -/

/-- the nodes of the chain are `cells`, their items those of `abs` -/
structure NodeQueue.Holds (q : NodeQueue A α) (cells : List A) (abs : Queue α) : Prop where
  chained : Chained q.next q.head q.tail cells
  size : q.size = cells.length
  items : abs.items = cells.map q.item
  shutdown : abs.shutdown = q.shutdown

variable {q : NodeQueue A α} {cells : List A} {abs : Queue α}

theorem createQueue_holds (next : A → Option A) (item : A → α) : (createQueue next item).Holds [] WsServer.createQueue :=
  ⟨.empty, rfl, rfl, rfl⟩

theorem shutdownQueue_holds (h : q.Holds cells abs) : (shutdownQueue q).Holds cells (WsServer.shutdownQueue abs) :=
  ⟨h.chained, h.size, h.items, rfl⟩

theorem queueSize_holds (h : q.Holds cells abs) : queueSize q = WsServer.queueSize abs := by
  unfold queueSize WsServer.queueSize
  rw [h.size, h.items, List.length_map]

/-- the new node stands behind the last one, or is both ends -/
theorem push_chained [DecidableEq A] (h : Chained q.next q.head q.tail cells) {n : A} (hn : n ∉ cells) (x : α) :
    Chained (push q n x).next (push q n x).head (push q n x).tail (cells ++ [n]) := by
  have hlink := h.link hn
  unfold push
  dsimp only
  cases htail : q.tail with
  | none =>
    have hhead : q.head = none := h.none_iff.2 htail
    rw [htail, hhead] at hlink
    exact hlink
  | some t =>
    have hhead : q.head ≠ none := fun he => absurd (h.none_iff.1 he) (htail ▸ Option.some_ne_none t)
    obtain ⟨c, hc⟩ := Option.ne_none_iff_exists'.1 hhead
    rw [htail, hc] at hlink
    rw [hc]
    exact hlink

theorem push_rest [DecidableEq A] (q : NodeQueue A α) (n : A) (x : α) :
    (push q n x).size = q.size + 1 ∧ (push q n x).shutdown = q.shutdown ∧
      (push q n x).item = Function.update q.item n x := by
  unfold push
  dsimp only
  cases q.tail with
  | none => exact ⟨rfl, rfl, rfl⟩
  | some t => exact ⟨rfl, rfl, rfl⟩

/-- **`push` on nodes is `push` on items.** -/
theorem push_holds [DecidableEq A] (h : q.Holds cells abs) {n : A} (hn : n ∉ cells) (x : α) :
    (push q n x).Holds (cells ++ [n]) (WsServer.push abs x) := by
  obtain ⟨hsize, hshut, hitem⟩ := push_rest q n x
  refine ⟨push_chained h.chained hn x, ?_, ?_, ?_⟩
  · rw [hsize, h.size, List.length_append]
    rfl
  · rw [push_items, h.items, hitem, List.map_append]
    congr 1
    · apply List.map_congr_left
      intro c hc
      refine (Function.update_of_ne ?_ _ _).symm
      rintro rfl
      exact hn hc
    · rw [List.map_singleton, Function.update_self]
  · rw [push_shutdown, h.shutdown, hshut]

/-- **`popHeadLocked` takes the first item**, where there is one. -/
theorem popHeadLocked_holds {n : A} {rest : List A} (h : q.Holds (n :: rest) abs) :
    ∃ q' abs', popHeadLocked q = some (n, q.item n, q') ∧ WsServer.trypop abs = some (q.item n, abs') ∧
      q'.Holds rest abs' ∧ q'.item = q.item := by
  have hhead : q.head = some n := h.chained.follows.head_eq
  have hchained := h.chained
  rw [hhead] at hchained
  obtain ⟨ds, hcells, hrest⟩ := hchained.unlink
  obtain ⟨-, rfl⟩ := List.cons.inj hcells
  have hsize := h.size
  refine ⟨{ q with head := q.next n, tail := if q.next n = none then none else q.tail, size := q.size - 1 },
    { abs with items := rest.map q.item }, ?_, ?_, ⟨hrest, ?_, rfl, h.shutdown⟩, rfl⟩
  · unfold popHeadLocked
    rw [hhead]
  · exact trypop_eq_some.2 ⟨h.items, rfl⟩
  · dsimp only
    rw [hsize]
    rfl

/-- the calls that take an item, on nodes and on items -/
theorem pop_holds (h : q.Holds cells abs) :
    (cells = [] ∧ abs.items = [] ∧ pop q = (if q.shutdown then .failed else .blocked) ∧ trypop q = .failed) ∨
      ∃ n rest q' abs', cells = n :: rest ∧ pop q = .item n (q.item n) q' ∧ trypop q = .item n (q.item n) q' ∧
        WsServer.trypop abs = some (q.item n, abs') ∧ q'.Holds rest abs' ∧ q'.item = q.item := by
  unfold pop trypop
  cases cells with
  | nil =>
    have hsize : q.size = 0 := h.size
    rw [if_pos hsize, if_pos hsize]
    exact .inl ⟨rfl, h.items, rfl, rfl⟩
  | cons n rest =>
    have hsize : q.size ≠ 0 := by
      rw [h.size]
      exact Nat.succ_ne_zero _
    obtain ⟨q', abs', hpop, habs, hholds, hitem⟩ := popHeadLocked_holds h
    rw [if_neg hsize, if_neg hsize, hpop]
    exact .inr ⟨n, rest, q', abs', rfl, rfl, rfl, habs, hholds, hitem⟩

/-! ## Histories -/

inductive Call (A α : Type) where
  | push (n : A) (item : α)
  | pop
  | trypop
  | shutdownQueue
deriving DecidableEq, Repr

inductive Event (α : Type) where
  | pushed (x : α)
  | taken (x : α)
  | popFailed
  | trypopFailed
  | shutDown
  | crashed
deriving DecidableEq, Repr

/-- a queue with the nodes in use and what the threads `T` did to it -/
structure History (T A α : Type) where
  q : NodeQueue A α
  live : List A
  log : List (T × Event α)

variable {T : Type}

def History.start (next : A → Option A) (item : A → α) : History T A α := ⟨createQueue next item, [], []⟩

def History.logged (s : History T A α) (t : T) (e : Event α) : History T A α := { s with log := s.log ++ [(t, e)] }

/-- what a call to `pop` or `trypop` leaves; a thread that waits leaves nothing -/
def History.popped [DecidableEq A] (s : History T A α) (t : T) (fails : Event α) : Popped A α → History T A α
  | .blocked => s
  | .failed => s.logged t fails
  | .crashed => s.logged t .crashed
  | .item n x q => { q := q, live := s.live.erase n, log := s.log ++ [(t, .taken x)] }

/-- a thread makes a call -/
def step [DecidableEq A] (s : History T A α) : T × Call A α → Option (History T A α)
  | (t, .push n x) =>
    if n ∈ s.live then none else some { q := push s.q n x, live := n :: s.live, log := s.log ++ [(t, .pushed x)] }
  | (t, .pop) => some (s.popped t .popFailed (pop s.q))
  | (t, .trypop) => some (s.popped t .trypopFailed (trypop s.q))
  | (t, .shutdownQueue) => some { s with q := shutdownQueue s.q, log := s.log ++ [(t, .shutDown)] }

def Event.pushedItem : Event α → Option α
  | .pushed x => some x
  | _ => none

def Event.takenItem : Event α → Option α
  | .taken x => some x
  | _ => none

/-- the items pushed, in order -/
def History.pushes (s : History T A α) : List α := s.log.filterMap fun e => e.2.pushedItem

/-- the items successful calls returned, in order -/
def History.pops (s : History T A α) : List α := s.log.filterMap fun e => e.2.takenItem

/-- what every history keeps -/
structure History.Kept (s : History T A α) (cells : List A) (abs : Queue α) : Prop where
  holds : s.q.Holds cells abs
  live : ∀ n ∈ cells, n ∈ s.live
  items : s.pushes = s.pops ++ abs.items
  shutdown : s.q.shutdown = true ↔ ∃ t, (t, Event.shutDown) ∈ s.log
  sound : ∀ t, (t, Event.crashed) ∉ s.log

variable {s s' : History T A α}

/-- one event more, and a queue that fits it -/
theorem History.Kept.extend (h : s.Kept cells abs) {cells' : List A} {abs' : Queue α} {t : T} {e : Event α}
    (hlog : s'.log = s.log ++ [(t, e)]) (hholds : s'.q.Holds cells' abs') (hlive : ∀ n ∈ cells', n ∈ s'.live)
    (hitems : abs.items ++ e.pushedItem.toList = e.takenItem.toList ++ abs'.items)
    (hshut : s'.q.shutdown = true ↔ s.q.shutdown = true ∨ e = .shutDown) (hcrash : e ≠ .crashed) :
    s'.Kept cells' abs' := by
  have hpushes : s'.pushes = s.pushes ++ e.pushedItem.toList := by
    unfold History.pushes
    rw [hlog, List.filterMap_append]
    cases e <;> rfl
  have hpops : s'.pops = s.pops ++ e.takenItem.toList := by
    unfold History.pops
    rw [hlog, List.filterMap_append]
    cases e <;> rfl
  refine ⟨hholds, hlive, ?_, ?_, ?_⟩
  · rw [hpushes, hpops, h.items, List.append_assoc, List.append_assoc, hitems]
  · rw [hshut, h.shutdown, hlog]
    constructor
    · rintro (⟨t', hm⟩ | rfl)
      · exact ⟨t', List.mem_append_left _ hm⟩
      · exact ⟨t, List.mem_append_right _ List.mem_cons_self⟩
    · rintro ⟨t', hm⟩
      rcases List.mem_append.1 hm with hm | hm
      · exact .inl ⟨t', hm⟩
      · exact .inr (Prod.mk.inj (List.mem_singleton.1 hm)).2.symm
  · intro t' hm
    rw [hlog] at hm
    rcases List.mem_append.1 hm with hm | hm
    · exact h.sound t' hm
    · exact hcrash (Prod.mk.inj (List.mem_singleton.1 hm)).2.symm

/-- a call to `pop` or `trypop`: it takes the first item, or fails where there is none, or waits -/
theorem History.Kept.popped [DecidableEq A] (h : s.Kept cells abs) (t : T) {fails : Event α}
    (hfails : fails = .popFailed ∨ fails = .trypopFailed) {r : Popped A α} (hr : r = pop s.q ∨ r = trypop s.q) :
    ∃ cells' abs', (s.popped t fails r).Kept cells' abs' := by
  rcases pop_holds h.holds with ⟨-, -, hpop, htry⟩ | ⟨n, rest, q', abs', rfl, hpop, htry, habs, hholds, hitem⟩
  · have hnone : r = .failed ∨ r = .blocked := by
      rcases hr with rfl | rfl
      · rw [hpop]
        split_ifs
        · exact .inl rfl
        · exact .inr rfl
      · exact .inl htry
    refine ⟨cells, abs, ?_⟩
    rcases hnone with rfl | rfl
    · rcases hfails with rfl | rfl
      · exact h.extend rfl h.holds h.live (List.append_nil _) (by simp [History.popped, History.logged]) (by simp)
      · exact h.extend rfl h.holds h.live (List.append_nil _) (by simp [History.popped, History.logged]) (by simp)
    · exact h
  · have hsome : r = .item n (s.q.item n) q' := by
      rcases hr with rfl | rfl
      · exact hpop
      · exact htry
    subst hsome
    obtain ⟨hfront, hshut⟩ := trypop_eq_some.1 habs
    refine ⟨rest, abs', h.extend rfl hholds ?_ ?_ ?_ (by simp)⟩
    · intro c hc
      -- the node that is freed is not in the chain any more
      have hne : c ≠ n := by
        rintro rfl
        exact (List.nodup_cons.1 h.holds.chained.follows.nodup).1 hc
      exact (List.mem_erase_of_ne hne).2 (h.live c (List.mem_cons_of_mem n hc))
    · rw [hfront]
      exact List.append_nil _
    · have hsame : q'.shutdown = s.q.shutdown := by
        rw [← hholds.shutdown, hshut, h.holds.shutdown]
      simp [History.popped, hsame]

theorem start_kept (next : A → Option A) (item : A → α) :
    (History.start next item : History T A α).Kept [] WsServer.createQueue where
  holds := createQueue_holds next item
  live := List.forall_mem_nil _
  items := rfl
  shutdown := by simp [History.start, createQueue]
  sound := fun t => List.not_mem_nil

theorem step_kept [DecidableEq A] (h : s.Kept cells abs) (l : T × Call A α) (hstep : step s l = some s') :
    ∃ cells' abs', s'.Kept cells' abs' := by
  obtain ⟨t, call⟩ := l
  cases call with
  | push n x =>
    unfold step at hstep
    dsimp only at hstep
    split_ifs at hstep with hlive
    obtain rfl := Option.some.inj hstep
    have hn : n ∉ cells := fun hc => hlive (h.live n hc)
    refine ⟨cells ++ [n], WsServer.push abs x, h.extend rfl (push_holds h.holds hn x) ?_ rfl ?_ (by simp)⟩
    · intro c hc
      rcases List.mem_append.1 hc with hc | hc
      · exact List.mem_cons_of_mem n (h.live c hc)
      · rw [List.mem_singleton.1 hc]
        exact List.mem_cons_self
    · simp [(push_rest s.q n x).2.1]
  | pop =>
    obtain rfl := Option.some.inj hstep
    exact h.popped t (.inl rfl) (.inl rfl)
  | trypop =>
    obtain rfl := Option.some.inj hstep
    exact h.popped t (.inr rfl) (.inr rfl)
  | shutdownQueue =>
    obtain rfl := Option.some.inj hstep
    refine ⟨cells, WsServer.shutdownQueue abs, h.extend rfl (shutdownQueue_holds h.holds) h.live ?_ ?_ (by simp)⟩
    · exact List.append_nil _
    · simp [shutdownQueue]

theorem reach_kept [DecidableEq A] {next : A → Option A} {item : A → α} (h : Reachable step (History.start next item) s) :
    ∃ cells abs, History.Kept (T := T) s cells abs := by
  refine @Reach.invariant _ _ _ _ _ (fun s => ∃ cells abs, s.Kept cells abs) ⟨[], _, start_kept next item⟩ ?_ s h
  rintro s l s' ⟨cells, abs, hk⟩ - hstep
  exact step_kept hk l hstep

/-- no call reads through a head that is NULL -/
theorem never_crashes [DecidableEq A] {next : A → Option A} {item : A → α}
    (h : Reachable step (History.start next item) s) (t : T) : (t, Event.crashed) ∉ s.log := by
  obtain ⟨cells, abs, hk⟩ := reach_kept h
  exact hk.sound t

/-- **First in, first out, through the nodes.** In every history of every set of threads: the items taken are the first
of the items pushed; the chain from `head` has as many nodes as `size` says, which is what was pushed and not taken,
and `tail` is its last; `head` is NULL exactly when `tail` is; and `pop` fails only behind a shutdown that finds
everything taken. -/
theorem queue_history [DecidableEq A] {next : A → Option A} {item : A → α}
    (h : Reachable step (History.start next item : History T A α) s) :
    s.pops <+: s.pushes ∧
      (∃ cells, Follows s.q.next s.q.head cells ∧ cells.length = s.q.size ∧ s.q.tail = cells.getLast?) ∧
      s.pops.length + s.q.size = s.pushes.length ∧
      (s.q.head = none ↔ s.q.tail = none) ∧
      (pop s.q = .failed → (∃ t, (t, Event.shutDown) ∈ s.log) ∧ s.pops = s.pushes) := by
  obtain ⟨cells, abs, hk⟩ := reach_kept h
  have hchained := hk.holds.chained
  refine ⟨⟨abs.items, hk.items.symm⟩, ⟨cells, hchained.follows, hk.holds.size.symm, hchained.last⟩, ?_,
    hchained.none_iff, ?_⟩
  · rw [hk.items, List.length_append, hk.holds.items, List.length_map, hk.holds.size]
  · intro hfail
    rcases pop_holds hk.holds with ⟨-, hempty, hpop, -⟩ | ⟨n, rest, q', abs', -, hpop, -⟩
    · rw [hfail] at hpop
      have hshut : s.q.shutdown = true := by
        by_contra hno
        rw [if_neg hno] at hpop
        cases hpop
      refine ⟨hk.shutdown.1 hshut, ?_⟩
      rw [hk.items, hempty, List.append_nil]
    · rw [hfail] at hpop
      cases hpop

/-- two threads push; the freed node comes back; behind the shutdown both items are taken, and then `pop` fails -/
theorem queue_history_two :
    ∃ s, Reachable step (History.start (fun _ => none) (fun _ => false) : History ℕ ℕ Bool) s ∧
      s.pops = [true, false] ∧ s.pops <+: s.pushes ∧
      (∃ cells, Follows s.q.next s.q.head cells ∧ cells.length = s.q.size ∧ s.q.tail = cells.getLast?) ∧
      s.pops.length + s.q.size = s.pushes.length ∧
      (s.q.head = none ↔ s.q.tail = none) ∧
      (pop s.q = .failed → (∃ t, (t, Event.shutDown) ∈ s.log) ∧ s.pops = s.pushes) := by
  obtain ⟨s, hreach, hpops⟩ := Reachable.of_check step (History.start (fun _ => none) (fun _ => false) : History ℕ ℕ Bool)
    [(0, Call.push 7 true), (2, .trypop), (1, .push 7 false), (0, .shutdownQueue), (2, .pop), (1, .pop)]
    (fun s => decide (s.pops = [true, false])) (by decide)
  exact ⟨s, hreach, of_decide_eq_true hpops, queue_history hreach⟩

end WsServer.Nodes
