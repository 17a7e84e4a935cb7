/-
`src/queue.c` with its mutex and its condition variable.

The functions are cut into their statements: between lock and unlock a thread does one statement at a time, and other
threads go on in between wherever they need no mutex. `pop` waits in a loop around `pthread_cond_wait`; `push` signals and
`shutdownQueue` broadcasts before they unlock. What follows the unlock (the eventfd) is `Server/Wakeup.lean`'s.

A node is initialised where it is linked in; until then nobody else can see it. `malloc` gives nodes that no call has in its
hands and that are not in the chain (`Fresh`); one that was freed may come again.

- `queue_calls_atomic`: what the threads do to the nodes is a serial run of the operations of `Conn/Queue.lean`.
- `no_wakeup_lost`: whenever the mutex is free and somebody sleeps in `pop`, the queue is open, and as many threads as it
  has items are awake on their way back into `pop`.
- `queue_never_stuck`: no deadlock.
-/
import Mathlib
import WsServer.Core.Monitor
import WsServer.Conn.Nodes

namespace WsServer.Nodes

open Chain Machine Monitor

/-- the functions of `queue.h`; `n` is what `malloc` returned -/
inductive QueueFn (A α : Type) where
  | push (n : A) (item : α)
  | pop
  | trypop
  | shutdownQueue
  | queueSize
  | queueIsShutdown
deriving DecidableEq, Repr

/-- what they return -/
inductive Outcome (α : Type) where
  | ok
  | failed
  | crashed
  | item (x : α)
  | size (n : ℕ)
  | flag (b : Bool)
deriving DecidableEq, Repr

variable {A α T : Type}

/-! ## The statements -/

/-- `n->item = item; n->next = NULL`, and the link to it -/
def linkNode [DecidableEq A] (n : A) (item : α) (q : NodeQueue A α) : NodeQueue A α :=
  let q := { q with item := Function.update q.item n item, next := Function.update q.next n none }
  match q.tail with
  | some t => { q with next := Function.update q.next t (some n) }
  | none => { q with head := some n }

def setTail (n : A) (q : NodeQueue A α) : NodeQueue A α := { q with tail := some n }

def countUp (q : NodeQueue A α) : NodeQueue A α := { q with size := q.size + 1 }

def advanceHead (n : A) (q : NodeQueue A α) : NodeQueue A α := { q with head := q.next n }

def dropTail (q : NodeQueue A α) : NodeQueue A α := { q with tail := if q.head = none then none else q.tail }

def countDown (q : NodeQueue A α) : NodeQueue A α := { q with size := q.size - 1 }

/-- what follows the test of `size` in `pop` and `trypop` -/
def takeBody (q : NodeQueue A α) : List (NodeQueue A α → NodeQueue A α) :=
  if q.size = 0 then []
  else
    match q.head with
    | none => []
    | some n => [advanceHead n, dropTail, countDown]

def takeRet (q : NodeQueue A α) : Outcome α :=
  if q.size = 0 then .failed
  else
    match q.head with
    | none => .crashed
    | some n => .item (q.item n)

/-- the queue behind its mutex -/
def nodeObject [DecidableEq A] : Object (NodeQueue A α) (QueueFn A α) (Outcome α) where
  waits
    | .pop, q => q.size = 0 ∧ ¬ q.shutdown
    | _, _ => false
  body
    | .push n x, _ => [linkNode n x, setTail n, countUp]
    | .pop, q => takeBody q
    | .trypop, q => takeBody q
    | .shutdownQueue, _ => [Nodes.shutdownQueue]
    | .queueSize, _ => []
    | .queueIsShutdown, _ => []
  ret
    | .push _ _, _ => .ok
    | .pop, q => takeRet q
    | .trypop, q => takeRet q
    | .shutdownQueue, _ => .ok
    | .queueSize, q => .size (Nodes.queueSize q)
    | .queueIsShutdown, q => .flag (Nodes.queueIsShutdown q)
  wakes
    | .push _ _ => .one
    | .shutdownQueue => .all
    | _ => .nobody

/-- a call to `pop` of `Conn/Queue.lean` -/
def popBody : PopRc α → List (Queue α → Queue α)
  | .item _ q => [fun _ => q]
  | _ => []

def popRet : PopRc α → Outcome α
  | .item x _ => .item x
  | _ => .failed

/-- the operations of `Conn/Queue.lean`, each in one step -/
def itemObject : Object (Queue α) (QueueFn A α) (Outcome α) where
  waits
    | .pop, q => match WsServer.pop q with
      | .blocked => true
      | _ => false
    | _, _ => false
  body
    | .push _ x, _ => [fun q => WsServer.push q x]
    | .pop, q => popBody (WsServer.pop q)
    | .trypop, q => (WsServer.trypop q).elim [] fun r => [fun _ => r.2]
    | .shutdownQueue, _ => [WsServer.shutdownQueue]
    | .queueSize, _ => []
    | .queueIsShutdown, _ => []
  ret
    | .push _ _, _ => .ok
    | .pop, q => popRet (WsServer.pop q)
    | .trypop, q => (WsServer.trypop q).elim .failed fun r => .item r.1
    | .shutdownQueue, _ => .ok
    | .queueSize, q => .size (WsServer.queueSize q)
    | .queueIsShutdown, q => .flag (WsServer.queueIsShutdown q)
  wakes _ := .nobody

/-! ## A call as a whole -/

variable [DecidableEq A] {q : NodeQueue A α} {cells : List A} {abs : Queue α}

theorem push_after (n : A) (x : α) (q : NodeQueue A α) : nodeObject.after (.push n x) q = push q n x := by
  obtain ⟨head, tail, size, sd, next, item⟩ := q
  cases tail <;> rfl

omit [DecidableEq A] in
/-- what follows the test of `size`, on nodes and on items -/
theorem take_holds (h : q.Holds cells abs) :
    (q.size = 0 ∧ WsServer.trypop abs = none ∧ takeRet q = .failed ∧ runAll (takeBody q) q = q) ∨
      ∃ n x rest abs', q.size ≠ 0 ∧ cells = n :: rest ∧ WsServer.trypop abs = some (x, abs') ∧ takeRet q = .item x ∧
        (runAll (takeBody q) q).Holds rest abs' := by
  unfold takeRet takeBody
  cases cells with
  | nil =>
    have hsize : q.size = 0 := h.size
    rw [if_pos hsize, if_pos hsize]
    exact .inl ⟨hsize, trypop_eq_none.2 h.items, rfl, rfl⟩
  | cons n rest =>
    have hsize : q.size ≠ 0 := by
      rw [h.size]
      exact Nat.succ_ne_zero _
    have hhead : q.head = some n := h.chained.follows.head_eq
    obtain ⟨q', abs', hpop, habs, hrest, -⟩ := popHeadLocked_holds h
    unfold popHeadLocked at hpop
    rw [hhead] at hpop
    obtain ⟨-, hq⟩ := Prod.mk.inj (Option.some.inj hpop)
    obtain ⟨-, rfl⟩ := Prod.mk.inj hq
    rw [if_neg hsize, if_neg hsize, hhead]
    exact .inr ⟨n, q.item n, rest, abs', hsize, rfl, habs, rfl, hrest⟩

/-- `pop` of `Conn/Queue.lean` takes what `trypop` takes -/
theorem pop_of_trypop {x : α} {abs' : Queue α} (h : WsServer.trypop abs = some (x, abs')) :
    WsServer.pop abs = .item x abs' := by
  obtain ⟨items, sd⟩ := abs
  cases items with
  | nil => cases h
  | cons y ys =>
    obtain ⟨rfl, rfl⟩ := Prod.mk.inj (Option.some.inj h)
    rfl

theorem pop_empty (h : WsServer.trypop abs = none) :
    WsServer.pop abs = if abs.shutdown then .failed else .blocked := by
  unfold WsServer.pop
  rw [trypop_eq_none.1 h]

/-- what a call makes of the nodes -/
structure Matches (k : QueueFn A α) (q : NodeQueue A α) (cells : List A) (abs : Queue α) (cells' : List A) : Prop where
  ret : itemObject.ret k abs = nodeObject.ret k q
  holds : (nodeObject.after k q).Holds cells' (itemObject.after k abs)
  nodes : ∀ n ∈ cells', n ∈ cells ∨ ∃ x, k = .push n x

/-- what a call makes of the nodes is what it makes of the items, and it returns the same -/
theorem after_holds (h : q.Holds cells abs) (k : QueueFn A α) (hnode : ∀ n x, k = .push n x → n ∉ cells) :
    itemObject.waits k abs = nodeObject.waits k q ∧ (nodeObject.waits k q = false → ∃ cells', Matches k q cells abs cells') := by
  cases k with
  | push n x =>
    refine ⟨rfl, fun _ => ⟨cells ++ [n], rfl, ?_, fun m hm => ?_⟩⟩
    · rw [push_after]
      exact push_holds h (hnode n x rfl) x
    · rcases List.mem_append.1 hm with hm | hm
      · exact .inl hm
      · exact .inr ⟨x, by rw [List.mem_singleton.1 hm]⟩
  | pop =>
    rcases take_holds h with ⟨hsize, htry, hret, hafter⟩ | ⟨n, x, rest, abs', hsize, rfl, htry, hret, hrest⟩
    · have hpop := pop_empty htry
      rw [h.shutdown] at hpop
      cases hsd : q.shutdown with
      | false =>
        rw [hsd] at hpop
        refine ⟨?_, fun hw => ?_⟩
        · simp [itemObject, nodeObject, hpop, hsize, hsd]
        · simp [nodeObject, hsize, hsd] at hw
      | true =>
        rw [hsd] at hpop
        refine ⟨?_, fun _ => ⟨cells, ?_, ?_, fun m hm => .inl hm⟩⟩
        · simp [itemObject, nodeObject, hpop, hsd]
        · show popRet (WsServer.pop abs) = takeRet q
          rw [hpop, hret]
          rfl
        · show (runAll (takeBody q) q).Holds cells (runAll (popBody (WsServer.pop abs)) abs)
          rw [hpop, hafter]
          exact h
    · have hpop := pop_of_trypop htry
      refine ⟨?_, fun _ => ⟨rest, ?_, ?_, fun m hm => .inl (List.mem_cons_of_mem _ hm)⟩⟩
      · simp [itemObject, nodeObject, hpop, hsize]
      · show popRet (WsServer.pop abs) = takeRet q
        rw [hpop, hret]
        rfl
      · show (runAll (takeBody q) q).Holds rest (runAll (popBody (WsServer.pop abs)) abs)
        rw [hpop]
        exact hrest
  | trypop =>
    refine ⟨rfl, fun _ => ?_⟩
    rcases take_holds h with ⟨-, htry, hret, hafter⟩ | ⟨n, x, rest, abs', -, rfl, htry, hret, hrest⟩
    · refine ⟨cells, ?_, ?_, fun m hm => .inl hm⟩
      · show (WsServer.trypop abs).elim .failed (fun r => .item r.1) = takeRet q
        rw [htry, hret]
        rfl
      · show (runAll (takeBody q) q).Holds cells (runAll ((WsServer.trypop abs).elim [] fun r => [fun _ => r.2]) abs)
        rw [htry, hafter]
        exact h
    · refine ⟨rest, ?_, ?_, fun m hm => .inl (List.mem_cons_of_mem _ hm)⟩
      · show (WsServer.trypop abs).elim .failed (fun r => .item r.1) = takeRet q
        rw [htry, hret]
        rfl
      · show (runAll (takeBody q) q).Holds rest (runAll ((WsServer.trypop abs).elim [] fun r => [fun _ => r.2]) abs)
        rw [htry]
        exact hrest
  | shutdownQueue => exact ⟨rfl, fun _ => ⟨cells, rfl, shutdownQueue_holds h, fun n hn => .inl hn⟩⟩
  | queueSize => exact ⟨rfl, fun _ => ⟨cells, congrArg Outcome.size (queueSize_holds h).symm, h, fun n hn => .inl hn⟩⟩
  | queueIsShutdown => exact ⟨rfl, fun _ => ⟨cells, congrArg Outcome.flag h.shutdown, h, fun n hn => .inl hn⟩⟩

/-! ## The threads -/

variable [DecidableEq T] [Fintype T]

/-- threads at the calls of one queue -/
abbrev Threads (T A α : Type) := Monitor.State T (NodeQueue A α) (QueueFn A α) (Outcome α)

/-- the node a call brings along -/
def QueueFn.node : QueueFn A α → Option A
  | .push n _ => some n
  | _ => none

/-- the node `malloc` returned is not in use -/
def Fresh (s : Threads T A α) : Act T (QueueFn A α) → Prop
  | .call _ k => ∀ n ∈ k.node, (∀ t, (s.stage t).call.bind QueueFn.node ≠ some n) ∧
      n ∉ walk s.base.next s.base.size s.base.head
  | _ => True

instance (s : Threads T A α) (a : Act T (QueueFn A α)) : Decidable (Fresh s a) :=
  match a with
  | .call _ k => inferInstanceAs (Decidable (∀ n ∈ k.node, (∀ t, (s.stage t).call.bind QueueFn.node ≠ some n) ∧
      n ∉ walk s.base.next s.base.size s.base.head))
  | .lock _ => .isTrue trivial
  | .work _ => .isTrue trivial
  | .signal _ _ => .isTrue trivial
  | .spurious _ => .isTrue trivial

/-- the threads at their start, on a queue `createQueue` made -/
def Threads.start (next : A → Option A) (item : A → α) : Threads T A α := State.start (createQueue next item)

/-- what every run keeps: the calls done so far have made of the nodes what a serial run makes of the items, and the nodes
of the others are not in the chain -/
structure Threads.Kept (s : Threads T A α) (cells : List A) (abs : Queue α) : Prop where
  holds : s.base.Holds cells abs
  serial : itemObject.Serial WsServer.createQueue s.log abs
  waiting : ∀ t n, (s.stage t).call.bind QueueFn.node = some n → n ∉ cells
  distinct : ∀ t u n, (s.stage t).call.bind QueueFn.node = some n → (s.stage u).call.bind QueueFn.node = some n → t = u

variable {s s' : Threads T A α}

omit [DecidableEq A] [DecidableEq T] [Fintype T] in
theorem bind_node {t : T} {n : A} (h : (s.stage t).call.bind QueueFn.node = some n) :
    ∃ k, (s.stage t).call = some k ∧ k.node = some n :=
  Option.bind_eq_some_iff.1 h

omit [DecidableEq A] [DecidableEq T] [Fintype T] in
/-- no call is done -/
theorem Threads.Kept.idle {a : Act T (QueueFn A α)} (h : Threads.Kept s cells abs) (hfresh : Fresh s a) (hbase : s'.base = s.base)
    (hlog : s'.log = s.log)
    (hcall : ∀ t k, (s'.stage t).call = some k → (s.stage t).call = some k ∨ a = .call t k) : Threads.Kept s' cells abs := by
  have hcells : walk s.base.next s.base.size s.base.head = cells := by
    rw [h.holds.size]
    exact h.holds.chained.follows.walk_eq
  -- a node was there before, or comes with the call and is new
  have hnode : ∀ t n, (s'.stage t).call.bind QueueFn.node = some n → (s.stage t).call.bind QueueFn.node = some n ∨
      (∃ k, a = .call t k) ∧ (∀ u, (s.stage u).call.bind QueueFn.node ≠ some n) ∧ n ∉ cells := by
    intro t n ht
    obtain ⟨k, hk, hn⟩ := bind_node ht
    rcases hcall t k hk with hk | rfl
    · exact .inl (Option.bind_eq_some_iff.2 ⟨k, hk, hn⟩)
    · have hnew := hfresh n hn
      rw [hcells] at hnew
      exact .inr ⟨⟨k, rfl⟩, hnew⟩
  refine ⟨hbase ▸ h.holds, hlog ▸ h.serial, fun t n ht => ?_, fun t u n ht hu => ?_⟩
  · rcases hnode t n ht with ht | ⟨-, -, hn⟩
    · exact h.waiting t n ht
    · exact hn
  · rcases hnode t n ht with ht | ⟨⟨k, hk⟩, hnew, -⟩
    · rcases hnode u n hu with hu | ⟨-, hnew, -⟩
      · exact h.distinct t u n ht hu
      · exact absurd ht (hnew t)
    · rcases hnode u n hu with hu | ⟨⟨k', hk'⟩, -, -⟩
      · exact absurd hu (hnew u)
      · rw [hk] at hk'
        exact (Act.call.inj hk').1

omit [Fintype T] in
/-- a call is done -/
theorem Threads.Kept.done {q0 : NodeQueue A α} {t : T} {k : QueueFn A α} {r : Outcome α} (h : Threads.Kept s cells abs)
    (hs : Sound nodeObject q0 s) (hg : s.stage t = .running k r []) (hbase : s'.base = s.sh)
    (hlog : s'.log = s.log ++ [(t, k, r)]) (hstage : s'.stage = Function.update s.stage t (.waking k)) :
    ∃ cells' abs', Threads.Kept s' cells' abs' := by
  obtain ⟨hw, hr, hsh⟩ := hs.finished hg
  have hcall : ∀ n x, k = .push n x → (s.stage t).call.bind QueueFn.node = some n := by
    rintro n x rfl
    rw [hg]
    rfl
  obtain ⟨hwaits, hafter⟩ := after_holds h.holds k fun n x hk => h.waiting t n (hcall n x hk)
  obtain ⟨cells', hret, hholds, hcells⟩ := hafter hw
  have hself : (s'.stage t).call = none := by
    rw [hstage, Function.update_self]
    rfl
  have hother : ∀ u n, (s'.stage u).call.bind QueueFn.node = some n →
      u ≠ t ∧ (s.stage u).call.bind QueueFn.node = some n := by
    intro u n hu
    by_cases hut : u = t
    · rw [hut, hself] at hu
      cases hu
    · rw [hstage, Function.update_of_ne hut] at hu
      exact ⟨hut, hu⟩
  refine ⟨cells', itemObject.after k abs, ?_, ?_, fun u n hu hn => ?_, fun u v n hu hv => ?_⟩
  · rw [hbase, hsh]
    exact hholds
  · rw [hlog, hr, ← hret]
    exact h.serial.snoc t k (hwaits.trans hw)
  · obtain ⟨hut, hu⟩ := hother u n hu
    rcases hcells n hn with hn | ⟨x, hk⟩
    · exact h.waiting u n hu hn
    · exact hut (h.distinct u t n hu (hcall n x hk))
  · exact h.distinct u v n (hother u n hu).2 (hother v n hv).2

omit [DecidableEq A] [DecidableEq T] [Fintype T] in
theorem Threads.start_kept (next : A → Option A) (item : A → α) :
    Threads.Kept (Threads.start next item : Threads T A α) [] WsServer.createQueue where
  holds := createQueue_holds next item
  serial := .nil
  waiting t n ht := by cases ht
  distinct t u n ht := by cases ht

variable {next : A → Option A} {item : A → α}

theorem Threads.reach_kept (h : Reach (Monitor.step nodeObject) Fresh (Threads.start next item) s) :
    ∃ cells abs, Threads.Kept s cells abs := by
  refine h.invariant_of (P := Sound nodeObject (createQueue next item)) (Q := fun s => ∃ cells abs, Threads.Kept s cells abs)
    (fun s hr => reach_sound hr) ⟨[], _, Threads.start_kept next item⟩ ?_
  rintro s a s' hs ⟨cells, abs, hk⟩ hok hstep
  rcases (step_moves hstep).calls with ⟨t, k, r, hg, hbase, hlog, hstage⟩ | ⟨hbase, hlog, hcall⟩
  · exact hk.done hs hg hbase hlog hstage
  · exact ⟨cells, abs, hk.idle hok hbase hlog hcall⟩

/-! ## Values for concrete runs -/

abbrev tinyThreads : Threads (Fin 3) ℕ ℕ := Threads.start (fun _ => none) fun _ => 0

/-- threads 0 and 1 sleep in `pop` -/
def sleepRun : List (Act (Fin 3) (QueueFn ℕ ℕ)) :=
  [.call 0 .pop, .lock 0, .work 0, .call 1 .pop, .lock 1, .work 1]

/-- thread 2 pushes and wakes thread 0 -/
def pushRun : List (Act (Fin 3) (QueueFn ℕ ℕ)) :=
  sleepRun ++ [.call 2 (.push 5 7), .lock 2] ++ List.replicate 5 (.work 2) ++ [.signal 2 (some 0), .work 2]

theorem reach_run (ls : List (Act (Fin 3) (QueueFn ℕ ℕ))) (p : Threads (Fin 3) ℕ ℕ → Bool)
    (h : (exec (guarded (Monitor.step nodeObject) Fresh) tinyThreads ls).map p = some true) :
    ∃ s, Reach (Monitor.step nodeObject) Fresh tinyThreads s ∧ p s = true := by
  obtain ⟨s, hs, hp⟩ := Option.map_eq_some_iff.1 h
  exact ⟨s, .of_guarded .start hs, hp⟩

/-! ## Every call is atomic -/

/-- the item a call took -/
def takenItem : T × QueueFn A α × Outcome α → Option α
  | (_, _, .item x) => some x
  | _ => none

def pushedItem : T × QueueFn A α × Outcome α → Option α
  | (_, .push _ x, _) => some x
  | _ => none

omit [DecidableEq A] [DecidableEq T] [Fintype T] in
/-- in a serial run what was taken is the front of what was pushed -/
theorem serial_items {log : List (T × QueueFn A α × Outcome α)} (h : itemObject.Serial WsServer.createQueue log abs) :
    log.filterMap pushedItem = log.filterMap takenItem ++ abs.items := by
  induction h with
  | nil => rfl
  | @snoc log q t k _ hw ih =>
    rw [List.filterMap_append, List.filterMap_append, ih, List.append_assoc, List.append_assoc]
    congr 1
    obtain ⟨items, sd⟩ := q
    cases k with
    | push n x => rfl
    | pop =>
      cases items with
      | nil => cases sd <;> rfl
      | cons x xs => exact List.append_nil (x :: xs)
    | trypop =>
      cases items with
      | nil => rfl
      | cons x xs => exact List.append_nil (x :: xs)
    | shutdownQueue => exact List.append_nil items
    | queueSize => exact List.append_nil items
    | queueIsShutdown => exact List.append_nil items

omit [DecidableEq A] [DecidableEq T] [Fintype T] in
/-- a serial run never reads a `head` that is NULL -/
theorem serial_sound {log : List (T × QueueFn A α × Outcome α)} (h : itemObject.Serial WsServer.createQueue log abs) :
    ∀ e ∈ log, e.2.2 ≠ .crashed := by
  induction h with
  | nil => exact fun e he => absurd he List.not_mem_nil
  | @snoc log q t k _ hw ih =>
    intro e he
    rcases List.mem_append.1 he with he | he
    · exact ih e he
    · rw [List.mem_singleton.1 he]
      show itemObject.ret k q ≠ .crashed
      obtain ⟨items, sd⟩ := q
      cases k with
      | pop => cases items <;> cases sd <;> rintro ⟨⟩
      | trypop => cases items <;> rintro ⟨⟩
      | _ => rintro ⟨⟩

/-- **Every call is atomic.** However the threads' statements are interleaved: one thread at most is between lock and
unlock; the calls done so far, with their results, are a serial run of the operations on items, in which what was taken is
the front of what was pushed and no `head` is read that is NULL; and whenever the mutex is free, the nodes hold the items
this run has left. -/
theorem queue_calls_atomic (next : A → Option A) (item : A → α) (s : Threads T A α)
    (h : Reach (Monitor.step nodeObject) Fresh (Threads.start next item) s) :
    (∀ t u, (s.stage t).inside = true → (s.stage u).inside = true → t = u) ∧
      ∃ abs : Queue α, itemObject.Serial WsServer.createQueue s.log abs ∧
        s.log.filterMap pushedItem = s.log.filterMap takenItem ++ abs.items ∧ (∀ e ∈ s.log, e.2.2 ≠ .crashed) ∧
        (s.owner = none → ∃ cells, s.sh.Holds cells abs) := by
  have hs : Sound nodeObject (createQueue next item) s := reach_sound h
  refine ⟨fun t u ht hu => ?_, ?_⟩
  · have hown := (hs.inside t).1 ht
    rw [(hs.inside u).1 hu] at hown
    exact (Option.some.inj hown).symm
  · obtain ⟨cells, abs, hk⟩ := Threads.reach_kept h
    refine ⟨abs, hk.serial, serial_items hk.serial, serial_sound hk.serial, fun hfree => ⟨cells, ?_⟩⟩
    rw [hs.free hfree]
    exact hk.holds

def handed (s : Threads (Fin 3) ℕ ℕ) : Bool := s.owner = none ∧ s.log = [(2, .push 5 7, .ok), (0, .pop, .item 7)]

/-- thread 0 comes back into the mutex and takes the item -/
theorem queue_calls_atomic_handed : ∃ s, Reach (Monitor.step nodeObject) Fresh tinyThreads s ∧ handed s = true ∧
    ∃ abs : Queue ℕ, itemObject.Serial WsServer.createQueue s.log abs ∧ abs.items = [] := by
  obtain ⟨s, hr, hp⟩ := reach_run (pushRun ++ [.lock 0] ++ List.replicate 7 (.work 0)) handed (by decide)
  obtain ⟨-, abs, hserial, hitems, -, -⟩ := queue_calls_atomic _ _ s hr
  obtain ⟨-, hlog⟩ : s.owner = none ∧ s.log = [(2, .push 5 7, .ok), (0, .pop, .item 7)] := of_decide_eq_true hp
  refine ⟨s, hr, hp, abs, hserial, ?_⟩
  rw [hlog] at hitems
  exact (List.cons.inj hitems).2.symm

/-! ## Nobody sleeps on an item -/

omit [DecidableEq A] [DecidableEq T] [Fintype T] in
theorem take_stock (h : q.Holds cells abs) :
    (runAll (takeBody q) q).size ≤ q.size - 1 ∧ (runAll (takeBody q) q).shutdown = q.shutdown := by
  rcases take_holds h with ⟨hsize, -, -, hafter⟩ | ⟨n, x, rest, abs', -, rfl, htry, -, hrest⟩
  · rw [hafter, hsize]
    exact ⟨le_rfl, rfl⟩
  · rw [hrest.size, h.size, ← hrest.shutdown, (trypop_eq_some.1 htry).2, h.shutdown]
    exact ⟨le_rfl, rfl⟩

/-- items to take, and the shutdown flag -/
def nodeStock : Stock (nodeObject (A := A) (α := α)) fun q => ∃ cells abs, q.Holds cells abs where
  count q := q.size
  closed q := q.shutdown = true
  waits_empty {k q} hw := by
    cases k with
    | pop => simpa [nodeObject] using hw
    | _ => cases hw
  adds {k q} hgood hw hall := by
    obtain ⟨cells, abs, h⟩ := hgood
    cases k with
    | push n x =>
      obtain ⟨hsize, hshut, -⟩ := push_rest q n x
      rw [push_after, hsize, hshut]
      exact ⟨le_rfl, id⟩
    | pop =>
      obtain ⟨hsize, hshut⟩ := take_stock h
      exact ⟨hsize.trans (Nat.sub_le _ _), fun hc => hshut ▸ hc⟩
    | trypop =>
      obtain ⟨hsize, hshut⟩ := take_stock h
      exact ⟨hsize.trans (Nat.sub_le _ _), fun hc => hshut ▸ hc⟩
    | shutdownQueue => exact absurd rfl hall
    | queueSize => exact ⟨le_rfl, id⟩
    | queueIsShutdown => exact ⟨le_rfl, id⟩
  takes {k q} hgood htaker hw := by
    obtain ⟨cells, abs, h⟩ := hgood
    obtain ⟨q', hq'⟩ := htaker
    cases k with
    | pop => exact (take_stock h).1
    | _ => cases hq'

theorem taker_pop {k : QueueFn A α} (h : nodeObject.Taker k) : k = .pop := by
  obtain ⟨q, hq⟩ := h
  cases k with
  | pop => rfl
  | _ => cases hq

theorem reach_nodes_served (h : Reach (Monitor.step nodeObject) Fresh (Threads.start next item) s) :
    nodeStock.Served s := by
  refine reach_served (fun s hr => ?_) h
  obtain ⟨cells, abs, hk⟩ := Threads.reach_kept hr
  exact ⟨cells, abs, hk.holds⟩

/-- **No wake-up is lost.** Whenever the mutex is free and a thread sleeps, it sleeps in `pop`, the queue is open, and for
every item there is a thread that was woken in `pop` and is on its way back. -/
theorem no_wakeup_lost (next : A → Option A) (item : A → α) (s : Threads T A α)
    (h : Reach (Monitor.step nodeObject) Fresh (Threads.start next item) s) (hfree : s.owner = none) (t : T)
    (k : QueueFn A α) (ht : s.stage t = .asleep k) :
    k = .pop ∧ queueIsShutdown s.sh = false ∧ ∃ woken : Finset T, (∀ u ∈ woken, s.stage u = .woken .pop) ∧
      queueSize s.sh ≤ woken.card := by
  have hs : Sound nodeObject (createQueue next item) s := reach_sound h
  have hserved := reach_nodes_served h
  have hout : ∀ u, (s.stage u).inside = false := by
    intro u
    rw [← Bool.not_eq_true, hs.inside, hfree]
    exact (Option.some_ne_none u).symm
  rcases hserved.enough ⟨t, by rw [ht]; rfl⟩ with ⟨u, k', hk', -⟩ | ⟨hcount, hopen⟩
  · have hin := hout u
    rw [hk'] at hin
    cases hin
  · rw [← hs.free hfree] at hcount hopen
    refine ⟨taker_pop (hserved.takers t k (.inl ht)), Bool.not_eq_true _ ▸ hopen, nodeObject.coming s, fun u hu => ?_, hcount⟩
    have hcoming := mem_coming.1 hu
    have hin := hout u
    cases hg : s.stage u with
    | woken k' => rw [taker_pop (hserved.takers u k' (.inr hg))]
    | outside => rw [hg] at hcoming; cases hcoming
    | entering k' => rw [hg] at hcoming; cases hcoming
    | asleep k' => rw [hg] at hcoming; cases hcoming
    | _ => rw [hg] at hin; cases hin

def oneWoken (s : Threads (Fin 3) ℕ ℕ) : Bool := s.owner = none ∧ s.sh.size = 1 ∧ (s.stage 1).call = some .pop ∧ (s.stage 1).sleeps

/-- thread 1 sleeps on, thread 0 is woken for the item -/
theorem no_wakeup_lost_pushed : ∃ s, Reach (Monitor.step nodeObject) Fresh tinyThreads s ∧ oneWoken s = true ∧
    ∃ u, s.stage u = .woken .pop := by
  obtain ⟨s, hr, hp⟩ := reach_run pushRun oneWoken (by decide)
  obtain ⟨hfree, hsize, hcall, hsleeps⟩ : s.owner = none ∧ s.sh.size = 1 ∧ (s.stage 1).call = some .pop ∧
    (s.stage 1).sleeps = true := of_decide_eq_true hp
  have hasleep : s.stage 1 = .asleep .pop := by
    cases hg : s.stage 1 with
    | asleep k => rw [hg] at hcall; rw [Option.some.inj hcall]
    | _ => rw [hg] at hsleeps; cases hsleeps
  obtain ⟨-, -, woken, hwoken, hle⟩ := no_wakeup_lost _ _ s hr hfree 1 .pop hasleep
  have hpos : 0 < woken.card := lt_of_lt_of_le (by rw [show queueSize s.sh = 1 from hsize]; exact one_pos) hle
  obtain ⟨u, hu⟩ := Finset.card_pos.1 hpos
  exact ⟨s, hr, hp, u, hwoken u hu⟩

/-- **No deadlock.** Where no thread can go on with its call, the mutex is free, and every thread is outside, or sleeps in
`pop` on an empty queue that is open. -/
theorem queue_never_stuck (next : A → Option A) (item : A → α) (s : Threads T A α)
    (h : Reach (Monitor.step nodeObject) Fresh (Threads.start next item) s) (hstuck : Stuck nodeObject s) :
    s.owner = none ∧ ∀ t, s.stage t = .outside ∨
      s.stage t = .asleep .pop ∧ queueSize s.sh = 0 ∧ queueIsShutdown s.sh = false := by
  have hs : Sound nodeObject (createQueue next item) s := reach_sound h
  have hserved := reach_nodes_served h
  obtain ⟨hfree, hstage⟩ := hs.stuck hstuck
  refine ⟨hfree, fun t => ?_⟩
  rcases hstage t with ht | ⟨k, ht⟩
  · exact .inl ht
  · obtain ⟨hcount, hopen⟩ := hserved.stuck hs hstuck ⟨t, by rw [ht]; rfl⟩
    rw [ht, taker_pop (hserved.takers t k (.inl ht))]
    exact .inr ⟨rfl, hcount, Bool.not_eq_true _ ▸ hopen⟩

def allStuck (s : Threads (Fin 3) ℕ ℕ) : Bool :=
  (s.stage 0).sleeps ∧ ∀ t, (Monitor.step nodeObject s (.lock t)).isNone ∧ (Monitor.step nodeObject s (.work t)).isNone ∧
    ∀ u, (Monitor.step nodeObject s (.signal t u)).isNone

/-- two threads sleep in `pop` -/
theorem queue_never_stuck_asleep : ∃ s, Reach (Monitor.step nodeObject) Fresh tinyThreads s ∧ allStuck s = true ∧
    queueSize s.sh = 0 := by
  obtain ⟨s, hr, hp⟩ := reach_run sleepRun allStuck (by decide)
  have hstuck := of_decide_eq_true hp
  obtain ⟨-, hstage⟩ := queue_never_stuck _ _ s hr fun t =>
    ⟨Option.isNone_iff_eq_none.1 (hstuck.2 t).1, Option.isNone_iff_eq_none.1 (hstuck.2 t).2.1,
      fun u => Option.isNone_iff_eq_none.1 ((hstuck.2 t).2.2 u)⟩
  rcases hstage 0 with h0 | ⟨-, hsize, -⟩
  · have hsleeps := hstuck.1
    rw [h0] at hsleeps
    cases hsleeps
  · exact ⟨s, hr, hp, hsize⟩

end WsServer.Nodes
