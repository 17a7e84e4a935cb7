/-
`src/agg.c`: the list of parked connections.

The list is made of pointers in what it holds: `parkHead` and `parkTail` of `Agg_t`, and `parkNext` of every connection.
`ParkSys` is the whole program with this list beside it, which `parkListPush` and `parkListPop` change where they are called.

- `parkListPush_holds`, `parkListPop_holds`, `popAll_holds`: the functions, and the loop of `aggFreeState`, on a list that is whole.
- `park_list_intact`: in every run of the whole program the pointers hold the connections of the model, in their order.
-/
import Mathlib
import WsServer.Core.Chain
import WsServer.Server.Lifecycle

namespace WsServer

open Ws Machine Places Chain

/-! ## The list -/

structure ParkList where
  parkHead : Option ℕ
  parkTail : Option ℕ
  /-- `parkNext` of each connection -/
  parkNext : ℕ → Option ℕ

/-- after `aggInit`, with every connection as `connNew` makes it -/
def ParkList.empty : ParkList := ⟨none, none, fun _ => none⟩

def parkListPush (a : ParkList) (c : ℕ) : ParkList :=
  let a := { a with parkNext := Function.update a.parkNext c none }
  let a :=
    match a.parkTail with
    | some t => { a with parkNext := Function.update a.parkNext t (some c) }
    | none => { a with parkHead := some c }
  { a with parkTail := some c }

def parkListPop (a : ParkList) : Option ℕ × ParkList :=
  match a.parkHead with
  | none => (none, a)
  | some c =>
    (some c, { a with
      parkHead := a.parkNext c
      parkTail := if a.parkNext c = none then none else a.parkTail
      parkNext := Function.update a.parkNext c none })

/-- the loop of `aggFreeState`: what it pops, and the list it leaves; `none` if it does not end in `fuel` rounds -/
def popAll : ℕ → ParkList → Option (List ℕ × ParkList)
  | 0, _ => none
  | fuel + 1, a =>
    match (parkListPop a).1 with
    | none => some ([], a)
    | some c => (popAll fuel (parkListPop a).2).map fun r => (c :: r.1, r.2)

/-- the pointers hold the connections, in this order -/
def ParkList.Holds (a : ParkList) (cs : List ℕ) : Prop := Chained a.parkNext a.parkHead a.parkTail cs

variable {a : ParkList} {cs : List ℕ} {c : ℕ}

theorem parkListPush_holds (h : a.Holds cs) (hc : c ∉ cs) : (parkListPush a c).Holds (cs ++ [c]) := by
  have hlink := Chained.link h hc
  unfold ParkList.Holds parkListPush
  dsimp only
  cases htail : a.parkTail with
  | none =>
    have hhead : a.parkHead = none := h.none_iff.2 htail
    rw [htail, hhead] at hlink
    exact hlink
  | some t =>
    have hhead : a.parkHead ≠ none := fun he => absurd (h.none_iff.1 he) (htail ▸ Option.some_ne_none t)
    obtain ⟨d, hd⟩ := Option.ne_none_iff_exists'.1 hhead
    rw [htail, hd] at hlink
    dsimp only
    rw [hd]
    exact hlink

/-- it takes the first connection, and leaves the others in their order -/
theorem parkListPop_holds (h : a.Holds cs) : (parkListPop a).1 = cs.head? ∧ (parkListPop a).2.Holds cs.tail := by
  have hhead : a.parkHead = cs.head? := h.follows.head_eq
  unfold parkListPop
  cases cs with
  | nil =>
    rw [show a.parkHead = none from hhead]
    exact ⟨rfl, h⟩
  | cons c cs =>
    have hnodup := List.nodup_cons.1 h.follows.nodup
    have hsome : a.parkHead = some c := hhead
    have hchained : Chained a.parkNext a.parkHead a.parkTail (c :: cs) := h
    rw [hsome] at hchained
    obtain ⟨ds, heq, hrest⟩ := hchained.unlink
    obtain ⟨-, rfl⟩ := List.cons.inj heq
    rw [hsome]
    -- the link that is cleared is not one of the rest
    refine ⟨rfl, hrest.follows.congr fun x hx => Function.update_of_ne ?_ _ _, hrest.last⟩
    rintro rfl
    exact hnodup.1 hx

/-- **The loop of `aggFreeState` ends**, and pops every connection once, in their order. -/
theorem popAll_holds {fuel : ℕ} (h : a.Holds cs) (hfuel : cs.length < fuel) :
    ∃ b, popAll fuel a = some (cs, b) ∧ b.Holds [] := by
  induction cs generalizing a fuel with
  | nil =>
    obtain ⟨n, rfl⟩ := Nat.exists_eq_succ_of_ne_zero (Nat.pos_iff_ne_zero.1 hfuel)
    refine ⟨a, ?_, h⟩
    unfold popAll
    rw [(parkListPop_holds h).1]
    rfl
  | cons c cs ih =>
    obtain ⟨n, rfl⟩ := Nat.exists_eq_succ_of_ne_zero (Nat.pos_iff_ne_zero.1 (Nat.zero_lt_of_lt hfuel))
    obtain ⟨hfirst, hrest⟩ := parkListPop_holds h
    obtain ⟨b, hall, hb⟩ := ih hrest (Nat.lt_of_succ_lt_succ hfuel)
    refine ⟨b, ?_, hb⟩
    unfold popAll
    rw [hfirst]
    exact congrArg (Option.map fun r => (c :: r.1, r.2)) hall

/-! ## The program with the list -/

/-- the calls in a step of the server -/
def ParkList.follow (a : ParkList) (s : Srv) : Act → ParkList
  | .worker w _ =>
    match s.workers w with
    | .parkPush c => parkListPush a c
    | _ => a
  | .agg _ =>
    match s.sys.pc with
    | .unpark => (parkListPop a).2
    -- a connection is in the list once, so there are not more than connections
    | .final => ((popAll (s.nextId + 1) a).map Prod.snd).getD a
    | _ => a
  | _ => a

structure ParkSys where
  life : Life
  list : ParkList

def parkStep (conf : ServerConfig) (W : ℕ) (p : ParkSys) (b : LifeAct) : Option ParkSys :=
  (lifeStep conf W p.life b).map fun l =>
    { life := l
      list := match b with
        | .node (.srv b) => p.list.follow p.life.node.srv b
        | _ => p.list }

def ParkSys.start (client : ℕ → UpstreamClient) (count : ℕ) : ParkSys := ⟨.start client count, .empty⟩

variable {conf : ServerConfig} {W count : ℕ} {client : ℕ → UpstreamClient} {s t : Srv} {u v : AggSys} {e : AggEnv}

/-- what a step of the aggregator does to its list -/
theorem aggStep_park (h : aggStep conf u e = some v) :
    v.park = match u.pc with
      | .unpark => u.park.tail
      | .final => []
      | _ => u.park := by
  unfold aggStep at h
  cases hpc : u.pc with
  | ctrl | drainCtrl =>
    simp only [hpc] at h ⊢
    cases hq : trypop u.ctrlQueue with
    | none =>
      simp only [hq] at h
      obtain rfl := Option.some.inj h
      rfl
    | some r =>
      simp only [hq] at h
      obtain rfl := Option.some.inj h
      exact (handleCtrl_only _ _ _).park
  | take =>
    simp only [hpc] at h ⊢
    split at h <;> obtain rfl := Option.some.inj h <;> rfl
  | drainData =>
    simp only [hpc] at h ⊢
    split at h <;> obtain rfl := Option.some.inj h
    · rfl
    · unfold drainMessage
      split_ifs <;> rfl
  | rpush c =>
    simp only [hpc] at h ⊢
    obtain ⟨m, -, rfl⟩ := Option.map_eq_some_iff.1 h
    rfl
  | pump =>
    have hflush := sinkFlush_only (fun _ => False) u e.sends
    simp only [hpc] at h ⊢
    split_ifs at h
    all_goals obtain rfl := Option.some.inj h
    · rfl
    · exact (hflush.trans (closeSink_only _ _)).park
    · exact hflush.park
    · exact hflush.park
  | unpark =>
    simp only [hpc] at h ⊢
    cases hpark : u.park with
    | nil => simp only [hpark] at h; obtain rfl := Option.some.inj h; rfl
    | cons c park => simp only [hpark] at h; obtain rfl := Option.some.inj h; rfl
  | exitCtrl | exitDrain =>
    simp only [hpc] at h ⊢
    split_ifs at h <;> obtain rfl := Option.some.inj h <;> rfl
  | wait =>
    simp only [hpc] at h ⊢
    split at h <;> obtain rfl := Option.some.inj h <;> rfl
  | events evs =>
    cases evs with
    | nil => simp only [hpc] at h ⊢; obtain rfl := Option.some.inj h; rfl
    | cons ev evs =>
      simp only [hpc] at h ⊢
      obtain rfl := Option.some.inj h
      exact (handleEvent_only (fun _ => False) u e ev).park
  | final => simp only [hpc] at h ⊢; obtain rfl := Option.some.inj h; rfl
  | mark | rclear | radd | exitData => simp only [hpc] at h ⊢; obtain rfl := Option.some.inj h; rfl
  | done => simp only [hpc] at h; cases h

/-- **A step of the server**: the calls it makes leave the pointers as the list is. -/
theorem srvStep_park {b : Act} (hexcl : Exclusive s.cell) (hknown : ∀ c ∈ s.sys.park, c < s.nextId)
    (ha : a.Holds s.sys.park) (h : srvStep conf s b = some t) : (a.follow s b).Holds t.sys.park := by
  cases b with
  | accept => obtain rfl := Option.some.inj h; exact ha
  | deliver => simp only [srvStep] at h; split_ifs at h; obtain rfl := Option.some.inj h; exact ha
  | fetch => simp only [srvStep] at h; split_ifs at h; obtain rfl := Option.some.inj h; exact ha
  | enqueue => simp only [srvStep] at h; split_ifs at h; obtain rfl := Option.some.inj h; exact ha
  | worker w e =>
    by_cases hpush : ∃ c, s.workers w = .parkPush c
    · obtain ⟨c, hpc⟩ := hpush
      have hnew : c ∉ s.sys.park := fun hc => by
        have hheld : c ∈ s.cell (.worker w) := mem_worker.2 (by rw [hpc]; rfl)
        cases hexcl.only (.worker w) .park c hheld hc
      simp only [srvStep, workerStep, hpc] at h
      obtain rfl := Option.some.inj h
      have hfollow : a.follow s (.worker w e) = parkListPush a c := by simp only [ParkList.follow, hpc]
      rw [hfollow]
      exact parkListPush_holds ha hnew
    · have hfollow : a.follow s (.worker w e) = a := by
        simp only [ParkList.follow]
        cases hpc : s.workers w with
        | parkPush c => exact absurd ⟨c, hpc⟩ hpush
        | _ => rfl
      have hpark : t.sys.park = s.sys.park := by
        cases workerStep_shift h with
        | parkPush c hpc => exact absurd ⟨c, hpc⟩ hpush
        | _ => rfl
      rw [hfollow, hpark]
      exact ha
  | agg e =>
    obtain ⟨v, hv, rfl⟩ := Option.map_eq_some_iff.1 h
    have hpark := aggStep_park hv
    show (a.follow s (.agg e)).Holds v.park
    rw [hpark]
    unfold ParkList.follow
    cases hpc : s.sys.pc with
    | unpark => exact (parkListPop_holds ha).2
    | final =>
      have hlen : s.sys.park.length < s.nextId + 1 := by
        have hsub : s.sys.park ⊆ List.range s.nextId := fun c hc => List.mem_range.2 (hknown c hc)
        have hle := (List.subperm_of_subset (hexcl.nodup .park) hsub).length_le
        rw [List.length_range] at hle
        exact Nat.lt_succ_of_le hle
      obtain ⟨b, hall, hb⟩ := popAll_holds ha hlen
      dsimp only
      rw [hall]
      exact hb
    | _ => exact ha

variable {p p' : ParkSys}

theorem parkStep_life {b : LifeAct} (h : parkStep conf W p b = some p') : lifeStep conf W p.life b = some p'.life := by
  obtain ⟨l, hl, rfl⟩ := Option.map_eq_some_iff.1 h
  exact hl

/-- main leaves the list alone -/
theorem mainStep_park {l l' : Life} (h : mainStep W l = some l') : l'.node.srv.sys.park = l.node.srv.sys.park := by
  unfold mainStep at h
  cases hphase : l.phase with
  | flagged | noReactor | queueShut | ctrlShut =>
    simp only [hphase] at h
    split_ifs at h
    obtain rfl := Option.some.inj h
    rfl
  | ended => simp only [hphase] at h; cases h
  | _ => simp only [hphase] at h; obtain rfl := Option.some.inj h; rfl

theorem parkStep_holds {b : LifeAct} (hk : p.life.Kept conf W client count) (ha : p.list.Holds p.life.node.srv.sys.park)
    (h : parkStep conf W p b = some p') : p'.list.Holds p'.life.node.srv.sys.park := by
  obtain ⟨l, hl, rfl⟩ := Option.map_eq_some_iff.1 h
  cases b with
  | main => exact (mainStep_park hl).symm ▸ ha
  | abandon c =>
    simp only [lifeStep] at hl
    split_ifs at hl
    obtain rfl := Option.some.inj hl
    exact ha
  | node b =>
    simp only [lifeStep] at hl
    split_ifs at hl with hlets
    obtain ⟨n, hn, rfl⟩ := Option.map_eq_some_iff.1 hl
    cases b with
    | up e => obtain ⟨r, -, rfl⟩ := Option.map_eq_some_iff.1 hn; exact ha
    | srv b =>
      simp only [nodeStep] at hn
      split_ifs at hn
      obtain ⟨t, ht, rfl⟩ := Option.map_eq_some_iff.1 hn
      have hgood := (hk.sound (Life.lets_srv hlets)).good
      refine srvStep_park ?_ ?_ ha ht
      · exact calm_cell p.life.node.srv ▸ hgood.excl
      · intro c hc
        exact @Good.known _ hgood c .park hc

/-- **The park list is intact.** In every run of the whole program, at any moment of its start, its work and its
shutdown: the pointers hold the parked connections, each once and in the order they were parked, the next
`parkListPop` returns the first of them, and as long as main has not freed the connections all of them are live. -/
theorem park_list_intact (conf : ServerConfig) (W : ℕ) (client : ℕ → UpstreamClient) (count : ℕ) (p : ParkSys)
    (h : Reachable (parkStep conf W) (.start client count) p) :
    Chained p.list.parkNext p.list.parkHead p.list.parkTail p.life.node.srv.sys.park ∧
      (parkListPop p.list).1 = p.life.node.srv.sys.park.head? ∧
      (p.life.phase.rank < Phase.noConns.rank → ∀ c ∈ p.life.node.srv.sys.park, (p.life.node.srv.conn c).live = true) := by
  have hboth : p.life.Kept conf W client count ∧ p.list.Holds p.life.node.srv.sys.park := by
    refine h.invariant (P := fun p => p.life.Kept conf W client count ∧ p.list.Holds p.life.node.srv.sys.park)
      ⟨life_start_kept client count, Chained.empty⟩ fun p b p' hp _ hs => ?_
    exact ⟨lifeStep_kept hp.1 (parkStep_life hs), parkStep_holds hp.1 hp.2 hs⟩
  obtain ⟨hk, hholds⟩ := hboth
  exact ⟨hholds, (parkListPop_holds hholds).1, fun hphase c hc => (hk.sound hphase).held .park c hc⟩

/-- a source with two messages in dataQueue and a third one parked, and behind it a second source, parked with its first -/
def parkedRun : List LifeAct :=
  (parkRun [] ++ [Act.worker 0 calmWork] ++
    [Act.accept, .deliver 3 (hello "/" ++ binFrame 1) .open, .fetch 3, .enqueue 3] ++
    List.replicate 9 (Act.worker 0 calmWork)).map fun b => LifeAct.node (.srv b)

set_option maxRecDepth 4000 in
theorem parkedRun_parks : (exec (parkStep tinyConf 1) (.start (fun _ => closedClient 9) 0) parkedRun).map
    (fun p => decide (p.life.node.srv.sys.park = [2, 3])) = some true := by
  decide

/-- the head is the first, and its link leads to the second -/
theorem park_list_intact_parked : ∃ p, Reachable (parkStep tinyConf 1) (.start (fun _ => closedClient 9) 0) p ∧
    (parkListPop p.list).1 = some 2 ∧ p.list.parkNext 2 = some 3 := by
  obtain ⟨p, hr, hp⟩ := Reachable.of_check _ _ parkedRun _ parkedRun_parks
  obtain ⟨hchain, hpop, -⟩ := park_list_intact tinyConf 1 (fun _ => closedClient 9) 0 p hr
  rw [of_decide_eq_true hp] at hpop hchain
  have hfollows := hchain.follows
  generalize p.list.parkHead = head at hfollows
  cases hfollows with
  | cons hnext => exact ⟨p, hr, hpop, hnext.head_eq⟩

end WsServer
