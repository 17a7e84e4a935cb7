/-
`src/conn.c`: the registry, and the life of every connection.

`Registry` is `g_registry` with a count, for each connection, of the calls of `connFreeResources` and of `close` on its
descriptor. `RegSys` is the server together with it. Its steps are those of the server, each with the calls of `connNew`
and `connClose` it makes, the failures of `epoll_ctl(ADD)` behind `connNew` and of the two pushes behind which the
connection is closed, the shutdown of a queue, and `registryDestroyAll`, which may come at any time and ends the run.

- `Listed`: the list holds who is live, and who was is freed once; kept by `connNew`, `connClose`, `registryDestroyAll`.
- `RegSys.Kept`: with it, who is in a place is live, and who was adopted and is live is the sink.
- `regStep_kept`: every step keeps it.
-/
import Mathlib
import WsServer.Core.Linked
import WsServer.Server.Closing

namespace WsServer

open Ws Places Machine Linked

/-! ## The registry -/

structure Registry where
  links : Links ℕ
  freed : ℕ → ℕ
  closed : ℕ → ℕ

def registryInit : Registry := ⟨.empty, fun _ => 0, fun _ => 0⟩

def registryAdd (r : Registry) (c : ℕ) : Registry := { r with links := r.links.add c }

def registryRemove (r : Registry) (c : ℕ) : Registry := { r with links := r.links.remove c }

def connFreeResources (r : Registry) (c : ℕ) : Registry := { r with freed := Function.update r.freed c (r.freed c + 1) }

/-- `close(c->fd)` -/
def Registry.closeFd (r : Registry) (c : ℕ) : Registry := { r with closed := Function.update r.closed c (r.closed c + 1) }

def connDestroy (r : Registry) (c : ℕ) : Registry := connFreeResources (registryRemove r c) c

/-- `connClose`, as far as the registry is concerned -/
def Registry.connClose (r : Registry) (c : ℕ) : Registry := connDestroy (r.closeFd c) c

/-- the loop of `registryDestroyAll`: the next connection is read before this one is freed -/
def Registry.destroyFrom : ℕ → Registry → Option ℕ → Registry
  | 0, r, _ => r
  | _ + 1, r, none => r
  | fuel + 1, r, some c => destroyFrom fuel (connFreeResources (r.closeFd c) c) (r.links.next c)

def registryDestroyAll (fuel : ℕ) (r : Registry) : Registry :=
  Registry.destroyFrom fuel { r with links := { r.links with head := none } } r.links.head

/-! ## The system -/

structure RegSys where
  srv : Srv
  reg : Registry
  /-- the record: the connections `adoptSink` was called with -/
  adopted : List ℕ
  ended : Bool

inductive RegAct where
  | act (a : Act)
  /-- `epoll_ctl(ADD)` of `connectionHandle` fails -/
  | addFails
  /-- the listener cannot push what it fetched -/
  | enqueueFails (c : ℕ)
  /-- the message that hands a sink over cannot be made, or not pushed -/
  | handoffFails (w : ℕ)
  | shutQueue
  | shutData
  | shutCtrl
  | destroyAll

/-- the connection is closed in the table -/
def Srv.close (s : Srv) (c : ℕ) : Srv := s.setConn c (WsServer.connClose (s.conn c))

/-- all connections of a list are freed -/
def Srv.freeAll (s : Srv) (cs : List ℕ) : Srv :=
  { s with sys := { s.sys with
      conn := fun c => if c ∈ cs then { s.sys.conn c with live := false, pendingMsg := none } else s.sys.conn c } }

/-- what a step of the server does to the registry -/
def Registry.follow (r : Registry) (s : Srv) (a : Act) : Registry :=
  match a, s.closes a with
  | .accept, _ => registryAdd r s.nextId
  | _, some c => r.connClose c
  | _, none => r

def Act.adopts (s : Srv) : Act → List ℕ
  | .agg _ => s.sys.adopts.toList
  | _ => []

def RegSys.start : RegSys := ⟨.start, registryInit, [], false⟩

def regStep (conf : ServerConfig) (r : RegSys) (b : RegAct) : Option RegSys :=
  if r.ended then none
  else
    match b with
    | .act a =>
      (srvStep conf r.srv a).map fun t =>
        { r with srv := t, reg := r.reg.follow r.srv a, adopted := r.adopted ++ a.adopts r.srv }
    | .addFails =>
      let c := r.srv.nextId
      some { r with
        srv := { r.srv.setConn c (connClose (connNew c)) with nextId := c + 1 }
        reg := (connDestroy (registryAdd r.reg c) c).closeFd c }
    | .enqueueFails c =>
      if c ∈ r.srv.fetched then
        some { r with srv := { r.srv.close c with fetched := r.srv.fetched.erase c }, reg := r.reg.connClose c }
      else none
    | .handoffFails w =>
      match r.srv.workers w with
      | .handoffPush c => some { r with srv := (r.srv.close c).goto w .idle, reg := r.reg.connClose c }
      | _ => none
    | .shutQueue => some { r with srv := { r.srv with queue := shutdownQueue r.srv.queue } }
    | .shutData =>
      some { r with srv := { r.srv with sys := { r.srv.sys with dataQueue := shutdownQueue r.srv.sys.dataQueue } } }
    | .shutCtrl =>
      some { r with srv := { r.srv with sys := { r.srv.sys with ctrlQueue := shutdownQueue r.srv.sys.ctrlQueue } } }
    | .destroyAll =>
      some { r with
        srv := r.srv.freeAll (r.reg.links.walk r.srv.nextId r.reg.links.head)
        reg := registryDestroyAll r.srv.nextId r.reg
        ended := true }

/-! ## The list and the counts -/

/-- the list holds who is live, and who was is freed once -/
structure Listed (reg : Registry) (next : ℕ) (live : ℕ → Bool) : Prop where
  pos : 0 < next
  list : ∃ xs, reg.links.Holds xs ∧ ∀ c, c ∈ xs ↔ live c = true
  born : ∀ c, live c = true → 0 < c ∧ c < next
  freed : ∀ c, reg.freed c = if 0 < c ∧ c < next ∧ live c = false then 1 else 0
  closed : ∀ c, reg.closed c = reg.freed c

variable {reg : Registry} {next : ℕ} {live : ℕ → Bool} {c : ℕ}

theorem Listed.start : Listed registryInit 1 fun _ => false where
  pos := Nat.one_pos
  list := ⟨[], ⟨List.nodup_nil, rfl, trivial⟩, fun _ => ⟨nofun, nofun⟩⟩
  born := nofun
  freed _ := (if_neg fun h => absurd h.2.1 (not_lt.2 h.1)).symm
  closed _ := rfl

theorem Listed.not_live (h : Listed reg next live) (hc : next ≤ c) : live c = false := by
  by_contra hlive
  rw [Bool.not_eq_false] at hlive
  exact absurd (h.born c hlive).2 (not_lt.2 hc)

/-- `connNew` -/
theorem Listed.add (h : Listed reg next live) :
    Listed (registryAdd reg next) (next + 1) (Function.update live next true) where
  pos := Nat.succ_pos next
  list := by
    obtain ⟨xs, hxs, hmem⟩ := h.list
    have hnew : next ∉ xs := by
      rw [hmem, h.not_live le_rfl]
      nofun
    refine ⟨next :: xs, hxs.add hnew, fun d => ?_⟩
    by_cases hd : d = next
    · subst hd
      simp
    · rw [Function.update_of_ne hd, ← hmem, List.mem_cons]
      simp [hd]
  born d hd := by
    by_cases hdn : d = next
    · rw [hdn]
      exact ⟨h.pos, Nat.lt_succ_self next⟩
    · rw [Function.update_of_ne hdn] at hd
      exact ⟨(h.born d hd).1, Nat.lt_succ_of_lt (h.born d hd).2⟩
  freed d := by
    refine (h.freed d).trans ?_
    by_cases hd : d = next
    · subst hd
      simp
    · rw [Function.update_of_ne hd]
      have hlt : d < next + 1 ↔ d < next := by omega
      simp only [hlt]
  closed := h.closed

theorem count_update {f : ℕ → ℕ} {d : ℕ} : Function.update f c (f c + 1) d = f d + if d = c then 1 else 0 := by
  by_cases hd : d = c
  · subst hd
    simp
  · simp [hd]

/-- `connClose` -/
theorem Listed.close (h : Listed reg next live) (hc : live c = true) :
    Listed (reg.connClose c) next (Function.update live c false) where
  pos := h.pos
  list := by
    obtain ⟨xs, hxs, hmem⟩ := h.list
    refine ⟨xs.erase c, hxs.remove ((hmem c).2 hc), fun d => ?_⟩
    rw [hxs.nodup.mem_erase_iff]
    by_cases hd : d = c
    · subst hd
      simp
    · rw [Function.update_of_ne hd, hmem]
      simp [hd]
  born d hd := by
    by_cases hdc : d = c
    · subst hdc
      rw [Function.update_self] at hd
      cases hd
    · rw [Function.update_of_ne hdc] at hd
      exact h.born d hd
  freed d := by
    refine (count_update (f := reg.freed)).trans ?_
    rw [h.freed d]
    by_cases hd : d = c
    · subst hd
      rw [if_neg (by simp [hc]), if_pos rfl, if_pos ⟨(h.born d hc).1, (h.born d hc).2, Function.update_self d _ live⟩]
    · rw [Function.update_of_ne hd, if_neg hd, Nat.add_zero]
  closed d := by
    have hcount : ∀ f : ℕ → ℕ, Function.update f c (f c + 1) d = f d + if d = c then 1 else 0 := fun f => count_update
    show Function.update reg.closed c (reg.closed c + 1) d = Function.update reg.freed c (reg.freed c + 1) d
    rw [hcount, hcount, h.closed]

/-- the loop of `registryDestroyAll` closes and frees whom it comes by -/
theorem destroyFrom_counts (fuel : ℕ) (reg : Registry) (at' : Option ℕ) :
    (Registry.destroyFrom fuel reg at').links = reg.links ∧
      (∀ c, (Registry.destroyFrom fuel reg at').freed c = reg.freed c + (reg.links.walk fuel at').count c) ∧
      ∀ c, (Registry.destroyFrom fuel reg at').closed c = reg.closed c + (reg.links.walk fuel at').count c := by
  induction fuel generalizing reg at' with
  | zero => exact ⟨rfl, fun _ => rfl, fun _ => rfl⟩
  | succ fuel ih =>
    cases at' with
    | none => exact ⟨rfl, fun _ => rfl, fun _ => rfl⟩
    | some k =>
      obtain ⟨hlinks, hfreed, hclosed⟩ := ih (connFreeResources (reg.closeFd k) k) (reg.links.next k)
      have hcount : ∀ (f : ℕ → ℕ) (c : ℕ) (l : List ℕ),
          Function.update f k (f k + 1) c + l.count c = f c + (k :: l).count c := by
        intro f c l
        rw [count_update, List.count_cons]
        by_cases hc : c = k
        · subst hc
          simp
          omega
        · simp [hc, Ne.symm hc]
      refine ⟨hlinks, fun c => (hfreed c).trans (hcount _ _ _), fun c => (hclosed c).trans (hcount _ _ _)⟩

/-- who is live is on the way from the head -/
theorem Listed.walk (h : Listed reg next live) :
    (reg.links.walk next reg.links.head).Nodup ∧ ∀ c, c ∈ reg.links.walk next reg.links.head ↔ live c = true := by
  obtain ⟨xs, hxs, hmem⟩ := h.list
  have hsub : xs ⊆ List.range next := by
    intro c hc
    exact List.mem_range.2 (h.born c ((hmem c).1 hc)).2
  have hlen : xs.length ≤ next := by
    have hle := (List.subperm_of_subset hxs.nodup hsub).length_le
    rwa [List.length_range] at hle
  rw [hxs.walk hlen]
  exact ⟨hxs.nodup, hmem⟩

/-- `registryDestroyAll` -/
theorem Listed.destroyAll (h : Listed reg next live) : Listed (registryDestroyAll next reg) next fun _ => false := by
  obtain ⟨hnodup, hmem⟩ := h.walk
  obtain ⟨hlinks, hfreed, hclosed⟩ :=
    destroyFrom_counts next { reg with links := { reg.links with head := none } } reg.links.head
  -- cutting off the head leaves the way as it is
  have hwalk : ∀ fuel at', ({ reg.links with head := none } : Links ℕ).walk fuel at' = reg.links.walk fuel at' := by
    intro fuel
    induction fuel with
    | zero => exact fun _ => rfl
    | succ fuel ih =>
      intro at'
      cases at' with
      | none => rfl
      | some k => exact congrArg (k :: ·) (ih _)
  have hcount : ∀ c, (reg.links.walk next reg.links.head).count c = if live c = true then 1 else 0 := by
    intro c
    by_cases hc : live c = true
    · rw [if_pos hc]
      exact List.count_eq_one_of_mem hnodup ((hmem c).2 hc)
    · rw [if_neg hc]
      exact List.count_eq_zero_of_not_mem fun hin => hc ((hmem c).1 hin)
  refine ⟨h.pos, ⟨[], ?_, fun c => ⟨nofun, nofun⟩⟩, nofun, fun c => ?_, fun c => ?_⟩
  · exact ⟨List.nodup_nil, congrArg Links.head hlinks, trivial⟩
  · refine (hfreed c).trans ?_
    rw [hwalk, hcount, h.freed]
    cases hc : live c with
    | true => simp [h.born c hc]
    | false => simp
  · refine (hclosed c).trans (Eq.trans ?_ (hfreed c).symm)
    rw [h.closed]

/-! ## Every run -/

def Srv.lives (s : Srv) (c : ℕ) : Bool := (s.conn c).live

/-- what holds of the server and its registry -/
structure RegSys.Kept (r : RegSys) : Prop where
  listed : Listed r.reg r.srv.nextId r.srv.lives
  good : r.ended = false → Good r.srv.calm
  held : r.ended = false → ∀ p c, c ∈ r.srv.cell p → r.srv.lives c = true
  gone : r.ended = true → ∀ c, r.srv.lives c = false
  adopted : ∀ c ∈ r.adopted, 0 < c ∧ c < r.srv.nextId ∧ (r.srv.lives c = true → r.srv.sys.agg.sink = some c)
  sink : r.ended = false → ∀ c, r.srv.sys.agg.sink = some c → c ∈ r.adopted

theorem start_kept : RegSys.start.Kept where
  listed := .start
  good _ := start_good
  held := by
    intro _ p c hc
    cases p <;> cases hc
  gone := nofun
  adopted := nofun
  sink := nofun

variable {conf : ServerConfig} {s t : Srv} {u : AggSys} {e : AggEnv} {r r' : RegSys}

/-- a step that changes no connection and moves none -/
theorem RegSys.Kept.quiet (hk : r.Kept) (hrun : r.ended = false) (hcell : t.cell = r.srv.cell)
    (hconn : t.sys.conn = r.srv.sys.conn) (hsink : t.sys.agg.sink = r.srv.sys.agg.sink)
    (hworkers : t.workers = r.srv.workers) (hnext : t.nextId = r.srv.nextId) : ({ r with srv := t } : RegSys).Kept := by
  have hlives : t.lives = r.srv.lives := by
    funext c
    exact congrArg (fun f : ℕ → Conn => (f c).live) hconn
  have hgood : Good t.calm := by
    have hcells : t.calm.cell = r.srv.calm.cell := by rw [calm_cell, calm_cell, hcell]
    refine (hk.good hrun).frame (hcells ▸ (hk.good hrun).excl) (fun d => ?_) (fun p d hd => hcells ▸ hd) hworkers hnext rfl
      (AggPc.calm_draining _)
    rw [show t.calm.conn d = r.srv.calm.conn d from congrFun hconn d]
    exact .refl _
  refine ⟨?_, fun _ => hgood, fun _ p c hc => ?_, fun hend => absurd hend (by simp [hrun]), fun c hc => ?_, fun _ c hc => ?_⟩
  · show Listed r.reg t.nextId t.lives
    rw [hnext, hlives]
    exact hk.listed
  · have hc' : c ∈ t.cell p := hc
    rw [hcell] at hc'
    exact (congrFun hlives c).trans (hk.held hrun p c hc')
  · obtain ⟨hpos, hlt, hat⟩ := hk.adopted c hc
    exact ⟨hpos, hlt.trans_eq hnext.symm, fun hlive => hsink.trans (hat ((congrFun hlives c).symm.trans hlive))⟩
  · exact hk.sink hrun c (hsink.symm.trans hc)

theorem close_lives (s : Srv) (c : ℕ) : (s.close c).lives = Function.update s.lives c false := by
  funext d
  unfold Srv.lives Srv.close
  by_cases hd : d = c
  · rw [hd, Function.update_self, setConn_conn_self]
    rfl
  · rw [Function.update_of_ne hd, setConn_conn_of_ne _ hd]

/-- a connection leaves its place, and is closed -/
theorem RegSys.Kept.release {p : Place} {l : List ℕ} (hk : r.Kept) (hrun : r.ended = false)
    (hperm : (r.srv.cell p).Perm (c :: l)) (hpark : p ≠ .park) (hhand : p ≠ .hand)
    (hcell : t.cell = Function.update r.srv.cell p l) (hsys : t.sys = (r.srv.close c).sys)
    (hwork : ∀ w d, (t.workers w).about d → t.workers w = r.srv.workers w) (hnext : t.nextId = r.srv.nextId) :
    ({ r with srv := t, reg := r.reg.connClose c } : RegSys).Kept := by
  have hgood := hk.good hrun
  have hexcl : Exclusive r.srv.cell := calm_cell r.srv ▸ hgood.excl
  have hconn : ∀ d, t.conn d = (r.srv.close c).conn d := fun d => congrArg (fun a : AggSys => a.conn d) hsys
  have hlives : t.lives = Function.update r.srv.lives c false := by
    rw [← close_lives]
    funext d
    exact congrArg Conn.live (hconn d)
  have hnone : ∀ q, c ∉ t.cell q := by
    rw [hcell]
    exact hexcl.drop_free hperm
  have hsink : t.sys.agg.sink = r.srv.sys.agg.sink := by rw [hsys]; rfl
  refine ⟨?_, fun _ => ?_, fun _ q d hd => ?_, fun hend => absurd hend (by simp [hrun]), fun d hd => ?_, fun _ d hd => ?_⟩
  · show Listed (r.reg.connClose c) t.nextId t.lives
    rw [hnext, hlives]
    exact hk.listed.close (hk.held hrun p c (hperm.mem_iff.2 List.mem_cons_self))
  · have hdata : t.calm.sys.dataQueue.shutdown = r.srv.calm.sys.dataQueue.shutdown := rfl
    refine hgood.release (t := t.calm) p ((calm_cell r.srv).symm ▸ hperm) hpark hhand ?_ (fun d hd => ?_) ?_ hwork hnext hdata
      (AggPc.calm_draining _)
    · rw [calm_cell, calm_cell, hcell]
    · exact (hconn d).trans (setConn_conn_of_ne _ hd)
    · have hid := congrArg Conn.id ((hconn c).trans (setConn_conn_self r.srv c (WsServer.connClose (r.srv.conn c))))
      exact hid
  · have hd' : d ∈ t.cell q := hd
    have hne : d ≠ c := by rintro rfl; exact hnone q hd'
    show t.lives d = true
    rw [hlives, Function.update_of_ne hne]
    rw [hcell] at hd'
    rcases mem_update.1 hd' with ⟨rfl, hin⟩ | ⟨-, hin⟩
    · exact hk.held hrun q d (hperm.mem_iff.2 (List.mem_cons_of_mem c hin))
    · exact hk.held hrun q d hin
  · obtain ⟨hpos, hlt, hat⟩ := hk.adopted d hd
    refine ⟨hpos, hlt.trans_eq hnext.symm, fun hlive => hsink.trans (hat ?_)⟩
    have hlive' : t.lives d = true := hlive
    rw [hlives] at hlive'
    by_cases hne : d = c
    · subst hne
      rw [Function.update_self] at hlive'
      cases hlive'
    · rwa [Function.update_of_ne hne] at hlive'
  · exact hk.sink hrun d (hsink.symm.trans hd)

/-- a connection comes in -/
theorem RegSys.Kept.accept (hk : r.Kept) (hrun : r.ended = false) (h : srvStep conf r.srv .accept = some t) :
    ({ r with srv := t, reg := registryAdd r.reg r.srv.nextId } : RegSys).Kept := by
  have hgood := srvStep_calm_good (hk.good hrun) h
  obtain rfl := Option.some.inj h
  have hlives : ({ r.srv.setConn r.srv.nextId (connNew r.srv.nextId) with nextId := r.srv.nextId + 1 } : Srv).lives =
      Function.update r.srv.lives r.srv.nextId true := by
    funext d
    unfold Srv.lives
    by_cases hd : d = r.srv.nextId
    · rw [hd, Function.update_self]
      exact congrArg Conn.live (setConn_conn_self r.srv _ _)
    · rw [Function.update_of_ne hd]
      exact congrArg Conn.live (setConn_conn_of_ne _ hd)
  refine ⟨?_, fun _ => hgood, fun _ p c hc => ?_, fun hend => absurd hend (by simp [hrun]), fun c hc => ?_, fun _ => hk.sink hrun⟩
  · show Listed _ _ (Srv.lives _)
    rw [hlives]
    exact hk.listed.add
  · have hold : r.srv.lives c = true := hk.held hrun p c (by cases p <;> exact hc)
    show Srv.lives _ c = true
    rw [hlives, Function.update_of_ne (hk.listed.born c hold).2.ne]
    exact hold
  · obtain ⟨hpos, hlt, hat⟩ := hk.adopted c hc
    refine ⟨hpos, Nat.lt_succ_of_lt hlt, fun hlive => hat ?_⟩
    have hlive' : Srv.lives _ c = true := hlive
    rwa [hlives, Function.update_of_ne hlt.ne] at hlive'

/-- what another step of the server does to who is live -/
theorem follow_listed {a : Act} (hl : Listed reg s.nextId s.lives) (hheld : ∀ c, s.closes a = some c → s.lives c = true)
    (ha : a ≠ .accept) (h : srvStep conf s a = some t) : Listed (reg.follow s a) t.nextId t.lives := by
  have hnext : t.nextId = s.nextId := by
    rcases srvStep_given h with ⟨haccept, -⟩ | ⟨-, hnext⟩
    · exact absurd haccept ha
    · exact hnext
  have hstep : ∀ d, t.lives d = if s.closes a = some d then false else s.lives d := srvStep_lives h ha
  rw [hnext]
  cases hc : s.closes a with
  | none =>
    have hfollow : reg.follow s a = reg := by
      cases a with
      | accept => exact absurd rfl ha
      | _ => simp only [Registry.follow, hc]
    have hlives : t.lives = s.lives := by
      funext d
      rw [hstep, hc, if_neg nofun]
    rw [hfollow, hlives]
    exact hl
  | some c =>
    have hfollow : reg.follow s a = reg.connClose c := by
      cases a with
      | accept => exact absurd rfl ha
      | _ => simp only [Registry.follow, hc]
    have hlives : t.lives = Function.update s.lives c false := by
      funext d
      rw [hstep, hc]
      by_cases hd : d = c
      · rw [hd, if_pos rfl, Function.update_self]
      · rw [if_neg fun h => hd (Option.some.inj h).symm, Function.update_of_ne hd]
    rw [hfollow, hlives]
    exact hl.close (hheld c hc)

/-- who was adopted and is live is the sink -/
theorem aggStep_adopted (hu : aggStep conf s.sys e = some u) (hstays : s.sys.closes e ≠ some c)
    (hwas : c ∉ s.sys.adopts → s.sys.agg.sink = some c) : u.agg.sink = some c := by
  rw [aggStep_sink hu]
  cases hadopts : s.sys.adopts with
  | none =>
    have hold := hwas (by rw [hadopts]; nofun)
    have hcloses : s.sys.closes e = none := by
      rw [Option.eq_none_iff_forall_ne_some]
      intro d hd
      have hsame := AggSys.closes_sink hd
      rw [hold] at hsame
      obtain rfl := Option.some.inj hsame
      exact hstays hd
    rw [hcloses]
    exact hold
  | some k =>
    by_cases hk : k = c
    · exact congrArg some hk
    · -- the sink before it is closed
      have hold := hwas (by rw [hadopts]; exact fun h => hk (Option.some.inj h))
      have hcloses : s.sys.closes e = s.sys.agg.sink := AggSys.closes_adopts (by rw [hadopts]; rfl)
      exact absurd (hcloses.trans hold) hstays

/-- the sink was adopted -/
theorem aggStep_adopts (hu : aggStep conf s.sys e = some u) (hc : u.agg.sink = some c) :
    c ∈ s.sys.adopts ∨ s.sys.agg.sink = some c := by
  rw [aggStep_sink hu] at hc
  cases hadopts : s.sys.adopts with
  | none =>
    rw [hadopts] at hc
    dsimp only at hc
    split_ifs at hc
    exact .inr hc
  | some k =>
    rw [hadopts] at hc
    exact .inl hc

/-- any other step of the server -/
theorem RegSys.Kept.act {a : Act} (hk : r.Kept) (hrun : r.ended = false) (ha : a ≠ .accept)
    (h : srvStep conf r.srv a = some t) :
    ({ r with srv := t, reg := r.reg.follow r.srv a, adopted := r.adopted ++ a.adopts r.srv } : RegSys).Kept := by
  have hlive : ∀ d, t.lives d = true → r.srv.closes a ≠ some d ∧ r.srv.lives d = true := by
    intro d hd
    have hstep : t.lives d = if r.srv.closes a = some d then false else r.srv.lives d := srvStep_lives h ha d
    rw [hstep] at hd
    split_ifs at hd with hc
    exact ⟨hc, hd⟩
  have hheld : ∀ d, r.srv.closes a = some d → r.srv.lives d = true := by
    intro d hd
    obtain ⟨p, hp⟩ := Srv.closes_owned hd
    exact hk.held hrun p d hp
  have hnext : r.srv.nextId ≤ t.nextId := srvStep_nextId h
  have hothers : (∀ e, a ≠ .agg e) → t.sys.agg.sink = r.srv.sys.agg.sink ∧ a.adopts r.srv = [] := by
    intro hagg
    refine ⟨by rw [srvStep_others h hagg], ?_⟩
    cases a with
    | agg e => exact absurd rfl (hagg e)
    | _ => rfl
  refine ⟨follow_listed hk.listed hheld ha h, fun _ => srvStep_calm_good (hk.good hrun) h, fun _ p c hc => ?_,
    fun hend => absurd hend (by simp [hrun]), fun c hc => ?_, fun _ c hc => ?_⟩
  · have hkeep : r.srv.closes a ≠ some c := fun hcl => srvStep_lost (hk.good hrun) h hcl p hc
    refine (srvStep_lives h ha c).trans ?_
    rw [if_neg hkeep]
    rcases srvStep_owned h ⟨p, hc⟩ with ⟨q, hq⟩ | hfetched
    · exact hk.held hrun q c hq
    · exact hfetched
  · by_cases hagg : ∃ e, a = .agg e
    · obtain ⟨e, rfl⟩ := hagg
      obtain ⟨u, hu, rfl⟩ := Option.map_eq_some_iff.1 h
      rcases List.mem_append.1 hc with hold | hnew
      · obtain ⟨hpos, hlt, hat⟩ := hk.adopted c hold
        exact ⟨hpos, hlt, fun hlc => aggStep_adopted hu (hlive c hlc).1 fun _ => hat (hlive c hlc).2⟩
      · have hadopts : r.srv.sys.adopts = some c := Option.mem_toList.1 hnew
        obtain ⟨hpos, hlt⟩ := hk.listed.born c (hk.held hrun .ctrl c (adopts_ctrl hadopts))
        refine ⟨hpos, hlt, fun hlc => ?_⟩
        exact aggStep_adopted hu (hlive c hlc).1 fun hno => absurd hadopts hno
    · obtain ⟨hsame, hnone⟩ := hothers fun e he => hagg ⟨e, he⟩
      rw [hnone, List.append_nil] at hc
      obtain ⟨hpos, hlt, hat⟩ := hk.adopted c hc
      exact ⟨hpos, hlt.trans_le hnext, fun hlc => hsame.trans (hat (hlive c hlc).2)⟩
  · by_cases hagg : ∃ e, a = .agg e
    · obtain ⟨e, rfl⟩ := hagg
      obtain ⟨u, hu, rfl⟩ := Option.map_eq_some_iff.1 h
      rcases aggStep_adopts hu hc with hnew | hold
      · exact List.mem_append_right _ (Option.mem_toList.2 hnew)
      · exact List.mem_append_left _ (hk.sink hrun c hold)
    · obtain ⟨hsame, -⟩ := hothers fun e he => hagg ⟨e, he⟩
      exact List.mem_append_left _ (hk.sink hrun c (hsame.symm.trans hc))

/-- a connection that could not be registered -/
theorem RegSys.Kept.addFails (hk : r.Kept) (hrun : r.ended = false) {v : Conn} (hid : v.id = r.srv.nextId)
    (hdead : v.live = false) :
    ({ r with
        srv := { r.srv.setConn r.srv.nextId v with nextId := r.srv.nextId + 1 }
        reg := (connDestroy (registryAdd r.reg r.srv.nextId) r.srv.nextId).closeFd r.srv.nextId } : RegSys).Kept := by
  have hlives : ({ r.srv.setConn r.srv.nextId v with nextId := r.srv.nextId + 1 } : Srv).lives = r.srv.lives := by
    funext d
    by_cases hd : d = r.srv.nextId
    · rw [hd, hk.listed.not_live le_rfl]
      exact (congrArg Conn.live (setConn_conn_self r.srv _ v)).trans hdead
    · exact congrArg Conn.live (setConn_conn_of_ne v hd)
  have hlisted := hk.listed.add.close (Function.update_self _ _ _)
  rw [Function.update_idem, Function.update_eq_self_iff.2 (hk.listed.not_live le_rfl).symm] at hlisted
  refine ⟨?_, fun _ => new_good (hk.good hrun) hid, fun _ p c hc => ?_, fun hend => absurd hend (by simp [hrun]), fun c hc => ?_,
    fun _ => hk.sink hrun⟩
  · show Listed _ _ (Srv.lives _)
    rw [hlives]
    exact hlisted
  · refine (congrFun hlives c).trans (hk.held hrun p c ?_)
    cases p <;> exact hc
  · obtain ⟨hpos, hlt, hat⟩ := hk.adopted c hc
    exact ⟨hpos, Nat.lt_succ_of_lt hlt, fun hlive => hat ((congrFun hlives c).symm.trans hlive)⟩

/-- `registryDestroyAll` -/
theorem RegSys.Kept.destroyAll (hk : r.Kept) :
    ({ r with
        srv := r.srv.freeAll (r.reg.links.walk r.srv.nextId r.reg.links.head)
        reg := registryDestroyAll r.srv.nextId r.reg
        ended := true } : RegSys).Kept := by
  obtain ⟨-, hmem⟩ := hk.listed.walk
  have hlives : (r.srv.freeAll (r.reg.links.walk r.srv.nextId r.reg.links.head)).lives = fun _ => false := by
    funext c
    show (if c ∈ r.reg.links.walk r.srv.nextId r.reg.links.head then _ else _ : Conn).live = false
    split_ifs with hin
    · rfl
    · exact Bool.eq_false_iff.2 fun hlive => hin ((hmem c).2 hlive)
  refine ⟨?_, nofun, nofun, fun _ c => congrFun hlives c, fun c hc => ?_, nofun⟩
  · show Listed _ _ (Srv.lives _)
    rw [hlives]
    exact hk.listed.destroyAll
  · obtain ⟨hpos, hlt, -⟩ := hk.adopted c hc
    exact ⟨hpos, hlt, fun hlive => absurd ((congrFun hlives c).symm.trans hlive) nofun⟩

/-- **Every step keeps it.** -/
theorem regStep_kept {b : RegAct} (hk : r.Kept) (h : regStep conf r b = some r') : r'.Kept := by
  unfold regStep at h
  split_ifs at h with hend
  have hrun : r.ended = false := Bool.eq_false_iff.2 hend
  have hgood := hk.good hrun
  cases b with
  | act a =>
    obtain ⟨t, ht, rfl⟩ := Option.map_eq_some_iff.1 h
    by_cases ha : a = .accept
    · subst ha
      have haccept := hk.accept hrun ht
      rwa [← List.append_nil r.adopted] at haccept
    · exact hk.act hrun ha ht
  | addFails =>
    obtain rfl := Option.some.inj h
    exact hk.addFails hrun rfl rfl
  | enqueueFails c =>
    dsimp only at h
    split_ifs at h with hc
    obtain rfl := Option.some.inj h
    refine hk.release (p := .fetched) hrun (List.perm_cons_erase hc) (by rintro ⟨⟩) (by rintro ⟨⟩) ?_ rfl (fun _ _ _ => rfl) rfl
    funext p
    cases p <;> rfl
  | handoffFails w =>
    dsimp only at h
    cases hw : r.srv.workers w with
    | handoffPush c =>
      simp only [hw] at h
      obtain rfl := Option.some.inj h
      have hperm : (r.srv.cell (.worker w)).Perm (c :: []) := by simp [Srv.cell, hw, WPc.holds]
      exact hk.release hrun hperm (by rintro ⟨⟩) (by rintro ⟨⟩) (cell_idle r.srv w c _) rfl (about_idle rfl) rfl
    | _ => simp only [hw] at h; cases h
  | shutQueue | shutData | shutCtrl =>
    obtain rfl := Option.some.inj h
    exact hk.quiet hrun (by funext p; cases p <;> rfl) rfl rfl rfl rfl
  | destroyAll =>
    obtain rfl := Option.some.inj h
    exact hk.destroyAll

/-- what the registry and the counts say -/
structure RegSys.Lawful (r : RegSys) : Prop where
  /-- a well-formed list of those that were created and are not freed -/
  list : ∃ xs, r.reg.links.Holds xs ∧ ∀ c, c ∈ xs ↔ (0 < c ∧ c < r.srv.nextId) ∧ r.reg.freed c = 0
  /-- these are the ones in use -/
  live : ∀ c, (r.srv.conn c).live = true ↔ (0 < c ∧ c < r.srv.nextId) ∧ r.reg.freed c = 0
  once : ∀ c, r.reg.freed c ≤ 1
  created : ∀ c, r.reg.freed c ≠ 0 → 0 < c ∧ c < r.srv.nextId
  closed : ∀ c, r.reg.closed c = r.reg.freed c
  /-- at the end each was freed -/
  ended : r.ended = true → ∀ c, 0 < c → c < r.srv.nextId → r.reg.freed c = 1
  /-- of the connections `adoptSink` was called with, only the sink is not freed -/
  adopted : ∀ c ∈ r.adopted, r.reg.freed c = 0 → r.srv.sys.agg.sink = some c
  sink : r.ended = false → ∀ c, r.srv.sys.agg.sink = some c → c ∈ r.adopted ∧ r.reg.freed c = 0

theorem RegSys.Kept.lawful (hk : r.Kept) : r.Lawful := by
  have hlive : ∀ c, (r.srv.conn c).live = true ↔ (0 < c ∧ c < r.srv.nextId) ∧ r.reg.freed c = 0 := by
    intro c
    rw [hk.listed.freed c]
    cases hc : (r.srv.conn c).live with
    | true =>
      have hborn := hk.listed.born c hc
      have hstays : r.srv.lives c = true := hc
      simp [hborn, hstays]
    | false =>
      have hgone : r.srv.lives c = false := hc
      simp only [hgone, and_true, Bool.false_eq_true, false_iff, not_and]
      intro hborn
      rw [if_pos hborn]
      exact Nat.one_ne_zero
  obtain ⟨xs, hxs, hmem⟩ := hk.listed.list
  refine ⟨⟨xs, hxs, fun c => (hmem c).trans (hlive c)⟩, hlive, fun c => ?_, fun c hc => ?_, hk.listed.closed, ?_, ?_, ?_⟩
  · rw [hk.listed.freed c]
    split_ifs <;> omega
  · rw [hk.listed.freed c] at hc
    split_ifs at hc with hborn
    · exact ⟨hborn.1, hborn.2.1⟩
    · exact absurd rfl hc
  · intro hend c hpos hlt
    rw [hk.listed.freed c, if_pos ⟨hpos, hlt, hk.gone hend c⟩]
  · intro c hc hfreed
    obtain ⟨hpos, hlt, hat⟩ := hk.adopted c hc
    exact hat ((hlive c).2 ⟨⟨hpos, hlt⟩, hfreed⟩)
  · intro hrun c hc
    have hin : c ∈ r.srv.cell .sink := by simp [Srv.cell, hc]
    exact ⟨hk.sink hrun c hc, ((hlive c).1 (hk.held hrun .sink c hin)).2⟩

/-- **The registry of every run.** At every step the list holds exactly the connections that were created and are not freed,
each once; each is freed once at most, and once it is at the end, and its descriptor closed as often; and no two connections
are the sink. -/
theorem registry_lawful (conf : ServerConfig) (r : RegSys) (h : Reachable (regStep conf) .start r) : r.Lawful :=
  (h.invariant (P := RegSys.Kept) start_kept fun _ _ _ hk _ hstep => regStep_kept hk hstep).lawful

/-- two sinks, the second of which replaces the first, a connection that cannot be registered, and the end -/
def twoSinks : List RegAct :=
  ([Act.accept, .deliver 1 (hello "/feed") .open, .fetch 1, .enqueue 1] ++ List.replicate 5 (Act.worker 0 calmWork) ++
    [Act.agg calmAgg, .accept, .deliver 2 (hello "/feed") .open, .fetch 2, .enqueue 2] ++
    List.replicate 5 (Act.worker 0 calmWork) ++ List.replicate 20 (Act.agg calmAgg)).map RegAct.act ++
    [RegAct.addFails, .shutQueue, .shutData, .shutCtrl, .destroyAll]

theorem twoSinks_end : (exec (regStep smallConf) .start twoSinks).map
    (fun r => decide (r.ended = true ∧ r.adopted = [1, 2] ∧ r.srv.nextId = 4)) = some true := by
  decide +kernel

theorem registry_lawful_twoSinks : ∃ r, Reachable (regStep smallConf) .start r ∧ r.ended = true ∧ r.adopted = [1, 2] ∧
    r.srv.nextId = 4 ∧ r.Lawful := by
  obtain ⟨r, hr, hend⟩ := Reachable.of_check (regStep smallConf) .start twoSinks _ twoSinks_end
  obtain ⟨hended, hadopted, hnext⟩ := of_decide_eq_true hend
  exact ⟨r, hr, hended, hadopted, hnext, registry_lawful smallConf r hr⟩

end WsServer
