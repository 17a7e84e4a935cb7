/-
Objects behind a mutex with one condition variable.

A call takes the mutex, waits while its test says so, does its statements one by one, wakes whom it has to wake and gives
the mutex back. `pthread_cond_wait` gives the mutex back and sleeps in one step. A sleeper is woken by a signal, by a
broadcast or for no reason at all, and needs the mutex again before it tests again.

`base` and `log` are a record: the object as the calls done so far have left it, and those calls with their results. A call
is done where its last statement is; what follows changes nothing.

- `Moves`: what one step does.
- `Sound`: one thread at most is inside. The calls done so far are a serial run, each of them on the object the one before
  it left, and what the owner of the mutex has made of the object since is the front of its statements.
- `Stock.Served`: where sleepers wait for something to take, there are never more things than threads on their way to
  take one; so a sleeper is never left alone with something it could have.
- `Sound.stuck`, `Stock.Served.stuck`: where no call can go on, all that have not ended sleep, and have nothing to take.
-/
import Mathlib
import WsServer.Core.Machine

namespace WsServer.Monitor

open Machine

/-- whom a call wakes when its statements are done -/
inductive Wakes where
  | nobody | one | all
deriving DecidableEq, Repr

structure Object (σ κ ρ : Type) where
  /-- the test of the wait loop -/
  waits : κ → σ → Bool
  /-- the statements behind the loop, as they follow from what is found there -/
  body : κ → σ → List (σ → σ)
  ret : κ → σ → ρ
  wakes : κ → Wakes

variable {T σ κ ρ : Type}

def runAll (fs : List (σ → σ)) (s : σ) : σ := fs.foldl (fun s f => f s) s

theorem runAll_append (fs gs : List (σ → σ)) (s : σ) : runAll (fs ++ gs) s = runAll gs (runAll fs s) :=
  List.foldl_append

/-- the whole call in one step -/
def Object.after (o : Object σ κ ρ) (k : κ) (s : σ) : σ := runAll (o.body k s) s

/-- where a thread stands in its call -/
inductive Stage (σ κ ρ : Type) where
  | outside
  /-- in `pthread_mutex_lock` -/
  | entering (k : κ)
  /-- at the head of the wait loop -/
  | testing (k : κ)
  | asleep (k : κ)
  | woken (k : κ)
  | running (k : κ) (r : ρ) (rest : List (σ → σ))
  /-- at the signal or broadcast -/
  | waking (k : κ)
  | leaving

/-- between lock and unlock -/
def Stage.inside : Stage σ κ ρ → Bool
  | .testing _ | .running _ _ _ | .waking _ | .leaving => true
  | _ => false

/-- the call, until it is done -/
def Stage.call : Stage σ κ ρ → Option κ
  | .entering k | .testing k | .asleep k | .woken k | .running k _ _ => some k
  | _ => none

def Stage.sleeps : Stage σ κ ρ → Bool
  | .asleep _ => true
  | _ => false

def Stage.wake : Stage σ κ ρ → Stage σ κ ρ
  | .asleep k => .woken k
  | g => g

structure State (T σ κ ρ : Type) where
  sh : σ
  owner : Option T
  stage : T → Stage σ κ ρ
  -- the record
  base : σ
  log : List (T × κ × ρ)

def State.start (s0 : σ) : State T σ κ ρ := ⟨s0, none, fun _ => .outside, s0, []⟩

inductive Act (T κ : Type) where
  | call (t : T) (k : κ)
  | lock (t : T)
  /-- the next statement of the thread that has the mutex -/
  | work (t : T)
  /-- `pthread_cond_signal`, and the sleeper it wakes -/
  | signal (t : T) (u : Option T)
  | spurious (t : T)
deriving DecidableEq, Repr

/-! ## The calls one after another -/

variable {o : Object σ κ ρ} {s s' : State T σ κ ρ} {s0 : σ}

/-- a serial run: every call is done on what the one before it left, and none of them has to wait -/
inductive Object.Serial (o : Object σ κ ρ) (s0 : σ) : List (T × κ × ρ) → σ → Prop where
  | nil : o.Serial s0 [] s0
  | snoc {log : List (T × κ × ρ)} {s : σ} (t : T) (k : κ) : o.Serial s0 log s → o.waits k s = false →
      o.Serial s0 (log ++ [(t, k, o.ret k s)]) (o.after k s)

/-- what a thread inside has made of `base` -/
def Object.Within (o : Object σ κ ρ) (base sh : σ) : Stage σ κ ρ → Prop
  | .running k r rest =>
    o.waits k base = false ∧ r = o.ret k base ∧ ∃ done, o.body k base = done ++ rest ∧ sh = runAll done base
  | _ => sh = base

structure Sound (o : Object σ κ ρ) (s0 : σ) (s : State T σ κ ρ) : Prop where
  serial : o.Serial s0 s.log s.base
  free : s.owner = none → s.sh = s.base
  within : ∀ t, s.owner = some t → o.Within s.base s.sh (s.stage t)
  inside : ∀ t, (s.stage t).inside = true ↔ s.owner = some t

theorem start_sound (s0 : σ) : Sound o s0 (State.start s0 : State T σ κ ρ) where
  serial := .nil
  free _ := rfl
  within t ht := absurd ht (Option.some_ne_none t).symm
  inside t := ⟨fun h => absurd h Bool.false_ne_true, fun h => absurd h (Option.some_ne_none t).symm⟩

theorem wake_inside (g : Stage σ κ ρ) : g.wake.inside = g.inside := by
  cases g <;> rfl

theorem wake_of_inside {g : Stage σ κ ρ} (h : g.inside = true) : g.wake = g := by
  cases g with
  | asleep k => cases h
  | _ => rfl

/-- threads outside go on -/
theorem Sound.aside (h : Sound o s0 s) {stage : T → Stage σ κ ρ} (hin : ∀ u, (stage u).inside = (s.stage u).inside)
    (hown : ∀ u, (s.stage u).inside = true → stage u = s.stage u) : Sound o s0 { s with stage := stage } where
  serial := h.serial
  free := h.free
  within t ht := by
    show o.Within s.base s.sh (stage t)
    rw [hown t ((h.inside t).2 ht)]
    exact h.within t ht
  inside t := by
    show (stage t).inside = true ↔ s.owner = some t
    rw [hin, h.inside]

/-- what a thread inside that runs no statement has in its hands is `base` -/
theorem Sound.at_base (h : Sound o s0 s) {t : T} (hin : (s.stage t).inside = true)
    (hrun : ∀ k r rest, s.stage t ≠ .running k r rest) : s.sh = s.base := by
  have hwithin := h.within t ((h.inside t).1 hin)
  cases hg : s.stage t with
  | running k r rest => exact absurd hg (hrun k r rest)
  | _ => rw [hg] at hwithin; exact hwithin

/-- behind the last statement of a call -/
theorem Sound.finished (h : Sound o s0 s) {t : T} {k : κ} {r : ρ} (hg : s.stage t = .running k r []) :
    o.waits k s.base = false ∧ r = o.ret k s.base ∧ s.sh = o.after k s.base := by
  have hin : (s.stage t).inside = true := by rw [hg]; rfl
  have hwithin := h.within t ((h.inside t).1 hin)
  rw [hg] at hwithin
  obtain ⟨hw, hr, before, hbody, hsh⟩ := hwithin
  rw [List.append_nil] at hbody
  refine ⟨hw, hr, ?_⟩
  unfold Object.after
  rw [hsh, hbody]

/-- the other threads are outside, whoever had the mutex -/
theorem Sound.others (h : Sound o s0 s) {t u : T} (ht : s.owner = none ∨ s.owner = some t) (hu : u ≠ t) :
    (s.stage u).inside = false := by
  rw [← Bool.not_eq_true, h.inside]
  rcases ht with ht | ht <;> rw [ht]
  · exact (Option.some_ne_none u).symm
  · exact fun he => hu (Option.some.inj he).symm

/-! ## Steps -/

variable [DecidableEq T]

def State.goto (s : State T σ κ ρ) (t : T) (g : Stage σ κ ρ) : State T σ κ ρ :=
  { s with stage := Function.update s.stage t g }

def State.wakeAll (s : State T σ κ ρ) : State T σ κ ρ := { s with stage := fun t => (s.stage t).wake }

def step [Fintype T] (o : Object σ κ ρ) (s : State T σ κ ρ) : Act T κ → Option (State T σ κ ρ)
  | .call t k =>
    match s.stage t with
    | .outside => some (s.goto t (.entering k))
    | _ => none
  | .lock t =>
    match s.owner, s.stage t with
    | none, .entering k => some { s.goto t (.testing k) with owner := some t }
    | none, .woken k => some { s.goto t (.testing k) with owner := some t }
    | _, _ => none
  | .work t =>
    match s.stage t with
    | .testing k =>
      if o.waits k s.sh then some { s.goto t (.asleep k) with owner := none }
      else some (s.goto t (.running k (o.ret k s.sh) (o.body k s.sh)))
    | .running k r (f :: fs) => some { s.goto t (.running k r fs) with sh := f s.sh }
    | .running k r [] => some { s.goto t (.waking k) with base := s.sh, log := s.log ++ [(t, k, r)] }
    | .waking k =>
      match o.wakes k with
      | .nobody => some (s.goto t .leaving)
      | .one => none
      | .all => some (s.wakeAll.goto t .leaving)
    | .leaving => some { s.goto t .outside with owner := none }
    | _ => none
  | .signal t u =>
    match s.stage t with
    | .waking k =>
      if o.wakes k = .one then
        match u with
        | none => if ∀ v, (s.stage v).sleeps = false then some (s.goto t .leaving) else none
        | some v =>
          match s.stage v with
          | .asleep k' => some ((s.goto v (.woken k')).goto t .leaving)
          | _ => none
      else none
    | _ => none
  | .spurious t =>
    match s.stage t with
    | .asleep k => some (s.goto t (.woken k))
    | _ => none

/-- what a step does -/
inductive Moves (o : Object σ κ ρ) (s : State T σ κ ρ) : Act T κ → State T σ κ ρ → Prop where
  | call (t : T) (k : κ) : s.stage t = .outside → Moves o s (.call t k) (s.goto t (.entering k))
  | lock (t : T) (k : κ) : s.owner = none → s.stage t = .entering k ∨ s.stage t = .woken k →
      Moves o s (.lock t) { s.goto t (.testing k) with owner := some t }
  | sleep (t : T) (k : κ) : s.stage t = .testing k → o.waits k s.sh = true →
      Moves o s (.work t) { s.goto t (.asleep k) with owner := none }
  | begin (t : T) (k : κ) : s.stage t = .testing k → o.waits k s.sh = false →
      Moves o s (.work t) (s.goto t (.running k (o.ret k s.sh) (o.body k s.sh)))
  | work (t : T) (k : κ) (r : ρ) (f : σ → σ) (fs : List (σ → σ)) : s.stage t = .running k r (f :: fs) →
      Moves o s (.work t) { s.goto t (.running k r fs) with sh := f s.sh }
  | done (t : T) (k : κ) (r : ρ) : s.stage t = .running k r [] →
      Moves o s (.work t) { s.goto t (.waking k) with base := s.sh, log := s.log ++ [(t, k, r)] }
  | silent (t : T) (k : κ) : s.stage t = .waking k → o.wakes k = .nobody → Moves o s (.work t) (s.goto t .leaving)
  | broadcast (t : T) (k : κ) : s.stage t = .waking k → o.wakes k = .all →
      Moves o s (.work t) (s.wakeAll.goto t .leaving)
  | unheard (t : T) (k : κ) : s.stage t = .waking k → o.wakes k = .one → (∀ v, (s.stage v).sleeps = false) →
      Moves o s (.signal t none) (s.goto t .leaving)
  | signal (t v : T) (k k' : κ) : s.stage t = .waking k → o.wakes k = .one → s.stage v = .asleep k' →
      Moves o s (.signal t (some v)) ((s.goto v (.woken k')).goto t .leaving)
  | unlock (t : T) : s.stage t = .leaving → Moves o s (.work t) { s.goto t .outside with owner := none }
  | spurious (t : T) (k : κ) : s.stage t = .asleep k → Moves o s (.spurious t) (s.goto t (.woken k))

theorem step_moves [Fintype T] {a : Act T κ} (h : step o s a = some s') : Moves o s a s' := by
  cases a with
  | call t k =>
    unfold step at h
    cases hg : s.stage t with
    | outside => simp only [hg] at h; obtain rfl := Option.some.inj h; exact .call t k hg
    | _ => simp only [hg] at h; cases h
  | lock t =>
    unfold step at h
    cases ho : s.owner with
    | some u => simp only [ho] at h; cases h
    | none =>
      cases hg : s.stage t with
      | entering k => simp only [ho, hg] at h; obtain rfl := Option.some.inj h; exact .lock t k ho (.inl hg)
      | woken k => simp only [ho, hg] at h; obtain rfl := Option.some.inj h; exact .lock t k ho (.inr hg)
      | _ => simp only [ho, hg] at h; cases h
  | work t =>
    unfold step at h
    cases hg : s.stage t with
    | testing k =>
      simp only [hg] at h
      split_ifs at h with hw <;> obtain rfl := Option.some.inj h
      · exact .sleep t k hg hw
      · exact .begin t k hg (Bool.not_eq_true _ ▸ hw)
    | running k r rest =>
      cases rest with
      | nil => simp only [hg] at h; obtain rfl := Option.some.inj h; exact .done t k r hg
      | cons f fs => simp only [hg] at h; obtain rfl := Option.some.inj h; exact .work t k r f fs hg
    | waking k =>
      simp only [hg] at h
      cases hk : o.wakes k with
      | nobody => simp only [hk] at h; obtain rfl := Option.some.inj h; exact .silent t k hg hk
      | one => simp only [hk] at h; cases h
      | all => simp only [hk] at h; obtain rfl := Option.some.inj h; exact .broadcast t k hg hk
    | leaving => simp only [hg] at h; obtain rfl := Option.some.inj h; exact .unlock t hg
    | _ => simp only [hg] at h; cases h
  | signal t u =>
    unfold step at h
    cases hg : s.stage t with
    | waking k =>
      simp only [hg] at h
      by_cases hk : o.wakes k = .one
      swap
      · rw [if_neg hk] at h
        cases h
      rw [if_pos hk] at h
      cases u with
      | none =>
        dsimp only at h
        split_ifs at h with hv
        obtain rfl := Option.some.inj h
        exact .unheard t k hg hk hv
      | some v =>
        cases hv : s.stage v with
        | asleep k' => simp only [hv] at h; obtain rfl := Option.some.inj h; exact .signal t v k k' hg hk hv
        | _ => simp only [hv] at h; cases h
    | _ => simp only [hg] at h; cases h
  | spurious t =>
    unfold step at h
    cases hg : s.stage t with
    | asleep k => simp only [hg] at h; obtain rfl := Option.some.inj h; exact .spurious t k hg
    | _ => simp only [hg] at h; cases h

/-! ## One thread inside -/

/-- a thread outside goes on -/
theorem Sound.move (h : Sound o s0 s) {t : T} {g : Stage σ κ ρ} (hout : (s.stage t).inside = false) (hg : g.inside = false) :
    Sound o s0 (s.goto t g) := by
  refine h.aside (fun u => ?_) fun u hu => ?_
  · by_cases hut : u = t
    · rw [hut, Function.update_self, hg, hout]
    · rw [Function.update_of_ne hut]
  · refine Function.update_of_ne ?_ _ _
    rintro rfl
    rw [hout] at hu
    cases hu

/-- a thread takes the mutex, or goes on in it -/
theorem Sound.enter (h : Sound o s0 s) {t : T} {g : Stage σ κ ρ} (ht : s.owner = none ∨ s.owner = some t)
    (hstage : s'.stage = Function.update s.stage t g) (howner : s'.owner = some t) (hg : g.inside = true)
    (hserial : o.Serial s0 s'.log s'.base) (hwithin : o.Within s'.base s'.sh g) : Sound o s0 s' where
  serial := hserial
  free hn := by rw [howner] at hn; cases hn
  within u hu := by
    rw [howner] at hu
    obtain rfl := Option.some.inj hu
    rw [hstage, Function.update_self]
    exact hwithin
  inside u := by
    rw [hstage, howner]
    by_cases hu : u = t
    · rw [hu, Function.update_self, hg]
      exact ⟨fun _ => rfl, fun _ => rfl⟩
    · rw [Function.update_of_ne hu, h.others ht hu]
      exact ⟨fun he => absurd he Bool.false_ne_true, fun he => absurd (Option.some.inj he).symm hu⟩

/-- the thread inside gives the mutex back -/
theorem Sound.exit (h : Sound o s0 s) {t : T} {g : Stage σ κ ρ} (ht : s.owner = some t)
    (hbase : s.sh = s.base) (hg : g.inside = false) : Sound o s0 { s.goto t g with owner := none } where
  serial := h.serial
  free _ := hbase
  within u hu := absurd hu (Option.some_ne_none u).symm
  inside u := by
    show (Function.update s.stage t g u).inside = true ↔ none = some u
    refine ⟨fun he => ?_, fun he => absurd he (Option.some_ne_none u).symm⟩
    by_cases hu : u = t
    · rw [hu, Function.update_self, hg] at he
      cases he
    · rw [Function.update_of_ne hu, h.others (.inr ht) hu] at he
      cases he

/-- the thread inside goes on to a place where it changes nothing -/
theorem Sound.stay (h : Sound o s0 s) {t : T} {g : Stage σ κ ρ} (hin : (s.stage t).inside = true) (hg : g.inside = true)
    (hwithin : o.Within s.base s.sh g) : Sound o s0 (s.goto t g) :=
  h.enter (.inr ((h.inside t).1 hin)) rfl ((h.inside t).1 hin) hg h.serial hwithin

theorem Moves.sound {a : Act T κ} (h : Sound o s0 s) (hm : Moves o s a s') : Sound o s0 s' := by
  cases hm with
  | call t k hg => exact h.move (by rw [hg]; rfl) rfl
  | lock t k hfree hg => exact h.enter (g := .testing k) (.inl hfree) rfl rfl rfl h.serial (h.free hfree)
  | sleep t k hg hw =>
    have hin : (s.stage t).inside = true := by rw [hg]; rfl
    exact h.exit ((h.inside t).1 hin) (h.at_base hin (by rw [hg]; nofun)) rfl
  | begin t k hg hw =>
    have hin : (s.stage t).inside = true := by rw [hg]; rfl
    have hbase : s.sh = s.base := h.at_base hin (by rw [hg]; nofun)
    rw [hbase] at hw ⊢
    exact h.stay hin rfl ⟨hw, rfl, [], rfl, hbase⟩
  | work t k r f fs hg =>
    have hin : (s.stage t).inside = true := by rw [hg]; rfl
    have howner := (h.inside t).1 hin
    have hwithin := h.within t howner
    rw [hg] at hwithin
    obtain ⟨hw, hr, before, hbody, hsh⟩ := hwithin
    have hbody' : o.body k s.base = (before ++ [f]) ++ fs := by rw [hbody, List.append_assoc]; rfl
    have hsh' : f s.sh = runAll (before ++ [f]) s.base := by rw [runAll_append, ← hsh]; rfl
    exact h.enter (g := .running k r fs) (.inr howner) rfl howner rfl h.serial ⟨hw, hr, before ++ [f], hbody', hsh'⟩
  | done t k r hg =>
    have hin : (s.stage t).inside = true := by rw [hg]; rfl
    have howner := (h.inside t).1 hin
    obtain ⟨hw, rfl, hsh⟩ := h.finished hg
    refine h.enter (g := .waking k) (.inr howner) rfl howner rfl ?_ rfl
    show o.Serial s0 (s.log ++ [(t, k, o.ret k s.base)]) s.sh
    rw [hsh]
    exact h.serial.snoc t k hw
  | silent t k hg hk =>
    have hin : (s.stage t).inside = true := by rw [hg]; rfl
    exact h.stay hin rfl (h.at_base hin (by rw [hg]; nofun))
  | broadcast t k hg hk =>
    have hwoken : Sound o s0 s.wakeAll := h.aside (fun u => wake_inside _) fun u hu => wake_of_inside hu
    have hg' : s.wakeAll.stage t = .waking k := by
      show (s.stage t).wake = .waking k
      rw [hg]
      rfl
    have hin : (s.wakeAll.stage t).inside = true := by rw [hg']; rfl
    exact hwoken.stay hin rfl (hwoken.at_base hin (by rw [hg']; nofun))
  | unheard t k hg hk hv =>
    have hin : (s.stage t).inside = true := by rw [hg]; rfl
    exact h.stay hin rfl (h.at_base hin (by rw [hg]; nofun))
  | signal t v k k' hg hk hv =>
    have hvt : t ≠ v := by
      rintro rfl
      rw [hg] at hv
      cases hv
    have hmoved : Sound o s0 (s.goto v (.woken k')) := h.move (by rw [hv]; rfl) rfl
    have hg' : (s.goto v (.woken k')).stage t = .waking k := (Function.update_of_ne hvt _ _).trans hg
    have hin : ((s.goto v (.woken k')).stage t).inside = true := by rw [hg']; rfl
    exact hmoved.stay hin rfl (hmoved.at_base hin (by rw [hg']; nofun))
  | unlock t hg =>
    have hin : (s.stage t).inside = true := by rw [hg]; rfl
    exact h.exit ((h.inside t).1 hin) (h.at_base hin (by rw [hg]; nofun)) rfl
  | spurious t k hg => exact h.move (by rw [hg]; rfl) rfl

/-- a step ends a call, or starts one at most; `base` and `log` follow the calls that are done -/
theorem Moves.calls {a : Act T κ} (hm : Moves o s a s') :
    (∃ t k r, s.stage t = .running k r [] ∧ s'.base = s.sh ∧ s'.log = s.log ++ [(t, k, r)] ∧
      s'.stage = Function.update s.stage t (.waking k)) ∨
    s'.base = s.base ∧ s'.log = s.log ∧ ∀ t k, (s'.stage t).call = some k → (s.stage t).call = some k ∨ a = .call t k := by
  have hgoto : ∀ {t : T} {g : Stage σ κ ρ}, (∀ k, g.call = some k → (s.stage t).call = some k ∨ a = .call t k) →
      ∀ u k, ((s.goto t g).stage u).call = some k → (s.stage u).call = some k ∨ a = .call u k := by
    intro t g hg u k hu
    by_cases hut : u = t
    · subst hut
      exact hg k (by rwa [show (s.goto u g).stage u = g from Function.update_self _ _ _] at hu)
    · exact .inl (by rwa [show (s.goto t g).stage u = s.stage u from Function.update_of_ne hut _ _] at hu)
  cases hm with
  | done t k r hg => exact .inl ⟨t, k, r, hg, rfl, rfl, rfl⟩
  | call t k hg => exact .inr ⟨rfl, rfl, hgoto fun k' hk' => .inr (by rw [Option.some.inj hk'])⟩
  | lock t k hfree hg =>
    refine .inr ⟨rfl, rfl, hgoto (g := .testing k) fun k' hk' => .inl ?_⟩
    rcases hg with hg | hg <;> rw [hg] <;> exact hk'
  | sleep t k hg hw => exact .inr ⟨rfl, rfl, hgoto (g := .asleep k) fun k' hk' => .inl (by rw [hg]; exact hk')⟩
  | begin t k hg hw => exact .inr ⟨rfl, rfl, hgoto fun k' hk' => .inl (by rw [hg]; exact hk')⟩
  | work t k r f fs hg =>
    exact .inr ⟨rfl, rfl, hgoto (g := .running k r fs) fun k' hk' => .inl (by rw [hg]; exact hk')⟩
  | silent t k hg hk => exact .inr ⟨rfl, rfl, hgoto (by rintro k' ⟨⟩)⟩
  | unheard t k hg hk hv => exact .inr ⟨rfl, rfl, hgoto (by rintro k' ⟨⟩)⟩
  | unlock t hg => exact .inr ⟨rfl, rfl, hgoto (g := .outside) (by rintro k' ⟨⟩)⟩
  | spurious t k hg => exact .inr ⟨rfl, rfl, hgoto fun k' hk' => .inl (by rw [hg]; exact hk')⟩
  | broadcast t k hg hk =>
    refine .inr ⟨rfl, rfl, fun u k' hu => .inl ?_⟩
    by_cases hut : u = t
    · rw [hut, show (s.wakeAll.goto t .leaving).stage t = .leaving from Function.update_self _ _ _] at hu
      cases hu
    · rw [show (s.wakeAll.goto t .leaving).stage u = (s.stage u).wake from Function.update_of_ne hut _ _] at hu
      cases hgu : s.stage u <;> rw [hgu] at hu <;> exact hu
  | signal t v k k' hg hk hv =>
    refine .inr ⟨rfl, rfl, fun u j hu => .inl ?_⟩
    by_cases hut : u = t
    · rw [hut, show ((s.goto v (.woken k')).goto t .leaving).stage t = .leaving from Function.update_self _ _ _] at hu
      cases hu
    · rw [show ((s.goto v (.woken k')).goto t .leaving).stage u = (s.goto v (.woken k')).stage u from
        Function.update_of_ne hut _ _] at hu
      rcases hgoto (t := v) (g := .woken k') (fun j hj => .inl (by rw [hv]; exact hj)) u j hu with h | h
      · exact h
      · cases h

variable [Fintype T]

/-- **Calls are atomic.** In every run one thread at most is inside, and what the calls have done is a serial run of them. -/
theorem reach_sound {ok : State T σ κ ρ → Act T κ → Prop} (h : Reach (step o) ok (State.start s0) s) : Sound o s0 s :=
  h.invariant (start_sound s0) fun _ _ _ hs _ hstep => (step_moves hstep).sound hs

/-! ## Nobody sleeps on what it could have -/

/-- a call that may have to wait -/
def Object.Taker (o : Object σ κ ρ) (k : κ) : Prop := ∃ s, o.waits k s = true

/-- an object that holds things to take, and may be closed: who wants one waits only while there is none and it is open.
A call that adds a thing wakes one sleeper; one that closes the object wakes all. -/
structure Stock (o : Object σ κ ρ) (good : σ → Prop) where
  count : σ → ℕ
  closed : σ → Prop
  waits_empty : ∀ {k s}, o.waits k s = true → count s = 0 ∧ ¬ closed s
  adds : ∀ {k s}, good s → o.waits k s = false → o.wakes k ≠ .all →
    count (o.after k s) ≤ count s + (if o.wakes k = .one then 1 else 0) ∧ (closed (o.after k s) → closed s)
  takes : ∀ {k s}, good s → o.Taker k → o.waits k s = false → count (o.after k s) ≤ count s - 1

/-- awake, and about to take a thing or to wake somebody -/
def Object.Coming (o : Object σ κ ρ) : Stage σ κ ρ → Prop
  | .woken _ => True
  | .testing k => o.Taker k
  | .running k _ _ => o.Taker k
  | .waking k => o.wakes k = .one
  | _ => False

open Classical in
noncomputable def Object.coming (o : Object σ κ ρ) (s : State T σ κ ρ) : Finset T :=
  Finset.univ.filter fun t => o.Coming (s.stage t)

/-- a broadcast is due -/
def Object.Broadcasting (o : Object σ κ ρ) (s : State T σ κ ρ) : Prop := ∃ t k, s.stage t = .waking k ∧ o.wakes k = .all

/-- where somebody sleeps, there are not more things than threads coming for them, unless all are about to be woken -/
structure Stock.Served {good : σ → Prop} (st : Stock o good) (s : State T σ κ ρ) : Prop where
  takers : ∀ t k, s.stage t = .asleep k ∨ s.stage t = .woken k → o.Taker k
  enough : (∃ t, (s.stage t).sleeps = true) →
    o.Broadcasting s ∨ st.count s.base ≤ (o.coming s).card ∧ ¬ st.closed s.base

section Served
variable {good : σ → Prop} {st : Stock o good} {t : T} {g : Stage σ κ ρ}

omit [DecidableEq T] in
theorem mem_coming : t ∈ o.coming s ↔ o.Coming (s.stage t) := by
  simp only [Object.coming, Finset.mem_filter, Finset.mem_univ, true_and]

omit [DecidableEq T] in
theorem coming_mono (h : ∀ u, o.Coming (s.stage u) → o.Coming (s'.stage u)) : (o.coming s).card ≤ (o.coming s').card :=
  Finset.card_le_card fun u hu => mem_coming.2 (h u (mem_coming.1 hu))

theorem coming_le (h : ∀ u, u ≠ t → o.Coming (s.stage u) → o.Coming (s'.stage u)) :
    (o.coming s).card ≤ (o.coming s').card + 1 := by
  have hsub : (o.coming s).erase t ⊆ o.coming s' := by
    intro u hu
    obtain ⟨hut, hu⟩ := Finset.mem_erase.1 hu
    exact mem_coming.2 (h u hut (mem_coming.1 hu))
  have hcard := Finset.card_le_card hsub
  have hpred : (o.coming s).card - 1 ≤ ((o.coming s).erase t).card := Finset.pred_card_le_card_erase
  omega

theorem coming_lt (h : ∀ u, u ≠ t → o.Coming (s.stage u) → o.Coming (s'.stage u)) (ht : ¬ o.Coming (s.stage t))
    (ht' : o.Coming (s'.stage t)) : (o.coming s).card + 1 ≤ (o.coming s').card := by
  rw [← Finset.card_insert_of_notMem fun hm => ht (mem_coming.1 hm)]
  refine Finset.card_le_card fun u hu => mem_coming.2 ?_
  by_cases hut : u = t
  · rw [hut]
    exact ht'
  · exact h u hut (mem_coming.1 ((Finset.mem_insert.1 hu).resolve_left hut))

omit [DecidableEq T] in
theorem start_served (s0 : σ) : st.Served (State.start s0 : State T σ κ ρ) where
  takers t k h := by rcases h with h | h <;> cases h
  enough h := by
    obtain ⟨t, ht⟩ := h
    cases ht

omit [DecidableEq T] in
/-- nobody is asleep -/
theorem Stock.Served.vacuous (htaker : ∀ t k, s'.stage t = .woken k → o.Taker k)
    (hnone : ∀ t, (s'.stage t).sleeps = false) : st.Served s' where
  takers t k ht := by
    rcases ht with ht | ht
    · have hsleeps := hnone t
      rw [ht] at hsleeps
      cases hsleeps
    · exact htaker t k ht
  enough ht := by
    obtain ⟨t, ht⟩ := ht
    rw [hnone t] at ht
    cases ht

omit [Fintype T] in
theorem stage_other (hstage : s'.stage = Function.update s.stage t g) {u : T} (hu : u ≠ t) : s'.stage u = s.stage u := by
  rw [hstage, Function.update_of_ne hu]

omit [Fintype T] in
theorem stage_self (hstage : s'.stage = Function.update s.stage t g) : s'.stage t = g := by
  rw [hstage, Function.update_self]

theorem Stock.Served.takers_of (h : st.Served s) (hstage : s'.stage = Function.update s.stage t g)
    (htaker : ∀ k, g = .asleep k ∨ g = .woken k → o.Taker k) (u : T) (k : κ)
    (hu : s'.stage u = .asleep k ∨ s'.stage u = .woken k) : o.Taker k := by
  by_cases hut : u = t
  · rw [hut, stage_self hstage] at hu
    exact htaker k hu
  · rw [stage_other hstage hut] at hu
    exact h.takers u k hu

omit [Fintype T] in
theorem sleeps_of (hstage : s'.stage = Function.update s.stage t g) (hsleeps : g.sleeps = true → (s.stage t).sleeps = true)
    (hsome : ∃ u, (s'.stage u).sleeps = true) : ∃ u, (s.stage u).sleeps = true := by
  obtain ⟨u, hu⟩ := hsome
  by_cases hut : u = t
  · rw [hut, stage_self hstage] at hu
    exact ⟨t, hsleeps hu⟩
  · rw [stage_other hstage hut] at hu
    exact ⟨u, hu⟩

/-- a thread that is not about to broadcast changes its place, and is coming afterwards if it was before -/
theorem Stock.Served.frame (h : st.Served s) (hstage : s'.stage = Function.update s.stage t g) (hbase : s'.base = s.base)
    (htaker : ∀ k, g = .asleep k ∨ g = .woken k → o.Taker k) (hsleeps : g.sleeps = true → (s.stage t).sleeps = true)
    (hcoming : o.Coming (s.stage t) → o.Coming g) (hnot : ∀ k, s.stage t = .waking k → o.wakes k ≠ .all) :
    st.Served s' := by
  refine ⟨h.takers_of hstage htaker, fun hu => ?_⟩
  rcases h.enough (sleeps_of hstage hsleeps hu) with ⟨u, k, hk, hall⟩ | ⟨hcount, hopen⟩
  · have hut : u ≠ t := by
      rintro rfl
      exact hnot k hk hall
    exact .inl ⟨u, k, (stage_other hstage hut).trans hk, hall⟩
  · rw [hbase]
    refine .inr ⟨hcount.trans (coming_mono fun u hu => ?_), hopen⟩
    by_cases hut : u = t
    · rw [hut] at hu ⊢
      rw [stage_self hstage]
      exact hcoming hu
    · rwa [stage_other hstage hut]

omit [DecidableEq T] [Fintype T] in
/-- only the thread inside can be about to broadcast -/
theorem Sound.not_broadcasting (hs : Sound o s0 s) (ht : s.owner = some t) (hg : ∀ k, s.stage t = .waking k → o.wakes k ≠ .all) :
    ¬ o.Broadcasting s := by
  rintro ⟨u, k, hk, hall⟩
  have hin : (s.stage u).inside = true := by rw [hk]; rfl
  have hut := (hs.inside u).1 hin
  rw [ht] at hut
  obtain rfl := Option.some.inj hut
  exact hg k hk hall

/-- a call is done: what it adds has somebody coming, and who has taken a thing comes for none any more -/
theorem Stock.Served.done (h : st.Served s) (hs : Sound o s0 s) (hgood : good s.base) {k : κ} {r : ρ}
    (hg : s.stage t = .running k r []) (hstage : s'.stage = Function.update s.stage t (.waking k))
    (hbase : s'.base = s.sh) : st.Served s' := by
  have hown : s.owner = some t := (hs.inside t).1 (by rw [hg]; rfl)
  obtain ⟨hw, -, hsh⟩ := hs.finished hg
  have hafter : s'.base = o.after k s.base := hbase.trans hsh
  refine ⟨h.takers_of hstage (by rintro k' (hk | hk) <;> cases hk), fun hsome => ?_⟩
  by_cases hall : o.wakes k = .all
  · exact .inl ⟨t, k, stage_self hstage, hall⟩
  have hbefore := h.enough (sleeps_of hstage (by rintro ⟨⟩) hsome)
  obtain ⟨hcount, hopen⟩ := hbefore.resolve_left (hs.not_broadcasting hown (by rw [hg]; nofun))
  obtain ⟨hadds, hclosed⟩ := st.adds hgood hw hall
  rw [hafter]
  refine .inr ⟨?_, fun hc => hopen (hclosed hc)⟩
  have hothers : ∀ u, u ≠ t → o.Coming (s.stage u) → o.Coming (s'.stage u) := by
    intro u hu hc
    rwa [stage_other hstage hu]
  by_cases htaker : o.Taker k
  · have htakes := st.takes hgood htaker hw
    have hle := coming_le hothers
    omega
  · have hnot : ¬ o.Coming (s.stage t) := by rw [hg]; exact htaker
    by_cases hone : o.wakes k = .one
    · have hlt := coming_lt hothers hnot (by rw [stage_self hstage]; exact hone)
      rw [if_pos hone] at hadds
      omega
    · rw [if_neg hone] at hadds
      refine hadds.trans (hcount.trans (coming_mono fun u hu => ?_))
      by_cases hut : u = t
      · rw [hut] at hu
        exact absurd hu hnot
      · exact hothers u hut hu

theorem Moves.served {a : Act T κ} (h : st.Served s) (hs : Sound o s0 s) (hgood : good s.base) (hm : Moves o s a s') :
    st.Served s' := by
  cases hm with
  | call t k hg =>
    refine h.frame rfl rfl ?_ ?_ ?_ ?_
    · rintro k' (hk | hk) <;> cases hk
    · rintro ⟨⟩
    · rw [hg]
      rintro ⟨⟩
    · rw [hg]
      nofun
  | lock t k hfree hg =>
    refine h.frame (t := t) (g := .testing k) rfl rfl ?_ ?_ ?_ ?_
    · rintro k' (hk | hk) <;> cases hk
    · rintro ⟨⟩
    · intro hc
      rcases hg with hg | hg
      · rw [hg] at hc
        cases hc
      · exact h.takers t k (.inr hg)
    · rcases hg with hg | hg <;> rw [hg] <;> nofun
  | sleep t k hg hw =>
    -- a new sleeper found nothing to take
    obtain ⟨hzero, hopen⟩ := st.waits_empty hw
    have hin : (s.stage t).inside = true := by rw [hg]; rfl
    rw [hs.at_base hin (by rw [hg]; nofun)] at hzero hopen hw
    refine ⟨h.takers_of (t := t) (g := .asleep k) rfl ?_, fun _ => .inr ⟨?_, hopen⟩⟩
    · rintro k' (hk | hk)
      · obtain rfl := Stage.asleep.inj hk
        exact ⟨_, hw⟩
      · cases hk
    · exact hzero.le.trans (Nat.zero_le _)
  | begin t k hg hw =>
    refine h.frame rfl rfl ?_ ?_ ?_ ?_
    · rintro k' (hk | hk) <;> cases hk
    · rintro ⟨⟩
    · rw [hg]
      exact id
    · rw [hg]
      nofun
  | work t k r f fs hg =>
    refine h.frame (t := t) (g := .running k r fs) rfl rfl ?_ ?_ ?_ ?_
    · rintro k' (hk | hk) <;> cases hk
    · rintro ⟨⟩
    · rw [hg]
      exact id
    · rw [hg]
      nofun
  | done t k r hg => exact h.done hs hgood hg rfl rfl
  | silent t k hg hk =>
    refine h.frame rfl rfl ?_ ?_ ?_ ?_
    · rintro k' (hk | hk) <;> cases hk
    · rintro ⟨⟩
    · rw [hg]
      intro hone
      exact absurd (hk.symm.trans hone) (by rintro ⟨⟩)
    · rw [hg]
      intro k' hk' hall
      obtain rfl := Stage.waking.inj hk'
      exact absurd (hk.symm.trans hall) (by rintro ⟨⟩)
  | broadcast t k hg hk =>
    have hwake : ∀ u, (s.wakeAll.goto t .leaving).stage u = if u = t then .leaving else (s.stage u).wake := by
      intro u
      split_ifs with hu
      · rw [hu]
        exact Function.update_self _ _ _
      · exact Function.update_of_ne hu _ _
    refine .vacuous (fun u k' hu => ?_) fun u => ?_
    · rw [hwake] at hu
      split_ifs at hu
      cases hg' : s.stage u with
      | asleep k'' =>
        rw [hg'] at hu
        obtain rfl := Stage.woken.inj hu
        exact h.takers u k'' (.inl hg')
      | woken k'' =>
        rw [hg'] at hu
        obtain rfl := Stage.woken.inj hu
        exact h.takers u k'' (.inr hg')
      | _ => rw [hg'] at hu; cases hu
    · rw [hwake]
      split_ifs
      · rfl
      · cases s.stage u <;> rfl
  | unheard t k hg hk hv =>
    refine .vacuous (fun u k' hu => ?_) fun u => ?_
    · by_cases hut : u = t
      · rw [hut, stage_self rfl] at hu
        cases hu
      · rw [stage_other rfl hut] at hu
        exact h.takers u k' (.inr hu)
    · by_cases hut : u = t
      · rw [hut, stage_self rfl]
        rfl
      · rw [stage_other rfl hut]
        exact hv u
  | signal t v k k' hg hk hv =>
    have hvt : v ≠ t := by
      rintro rfl
      rw [hg] at hv
      cases hv
    -- one comes, and the thread that woke it goes
    have hin : (s.stage t).inside = true := by rw [hg]; rfl
    have hnot := hs.not_broadcasting ((hs.inside t).1 hin) fun k'' hk'' hall => by
      rw [hg] at hk''
      obtain rfl := Stage.waking.inj hk''
      exact absurd (hk.symm.trans hall) (by rintro ⟨⟩)
    obtain ⟨hcount, hopen⟩ := (h.enough ⟨v, by rw [hv]; rfl⟩).resolve_left hnot
    have htaker : o.Taker k' := h.takers v k' (.inl hv)
    have hgain : (o.coming s).card + 1 ≤ (o.coming (s.goto v (.woken k'))).card := by
      refine coming_lt (t := v) (fun u hu hc => ?_) ?_ ?_
      · rwa [stage_other rfl hu]
      · rw [hv]
        rintro ⟨⟩
      · rw [stage_self rfl]
        trivial
    have hloss : (o.coming (s.goto v (.woken k'))).card ≤ (o.coming ((s.goto v (.woken k')).goto t .leaving)).card + 1 := by
      refine coming_le (t := t) fun u hu hc => ?_
      rwa [stage_other (s := s.goto v (.woken k')) rfl hu]
    have htakers : ∀ u j, (s.goto v (.woken k')).stage u = .asleep j ∨ (s.goto v (.woken k')).stage u = .woken j → o.Taker j := by
      refine h.takers_of rfl ?_
      rintro j (hj | hj)
      · cases hj
      · obtain rfl := Stage.woken.inj hj
        exact htaker
    refine ⟨fun u j hu => ?_, fun _ => .inr ⟨?_, hopen⟩⟩
    · by_cases hut : u = t
      · rw [hut, stage_self (s := s.goto v (.woken k')) rfl] at hu
        rcases hu with hu | hu <;> cases hu
      · rw [stage_other (s := s.goto v (.woken k')) rfl hut] at hu
        exact htakers u j hu
    · have hc : st.count s.base ≤ (o.coming s).card := hcount
      show st.count s.base ≤ _
      omega
  | unlock t hg =>
    refine h.frame (t := t) (g := .outside) rfl rfl ?_ ?_ ?_ ?_
    · rintro k' (hk | hk) <;> cases hk
    · rintro ⟨⟩
    · rw [hg]
      rintro ⟨⟩
    · rw [hg]
      nofun
  | spurious t k hg =>
    refine h.frame rfl rfl ?_ ?_ ?_ ?_
    · rintro k' (hk | hk)
      · cases hk
      · obtain rfl := Stage.woken.inj hk
        exact h.takers t k (.inl hg)
    · rintro ⟨⟩
    · exact fun _ => trivial
    · rw [hg]
      nofun

/-- **No wake-up is lost**, in any run in which the calls done so far keep the object good. -/
theorem reach_served {ok : State T σ κ ρ → Act T κ → Prop}
    (hgood : ∀ s, Reach (step o) ok (State.start s0) s → good s.base) (h : Reach (step o) ok (State.start s0) s) :
    st.Served s :=
  h.invariant_of (P := fun s => Sound o s0 s ∧ good s.base) (fun s hr => ⟨reach_sound hr, hgood s hr⟩) (start_served s0)
    fun _ _ _ hs hv _ hstep => (step_moves hstep).served hv hs.1 hs.2

end Served

/-! ## Where no call can go on -/

/-- no thread can go on with its call -/
def Stuck (o : Object σ κ ρ) (s : State T σ κ ρ) : Prop :=
  ∀ t, step o s (.lock t) = none ∧ step o s (.work t) = none ∧ ∀ u, step o s (.signal t u) = none

/-- then the mutex is free, and the calls that have not ended sleep -/
theorem Sound.stuck (h : Sound o s0 s) (hstuck : Stuck o s) :
    s.owner = none ∧ ∀ t, s.stage t = .outside ∨ ∃ k, s.stage t = .asleep k := by
  have hinside : ∀ t, (s.stage t).inside = false := by
    intro t
    obtain ⟨-, hwork, hsignal⟩ := hstuck t
    unfold step at hwork hsignal
    cases hg : s.stage t with
    | testing k => simp only [hg] at hwork; split_ifs at hwork
    | running k r rest => cases rest <;> simp only [hg] at hwork <;> cases hwork
    | waking k =>
      simp only [hg] at hwork hsignal
      cases hk : o.wakes k with
      | nobody => simp only [hk] at hwork; cases hwork
      | all => simp only [hk] at hwork; cases hwork
      | one =>
        -- there is a sleeper to wake, or none
        by_cases hv : ∀ v, (s.stage v).sleeps = false
        · have hnone := hsignal none
          rw [if_pos hk] at hnone
          dsimp only at hnone
          rw [if_pos hv] at hnone
          cases hnone
        · push Not at hv
          obtain ⟨v, hv⟩ := hv
          have hsome := hsignal (some v)
          rw [if_pos hk] at hsome
          cases hgv : s.stage v with
          | asleep k' => simp only [hgv] at hsome; cases hsome
          | _ => rw [hgv] at hv; exact absurd rfl hv
    | leaving => simp only [hg] at hwork; cases hwork
    | _ => rfl
  have hfree : s.owner = none := by
    cases ho : s.owner with
    | none => rfl
    | some t =>
      have hin := (h.inside t).2 ho
      rw [hinside t] at hin
      cases hin
  refine ⟨hfree, fun t => ?_⟩
  have hin := hinside t
  obtain ⟨hlock, -, -⟩ := hstuck t
  unfold step at hlock
  cases hg : s.stage t with
  | outside => exact .inl rfl
  | asleep k => exact .inr ⟨k, rfl⟩
  | entering k => simp only [hfree, hg] at hlock; cases hlock
  | woken k => simp only [hfree, hg] at hlock; cases hlock
  | _ => rw [hg] at hin; cases hin

/-- and who sleeps there has nothing to take -/
theorem Stock.Served.stuck {good : σ → Prop} {st : Stock o good} (h : st.Served s) (hs : Sound o s0 s)
    (hstuck : Stuck o s) (hsome : ∃ t, (s.stage t).sleeps = true) : st.count s.sh = 0 ∧ ¬ st.closed s.sh := by
  obtain ⟨hfree, hstage⟩ := hs.stuck hstuck
  have hnot : ∀ t, ¬ o.Coming (s.stage t) ∧ ∀ k, s.stage t ≠ .waking k := by
    intro t
    rcases hstage t with ht | ⟨k, ht⟩ <;> rw [ht]
    · exact ⟨id, nofun⟩
    · exact ⟨id, nofun⟩
  have hnone : o.coming s = ∅ := Finset.eq_empty_of_forall_notMem fun t ht => (hnot t).1 (mem_coming.1 ht)
  rcases h.enough hsome with ⟨t, k, hk, -⟩ | ⟨hcount, hopen⟩
  · exact absurd hk ((hnot t).2 k)
  · rw [hnone, Finset.card_empty] at hcount
    rw [hs.free hfree]
    exact ⟨Nat.le_zero.1 hcount, hopen⟩

end WsServer.Monitor
