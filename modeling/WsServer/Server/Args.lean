/-
`parseArgs` of `src/options.c`: the loop over what `getopt_long` delivers.

Each turn of the loop gets an option with its `optarg`, a string without NUL. `int` has 32 bits and `long` has 64; a
cast from `long` to `int` keeps the low 32 bits.

- `Decimal` (in `Server/Options.lean`): a number as `strtol` documents it.
- `parseArgs_sound`, `ArgConfig.serverConfig`: what `main` goes on with is a `ServerConfig`.
- `args_exact_iff`: the options mean what is written in them, except when one of the three `atoi` options has something
  behind its number, or a last value does not fit its type.
- `port_with_a_tail`: `--port 80abc` is taken for 80.
-/
import Mathlib
import WsServer.Agg.Agg
import WsServer.Server.Upstreams

namespace WsServer

open Ws

/-! ## Numbers -/

def LONG_MAX : ℤ := 2 ^ 63 - 1

def LONG_MIN : ℤ := -2 ^ 63

/-- `strtol` with the value of a number that is too long -/
def strtolLong (s : Bytes) : Option (ℤ × Bytes) := (strtol s).map fun r => (max LONG_MIN (min r.1 LONG_MAX), r.2)

/-- the cast to `int` -/
def toInt (v : ℤ) : ℤ := v.bmod (2 ^ 32)

def atoi (s : Bytes) : ℤ := toInt ((strtolLong s).elim 0 Prod.fst)

def parsePositive (s : Bytes) : ℤ :=
  match strtolLong s with
  | none => -1
  | some (v, stop) => if stop ≠ [] ∨ v ≤ 0 then -1 else v

/-! ## The options -/

def DEFAULT_PORT : ℤ := 33333
def DEFAULT_WORKERS : ℤ := 8
def DEFAULT_LISTENERS : ℤ := 2
def DEFAULT_SINK_PATH : Bytes := ascii "/feed"
def DEFAULT_HANDSHAKE_MAX : ℕ := 8 * 1024
def DEFAULT_MAX_MESSAGE : ℕ := 4 * 1024 * 1024
def DEFAULT_HIGH_WATERMARK : ℕ := 256
def DEFAULT_LOW_WATERMARK : ℕ := 128
def DEFAULT_TICK_MS : ℤ := 1000
def MAX_WORKERS : ℤ := 64
def MAX_LISTENERS : ℤ := 16

/-- `ServerConfig_t` -/
structure ArgConfig where
  port : ℤ
  workers : ℤ
  listeners : ℤ
  sinkPath : Bytes
  handshakeMax : ℕ
  maxFrame : ℕ
  maxMessage : ℕ
  highWatermark : ℕ
  lowWatermark : ℕ
  tickMs : ℤ
  upstreams : UpstreamList
deriving DecidableEq, Repr

def ArgConfig.default : ArgConfig where
  port := DEFAULT_PORT
  workers := DEFAULT_WORKERS
  listeners := DEFAULT_LISTENERS
  sinkPath := DEFAULT_SINK_PATH
  handshakeMax := DEFAULT_HANDSHAKE_MAX
  maxFrame := DEFAULT_MAX_FRAME
  maxMessage := DEFAULT_MAX_MESSAGE
  highWatermark := DEFAULT_HIGH_WATERMARK
  lowWatermark := DEFAULT_LOW_WATERMARK
  tickMs := DEFAULT_TICK_MS
  upstreams := UpstreamList.empty

/-- the options with a number -/
inductive NumOpt where
  | port | workers | listeners | hwm | lwm | maxFrame | maxMessage | tick
deriving DecidableEq, Repr

/-- what `getopt_long` returns; `mem` is what `realloc` has for an upstream -/
inductive Opt where
  | num (o : NumOpt) (optarg : Bytes)
  | sinkPath (optarg : Bytes)
  | upstream (mem : Bool) (optarg : Bytes)
  | help
  | unknown
deriving DecidableEq, Repr

/-- an option read with `atoi` -/
def intArg (hi : ℤ) (optarg : Bytes) : Option ℤ :=
  let v := atoi optarg
  if v < 1 ∨ hi < v then none else some v

/-- an option read with `parsePositive` -/
def positiveArg (optarg : Bytes) : Option ℤ :=
  let v := parsePositive optarg
  if v < 0 then none else some v

/-- the cases of the switch with a number; `none` is the return of -1 -/
def parseNum (conf : ArgConfig) (o : NumOpt) (optarg : Bytes) : Option ArgConfig :=
  match o with
  | .port => (intArg 65535 optarg).map fun port => { conf with port }
  | .workers => (intArg MAX_WORKERS optarg).map fun workers => { conf with workers }
  | .listeners => (intArg MAX_LISTENERS optarg).map fun listeners => { conf with listeners }
  | .hwm => (positiveArg optarg).map fun v => { conf with highWatermark := v.toNat }
  | .lwm => (positiveArg optarg).map fun v => { conf with lowWatermark := v.toNat }
  | .maxFrame => (positiveArg optarg).map fun v => { conf with maxFrame := v.toNat }
  | .maxMessage => (positiveArg optarg).map fun v => { conf with maxMessage := v.toNat }
  | .tick => (positiveArg optarg).map fun v => { conf with tickMs := toInt v }

/-- one turn of the loop; an error is what `parseArgs` returns -/
def parseOpt (conf : ArgConfig) : Opt → Except ℤ ArgConfig
  | .num o optarg =>
    match parseNum conf o optarg with
    | some conf' => .ok conf'
    | none => .error (-1)
  | .sinkPath optarg => if optarg.head? ≠ some 0x2F then .error (-1) else .ok { conf with sinkPath := optarg }
  | .upstream mem optarg =>
    let r := addUpstream mem conf.upstreams optarg
    if r.1 then .ok { conf with upstreams := r.2 } else .error (-1)
  | .help => .error 1
  | .unknown => .error (-1)

def parseLoop (conf : ArgConfig) : List Opt → Except ℤ ArgConfig
  | [] => .ok conf
  | opt :: opts =>
    match parseOpt conf opt with
    | .ok conf' => parseLoop conf' opts
    | .error rc => .error rc

/-- the configuration where `parseArgs` returns 0, else what it returns -/
def parseArgs (opts : List Opt) : Except ℤ ArgConfig :=
  match parseLoop ArgConfig.default opts with
  | .ok conf => if conf.highWatermark ≤ conf.lowWatermark then .error (-1) else .ok conf
  | .error rc => .error rc

/-! ## What an option leaves behind -/

/-- the field an option sets -/
def ArgConfig.field (conf : ArgConfig) : NumOpt → ℤ
  | .port => conf.port
  | .workers => conf.workers
  | .listeners => conf.listeners
  | .hwm => conf.highWatermark
  | .lwm => conf.lowWatermark
  | .maxFrame => conf.maxFrame
  | .maxMessage => conf.maxMessage
  | .tick => conf.tickMs

/-- the value an option is given, if it passes its check -/
def readNum (o : NumOpt) (optarg : Bytes) : Option ℤ :=
  match o with
  | .port => intArg 65535 optarg
  | .workers => intArg MAX_WORKERS optarg
  | .listeners => intArg MAX_LISTENERS optarg
  | .tick => (positiveArg optarg).map toInt
  | _ => positiveArg optarg

theorem intArg_eq_some {hi v : ℤ} {text : Bytes} : intArg hi text = some v ↔ v = atoi text ∧ 1 ≤ v ∧ v ≤ hi := by
  unfold intArg
  dsimp only
  split_ifs with h
  · constructor
    · intro hf
      cases hf
    · rintro ⟨rfl, hlo, hhi⟩
      omega
  · rw [Option.some.injEq]
    constructor
    · rintro rfl
      exact ⟨rfl, by omega, by omega⟩
    · rintro ⟨rfl, -⟩
      rfl

theorem parsePositive_nonneg {text : Bytes} (h : 0 ≤ parsePositive text) :
    ∃ n, Decimal text n ∧ 0 < n ∧ parsePositive text = min n LONG_MAX := by
  unfold parsePositive strtolLong at *
  cases hs : strtol text with
  | none =>
    rw [hs] at h
    exact absurd h (by decide)
  | some r =>
    obtain ⟨n, stop⟩ := r
    rw [hs] at h
    simp only [Option.map_some] at h ⊢
    split_ifs at h ⊢ with hbad
    · exact absurd h (by decide)
    · simp only [not_or, not_not, not_le] at hbad
      obtain ⟨rfl, hpos⟩ := hbad
      unfold LONG_MAX LONG_MIN at *
      exact ⟨n, strtol_all.1 hs, by omega, by omega⟩

theorem parsePositive_decimal {text : Bytes} {n : ℤ} (h : Decimal text n) :
    parsePositive text = if n ≤ 0 then -1 else min n LONG_MAX := by
  unfold parsePositive strtolLong
  rw [strtol_all.2 h]
  simp only [Option.map_some, ne_eq, not_true_eq_false, false_or]
  unfold LONG_MAX LONG_MIN
  split_ifs <;> omega

theorem positiveArg_eq_some {v : ℤ} {text : Bytes} :
    positiveArg text = some v ↔ ∃ n, Decimal text n ∧ 0 < n ∧ v = min n LONG_MAX := by
  unfold positiveArg
  dsimp only
  constructor
  · intro h
    split_ifs at h with hneg
    obtain ⟨n, hn, hpos, he⟩ := parsePositive_nonneg (not_lt.1 hneg)
    exact ⟨n, hn, hpos, (Option.some.inj h).symm.trans he⟩
  · rintro ⟨n, hn, hpos, rfl⟩
    have hv : ¬ min n LONG_MAX < 0 := by
      unfold LONG_MAX
      omega
    rw [parsePositive_decimal hn, if_neg (not_le.2 hpos), if_neg hv]

theorem toInt_range (v : ℤ) : -2 ^ 31 ≤ toInt v ∧ toInt v < 2 ^ 31 := by
  unfold toInt
  constructor
  · have := @Int.le_bmod v (2 ^ 32) (by norm_num)
    omega
  · have := @Int.bmod_lt v (2 ^ 32) (by norm_num)
    omega

theorem toInt_of_range {v : ℤ} (hlo : -2 ^ 31 ≤ v) (hhi : v < 2 ^ 31) : toInt v = v := by
  unfold toInt
  rw [Int.bmod_eq_of_le] <;> omega

theorem atoi_decimal {text : Bytes} {n : ℤ} (h : Decimal text n) :
    atoi text = toInt (max LONG_MIN (min n LONG_MAX)) := by
  unfold atoi strtolLong
  rw [strtol_all.2 h]
  rfl

/-- the range of the type a number is kept in: `int`, or what a positive `long` holds -/
def FitsType : NumOpt → ℤ → Prop
  | .port, n | .workers, n | .listeners, n | .tick, n => -2 ^ 31 ≤ n ∧ n < 2 ^ 31
  | .hwm, n | .lwm, n | .maxFrame, n | .maxMessage, n => n < 2 ^ 63

/-- the options read with `atoi` -/
def ByAtoi (o : NumOpt) : Prop := o = .port ∨ o = .workers ∨ o = .listeners

/-- behind `strtol` there is a number, unless `atoi` read the value -/
theorem readNum_decimal {o : NumOpt} {text : Bytes} {v : ℤ} (ho : ¬ ByAtoi o) (h : readNum o text = some v) :
    ∃ n, Decimal text n := by
  have hpos : ∀ w, positiveArg text = some w → ∃ n, Decimal text n := by
    intro w hw
    obtain ⟨n, hn, -⟩ := positiveArg_eq_some.1 hw
    exact ⟨n, hn⟩
  cases o with
  | port => exact absurd (.inl rfl) ho
  | workers => exact absurd (.inr (.inl rfl)) ho
  | listeners => exact absurd (.inr (.inr rfl)) ho
  | tick =>
    obtain ⟨w, hw, -⟩ := Option.map_eq_some_iff.1 h
    exact hpos w hw
  | hwm => exact hpos v h
  | lwm => exact hpos v h
  | maxFrame => exact hpos v h
  | maxMessage => exact hpos v h

/-- a number is taken for itself if and only if it fits -/
theorem readNum_eq_iff {o : NumOpt} {text : Bytes} {n v : ℤ} (hn : Decimal text n) (h : readNum o text = some v) :
    v = n ↔ FitsType o n := by
  have hatoi : ∀ hi, intArg hi text = some v → (v = n ↔ -2 ^ 31 ≤ n ∧ n < 2 ^ 31) := by
    intro hi hv
    obtain ⟨rfl, -, -⟩ := intArg_eq_some.1 hv
    rw [atoi_decimal hn]
    unfold LONG_MIN LONG_MAX
    constructor
    · intro he
      rw [← he]
      exact toInt_range _
    · rintro ⟨hlo, hhi⟩
      have hin : max (-2 ^ 63) (min n (2 ^ 63 - 1)) = n := by omega
      rw [hin]
      exact toInt_of_range hlo hhi
  have hpos : ∀ w, positiveArg text = some w → w = min n LONG_MAX ∧ 0 < n := by
    intro w hw
    obtain ⟨m, hm, hm0, rfl⟩ := positiveArg_eq_some.1 hw
    obtain rfl := hm.unique hn
    exact ⟨rfl, hm0⟩
  have hsize : positiveArg text = some v → (v = n ↔ n < 2 ^ 63) := by
    intro hv
    obtain ⟨rfl, -⟩ := hpos v hv
    unfold LONG_MAX
    omega
  cases o with
  | port => exact hatoi _ h
  | workers => exact hatoi _ h
  | listeners => exact hatoi _ h
  | hwm => exact hsize h
  | lwm => exact hsize h
  | maxFrame => exact hsize h
  | maxMessage => exact hsize h
  | tick =>
    obtain ⟨w, hw, rfl⟩ := Option.map_eq_some_iff.1 h
    obtain ⟨rfl, hn0⟩ := hpos w hw
    unfold LONG_MAX FitsType
    constructor
    · intro he
      rw [← he]
      exact toInt_range _
    · rintro ⟨hlo, hhi⟩
      have hin : min n (2 ^ 63 - 1) = n := by omega
      rw [hin]
      exact toInt_of_range hlo hhi

/-! ## The loop -/

/-- an option passes the check of its case; `realloc` may fail besides -/
def Opt.Passes : Opt → Prop
  | .num o text => (readNum o text).isSome
  | .sinkPath text => text.head? = some 0x2F
  | .upstream _ url => (addUpstreamUrl url).isSome
  | .help | .unknown => False

/-- what an option of this kind reads -/
def Opt.reads (o : NumOpt) : Opt → Option ℤ
  | .num o' text => if o' = o then readNum o text else none
  | _ => none

/-- the value the options leave in a field, in front of which it was `d` -/
def given (o : NumOpt) : List Opt → ℤ → ℤ
  | [], d => d
  | opt :: opts, d => given o opts ((opt.reads o).getD d)

/-- `text` is what the last occurrence of `o` is given -/
def LastOf (o : NumOpt) (text : Bytes) (opts : List Opt) : Prop :=
  ∃ before after, opts = before ++ .num o text :: after ∧ ∀ text', Opt.num o text' ∉ after

def NoUpstream (opts : List Opt) : Prop := ∀ mem url, Opt.upstream mem url ∉ opts

def ArgConfig.put (conf : ArgConfig) (o : NumOpt) (v : ℤ) : ArgConfig :=
  match o with
  | .port => { conf with port := v }
  | .workers => { conf with workers := v }
  | .listeners => { conf with listeners := v }
  | .hwm => { conf with highWatermark := v.toNat }
  | .lwm => { conf with lowWatermark := v.toNat }
  | .maxFrame => { conf with maxFrame := v.toNat }
  | .maxMessage => { conf with maxMessage := v.toNat }
  | .tick => { conf with tickMs := v }

/-- the case of a number puts what it read into its field -/
theorem parseNum_eq (conf : ArgConfig) (o : NumOpt) (text : Bytes) :
    parseNum conf o text = (readNum o text).map (conf.put o) := by
  cases o with
  | tick =>
    unfold parseNum readNum
    dsimp only
    rw [Option.map_map]
    rfl
  | port => rfl
  | workers => rfl
  | listeners => rfl
  | hwm => rfl
  | lwm => rfl
  | maxFrame => rfl
  | maxMessage => rfl

/-- a size is positive -/
theorem readNum_pos {o : NumOpt} {text : Bytes} {v : ℤ} (ho : o ≠ .tick) (h : readNum o text = some v) : 0 < v := by
  have hatoi : ∀ hi, intArg hi text = some v → 0 < v := by
    intro hi hv
    obtain ⟨-, hlo, -⟩ := intArg_eq_some.1 hv
    omega
  have hsize : positiveArg text = some v → 0 < v := by
    intro hv
    obtain ⟨n, -, hn, rfl⟩ := positiveArg_eq_some.1 hv
    unfold LONG_MAX
    omega
  cases o with
  | tick => exact absurd rfl ho
  | port => exact hatoi _ h
  | workers => exact hatoi _ h
  | listeners => exact hatoi _ h
  | hwm => exact hsize h
  | lwm => exact hsize h
  | maxFrame => exact hsize h
  | maxMessage => exact hsize h

theorem field_put {conf : ArgConfig} {o : NumOpt} {v : ℤ} (hv : o ≠ .tick → 0 < v) (o' : NumOpt) :
    (conf.put o v).field o' = if o = o' then v else conf.field o' := by
  have hcast : o ≠ .tick → (v.toNat : ℤ) = v := fun ho => Int.toNat_of_nonneg (hv ho).le
  cases o <;> cases o' <;> first | rfl | exact hcast (by decide)

theorem reads_self (o : NumOpt) (text : Bytes) : (Opt.num o text).reads o = readNum o text := if_pos rfl

theorem reads_other {o o' : NumOpt} (h : o ≠ o') (text : Bytes) : (Opt.num o text).reads o' = none := if_neg h

/-- one turn: the option passes, and the fields are as it left them -/
theorem parseOpt_field {conf conf' : ArgConfig} {opt : Opt} (h : parseOpt conf opt = .ok conf') :
    opt.Passes ∧ (∀ o, conf'.field o = (opt.reads o).getD (conf.field o)) ∧
      conf'.handshakeMax = conf.handshakeMax := by
  cases opt with
  | num o text =>
    unfold parseOpt at h
    dsimp only at h
    rw [parseNum_eq] at h
    cases hr : readNum o text with
    | none =>
      rw [hr] at h
      cases h
    | some v =>
      rw [hr] at h
      obtain rfl := Except.ok.inj h
      refine ⟨Option.isSome_iff_exists.2 ⟨v, hr⟩, fun o' => ?_, by cases o <;> rfl⟩
      rw [field_put fun ho => readNum_pos ho hr]
      by_cases he : o = o'
      · subst he
        rw [if_pos rfl, reads_self, hr]
        rfl
      · rw [if_neg he, reads_other he]
        rfl
  | sinkPath text =>
    unfold parseOpt at h
    dsimp only at h
    split_ifs at h with hslash
    obtain rfl := Except.ok.inj h
    refine ⟨not_not.1 hslash, fun o => ?_, rfl⟩
    cases o <;> rfl
  | upstream mem url =>
    unfold parseOpt at h
    dsimp only at h
    split_ifs at h with hadd
    obtain rfl := Except.ok.inj h
    refine ⟨?_, ?_, rfl⟩
    · cases hurl : addUpstreamUrl url with
      | none =>
        unfold addUpstream at hadd
        rw [hurl] at hadd
        cases hadd
      | some u => exact Option.isSome_iff_exists.2 ⟨u, hurl⟩
    · intro o
      cases o <;> rfl
  | help => cases h
  | unknown => cases h

theorem parseOpt_passes {opt : Opt} (hno : ∀ mem url, opt ≠ .upstream mem url) (h : opt.Passes) (conf : ArgConfig) :
    ∃ conf', parseOpt conf opt = .ok conf' := by
  cases opt with
  | num o text =>
    obtain ⟨v, hv⟩ := Option.isSome_iff_exists.1 h
    unfold parseOpt
    dsimp only
    rw [parseNum_eq, hv]
    exact ⟨_, rfl⟩
  | sinkPath text =>
    have hslash : text.head? = some 0x2F := h
    unfold parseOpt
    dsimp only
    rw [if_neg (not_not.2 hslash)]
    exact ⟨_, rfl⟩
  | upstream mem url => exact absurd rfl (hno mem url)
  | help => exact absurd h not_false
  | unknown => exact absurd h not_false

/-- the whole loop: every option passes, and each field is as its options leave it -/
theorem parseLoop_field {conf conf' : ArgConfig} {opts : List Opt} (h : parseLoop conf opts = .ok conf') :
    (∀ opt ∈ opts, opt.Passes) ∧ (∀ o, conf'.field o = given o opts (conf.field o)) ∧
      conf'.handshakeMax = conf.handshakeMax := by
  induction opts generalizing conf with
  | nil =>
    obtain rfl := Except.ok.inj h
    exact ⟨List.forall_mem_nil _, fun o => rfl, rfl⟩
  | cons opt opts ih =>
    unfold parseLoop at h
    cases hstep : parseOpt conf opt with
    | error rc =>
      rw [hstep] at h
      cases h
    | ok mid =>
      rw [hstep] at h
      obtain ⟨hopt, hmid, hshake⟩ := parseOpt_field hstep
      obtain ⟨hrest, hend, hshake'⟩ := ih h
      refine ⟨List.forall_mem_cons.2 ⟨hopt, hrest⟩, fun o => ?_, hshake'.trans hshake⟩
      rw [hend, hmid]
      rfl

theorem parseLoop_passes {opts : List Opt} (hno : NoUpstream opts) (h : ∀ opt ∈ opts, opt.Passes) (conf : ArgConfig) :
    ∃ conf', parseLoop conf opts = .ok conf' := by
  induction opts generalizing conf with
  | nil => exact ⟨conf, rfl⟩
  | cons opt opts ih =>
    have hopt : ∀ mem url, opt ≠ .upstream mem url := fun mem url he => hno mem url (he ▸ List.mem_cons_self)
    have hrest : NoUpstream opts := fun mem url hm => hno mem url (List.mem_cons_of_mem _ hm)
    obtain ⟨mid, hmid⟩ := parseOpt_passes hopt (h opt List.mem_cons_self) conf
    obtain ⟨conf', hend⟩ := ih hrest (fun o ho => h o (List.mem_cons_of_mem _ ho)) mid
    refine ⟨conf', ?_⟩
    unfold parseLoop
    rw [hmid]
    exact hend

/-- an option that does not occur leaves its field -/
theorem given_of_none {o : NumOpt} {opts : List Opt} (h : ∀ text, Opt.num o text ∉ opts) (d : ℤ) : given o opts d = d := by
  induction opts with
  | nil => rfl
  | cons opt opts ih =>
    have hread : opt.reads o = none := by
      cases opt with
      | num o' text =>
        apply reads_other
        rintro rfl
        exact h text List.mem_cons_self
      | sinkPath text => rfl
      | upstream mem url => rfl
      | help => rfl
      | unknown => rfl
    unfold given
    rw [hread]
    exact ih fun text hm => h text (List.mem_cons_of_mem _ hm)

/-- the last occurrence decides -/
theorem given_last {o : NumOpt} {text : Bytes} {opts : List Opt} (h : LastOf o text opts) {v : ℤ}
    (hv : readNum o text = some v) (d : ℤ) : given o opts d = v := by
  obtain ⟨before, after, rfl, hafter⟩ := h
  induction before generalizing d with
  | nil =>
    rw [List.nil_append, given, reads_self, hv]
    exact given_of_none hafter v
  | cons opt before ih => exact ih _

theorem last_or_none (o : NumOpt) (opts : List Opt) : (∀ text, Opt.num o text ∉ opts) ∨ ∃ text, LastOf o text opts := by
  induction opts with
  | nil => exact .inl fun text => List.not_mem_nil
  | cons opt opts ih =>
    rcases ih with hnone | ⟨text, before, after, rfl, hafter⟩
    · by_cases hopt : ∃ text, opt = .num o text
      · obtain ⟨text, rfl⟩ := hopt
        exact .inr ⟨text, [], opts, rfl, hnone⟩
      · refine .inl fun text hm => ?_
        rcases List.mem_cons.1 hm with rfl | hm
        · exact hopt ⟨text, rfl⟩
        · exact hnone text hm
    · exact .inr ⟨text, opt :: before, after, rfl, hafter⟩

theorem LastOf.mem {o : NumOpt} {text : Bytes} {opts : List Opt} : LastOf o text opts → .num o text ∈ opts := by
  rintro ⟨before, after, rfl, -⟩
  exact List.mem_append_right _ List.mem_cons_self

/-! ## The whole configuration -/

/-- the bounds of the options -/
structure ArgConfig.InBounds (conf : ArgConfig) : Prop where
  port : 1 ≤ conf.port ∧ conf.port ≤ 65535
  workers : 1 ≤ conf.workers ∧ conf.workers ≤ MAX_WORKERS
  listeners : 1 ≤ conf.listeners ∧ conf.listeners ≤ MAX_LISTENERS
  maxFrame : 0 < conf.maxFrame
  maxMessage : 0 < conf.maxMessage
  tickMs : 0 < conf.tickMs
  lowWatermark : 0 < conf.lowWatermark
  ordered : conf.lowWatermark < conf.highWatermark

/-- the options mean what is written in them -/
def ArgsExact (opts : List Opt) : Prop :=
  ∀ conf, parseArgs opts = .ok conf →
    (∀ o text, .num o text ∈ opts → ∃ n, Decimal text n) ∧
    (∀ o text, LastOf o text opts → Decimal text (conf.field o)) ∧ conf.InBounds

/-- every check is passed, and yet an option read with `atoi` is no number, or a last number does not fit its type -/
structure Slips (opts : List Opt) : Prop where
  passes : ∀ opt ∈ opts, opt.Passes
  ordered : given .lwm opts DEFAULT_LOW_WATERMARK < given .hwm opts DEFAULT_HIGH_WATERMARK
  slip : (∃ o text, ByAtoi o ∧ .num o text ∈ opts ∧ ∀ n, ¬ Decimal text n) ∨
    ∃ o text n, LastOf o text opts ∧ Decimal text n ∧ ¬ FitsType o n

theorem LastOf.reads {o : NumOpt} {text : Bytes} {opts : List Opt} (h : LastOf o text opts)
    (hpass : ∀ opt ∈ opts, opt.Passes) : ∃ v, readNum o text = some v ∧ ∀ d, given o opts d = v := by
  obtain ⟨v, hv⟩ := Option.isSome_iff_exists.1 (hpass _ h.mem)
  exact ⟨v, hv, fun d => given_last h hv d⟩

/-- when `parseArgs` returns 0, and with which fields -/
theorem parseArgs_field {opts : List Opt} {conf : ArgConfig} (h : parseArgs opts = .ok conf) :
    (∀ opt ∈ opts, opt.Passes) ∧ (∀ o, conf.field o = given o opts (ArgConfig.default.field o)) ∧
      conf.handshakeMax = DEFAULT_HANDSHAKE_MAX ∧ conf.field .lwm < conf.field .hwm := by
  unfold parseArgs at h
  cases hloop : parseLoop ArgConfig.default opts with
  | error rc =>
    rw [hloop] at h
    cases h
  | ok last =>
    rw [hloop] at h
    dsimp only at h
    split_ifs at h with hmarks
    obtain rfl := Except.ok.inj h
    obtain ⟨hpass, hfield, hshake⟩ := parseLoop_field hloop
    exact ⟨hpass, hfield, hshake, Int.ofNat_lt.2 (not_le.1 hmarks)⟩

theorem parseArgs_passes {opts : List Opt} (hno : NoUpstream opts) (h : Slips opts) : ∃ conf, parseArgs opts = .ok conf := by
  obtain ⟨conf, hloop⟩ := parseLoop_passes hno h.passes ArgConfig.default
  obtain ⟨-, hfield, -⟩ := parseLoop_field hloop
  have hmarks : conf.field .lwm < conf.field .hwm := by
    rw [hfield, hfield]
    exact h.ordered
  refine ⟨conf, ?_⟩
  unfold parseArgs
  rw [hloop]
  exact if_neg (not_le.2 (Int.ofNat_lt.1 hmarks))

/-- a property of what the options read is a property of the field -/
theorem given_of_reads {P : ℤ → Prop} {o : NumOpt} {opts : List Opt} {d : ℤ} (hd : P d)
    (hread : ∀ text v, .num o text ∈ opts → readNum o text = some v → P v) : P (given o opts d) := by
  induction opts generalizing d with
  | nil => exact hd
  | cons opt opts ih =>
    apply ih
    · cases hr : opt.reads o with
      | none => exact hd
      | some v =>
        cases opt with
        | num o' text =>
          by_cases he : o' = o
          · subst he
            rw [reads_self] at hr
            exact hread text v List.mem_cons_self hr
          · rw [reads_other he] at hr
            cases hr
        | sinkPath text => cases hr
        | upstream mem url => cases hr
        | help => cases hr
        | unknown => cases hr
    · intro text v hm
      exact hread text v (List.mem_cons_of_mem _ hm)

/-- the bounds that hold whatever the options say -/
structure ArgConfig.Sound (conf : ArgConfig) : Prop where
  port : 1 ≤ conf.port ∧ conf.port ≤ 65535
  workers : 1 ≤ conf.workers ∧ conf.workers ≤ MAX_WORKERS
  listeners : 1 ≤ conf.listeners ∧ conf.listeners ≤ MAX_LISTENERS
  handshakeMax : conf.handshakeMax = DEFAULT_HANDSHAKE_MAX
  maxFrame : 0 < conf.maxFrame ∧ conf.maxFrame < 2 ^ 63
  maxMessage : 0 < conf.maxMessage ∧ conf.maxMessage < 2 ^ 63
  lowWatermark : 0 < conf.lowWatermark
  ordered : conf.lowWatermark < conf.highWatermark

theorem parseArgs_sound {opts : List Opt} {conf : ArgConfig} (h : parseArgs opts = .ok conf) : conf.Sound := by
  obtain ⟨-, hfield, hshake, hmarks⟩ := parseArgs_field h
  have hint : ∀ o hi, (∀ text, readNum o text = intArg hi text) →
      1 ≤ ArgConfig.default.field o ∧ ArgConfig.default.field o ≤ hi → 1 ≤ conf.field o ∧ conf.field o ≤ hi := by
    intro o hi hread hdef
    rw [hfield]
    refine @given_of_reads (fun v => 1 ≤ v ∧ v ≤ hi) o opts _ hdef ?_
    intro text v hm hv
    exact (intArg_eq_some.1 ((hread text).symm.trans hv)).2
  have hsize : ∀ o, (∀ text, readNum o text = positiveArg text) →
      0 < ArgConfig.default.field o ∧ ArgConfig.default.field o < 2 ^ 63 → 0 < conf.field o ∧ conf.field o < 2 ^ 63 := by
    intro o hread hdef
    rw [hfield]
    refine @given_of_reads (fun v => 0 < v ∧ v < 2 ^ 63) o opts _ hdef ?_
    intro text v hm hv
    obtain ⟨n, -, hn, rfl⟩ := positiveArg_eq_some.1 ((hread text).symm.trans hv)
    unfold LONG_MAX
    omega
  have hframe : 0 < (conf.maxFrame : ℤ) ∧ (conf.maxFrame : ℤ) < 2 ^ 63 := hsize .maxFrame (fun _ => rfl) (by decide)
  have hmessage : 0 < (conf.maxMessage : ℤ) ∧ (conf.maxMessage : ℤ) < 2 ^ 63 :=
    hsize .maxMessage (fun _ => rfl) (by decide)
  have hlow : 0 < (conf.lowWatermark : ℤ) ∧ (conf.lowWatermark : ℤ) < 2 ^ 63 := hsize .lwm (fun _ => rfl) (by decide)
  exact {
    port := hint .port 65535 (fun _ => rfl) (by decide)
    workers := hint .workers MAX_WORKERS (fun _ => rfl) (by decide)
    listeners := hint .listeners MAX_LISTENERS (fun _ => rfl) (by decide)
    handshakeMax := hshake
    maxFrame := by omega
    maxMessage := by omega
    lowWatermark := by omega
    ordered := Int.ofNat_lt.1 hmarks }

/-- **What `main` goes on with is a configuration** in the sense of the rest of the server. -/
def ArgConfig.serverConfig (conf : ArgConfig) (h : conf.Sound) : ServerConfig where
  sinkPath := conf.sinkPath
  handshakeMax := conf.handshakeMax
  maxFrame := conf.maxFrame
  maxMessage := conf.maxMessage
  highWatermark := conf.highWatermark
  lowWatermark := conf.lowWatermark
  handshakeMax_pos := h.handshakeMax ▸ by decide
  maxFrame_pos := h.maxFrame.1
  maxFrame_lt := h.maxFrame.2
  maxMessage_pos := h.maxMessage.1
  maxMessage_lt := h.maxMessage.2
  low_lt_high := h.ordered
  low_pos := h.lowWatermark

/-- where nothing slips, the options mean what is written -/
theorem exact_of_not_slips {opts : List Opt} (hok : ¬ Slips opts) : ArgsExact opts := by
  intro conf h
  obtain ⟨hpass, hfield, -, hmarks⟩ := parseArgs_field h
  have hsound := parseArgs_sound h
  have hordered : given .lwm opts DEFAULT_LOW_WATERMARK < given .hwm opts DEFAULT_HIGH_WATERMARK := by
    rw [hfield, hfield] at hmarks
    exact hmarks
  have hnumber : ∀ o text, .num o text ∈ opts → ∃ n, Decimal text n := by
    intro o text hm
    obtain ⟨v, hv⟩ := Option.isSome_iff_exists.1 (hpass _ hm)
    by_cases ho : ByAtoi o
    · by_contra hno
      exact hok ⟨hpass, hordered, .inl ⟨o, text, ho, hm, not_exists.1 hno⟩⟩
    · exact readNum_decimal ho hv
  have hlast : ∀ o text, LastOf o text opts → Decimal text (conf.field o) := by
    intro o text hl
    obtain ⟨v, hv, hgiven⟩ := hl.reads hpass
    obtain ⟨n, hn⟩ := hnumber o text hl.mem
    have hfits : FitsType o n := by
      by_contra hout
      exact hok ⟨hpass, hordered, .inr ⟨o, text, n, hl, hn, hout⟩⟩
    rw [hfield, hgiven, (readNum_eq_iff hn hv).2 hfits]
    exact hn
  have htick : 0 < conf.tickMs := by
    rcases last_or_none .tick opts with hnone | ⟨text, hl⟩
    · have hdef : conf.tickMs = DEFAULT_TICK_MS := (hfield .tick).trans (given_of_none hnone _)
      rw [hdef]
      decide
    · obtain ⟨v, hv, -⟩ := hl.reads hpass
      obtain ⟨w, hw, -⟩ := Option.map_eq_some_iff.1 hv
      obtain ⟨n, hn, hpos, -⟩ := positiveArg_eq_some.1 hw
      have hsame : conf.tickMs = n := (hlast .tick text hl).unique hn
      rwa [hsame]
  exact ⟨hnumber, hlast, ⟨hsound.port, hsound.workers, hsound.listeners, hsound.maxFrame.1, hsound.maxMessage.1, htick,
    hsound.lowWatermark, hsound.ordered⟩⟩

/-- **The options mean what is written in them**, if and only if no value slips through the checks. -/
theorem args_exact_iff (opts : List Opt) (hno : NoUpstream opts) : ArgsExact opts ↔ ¬ Slips opts := by
  refine ⟨fun hexact hslip => ?_, exact_of_not_slips⟩
  obtain ⟨conf, h⟩ := parseArgs_passes hno hslip
  obtain ⟨hnumber, hlast, -⟩ := hexact conf h
  obtain ⟨hpass, hfield, -⟩ := parseArgs_field h
  rcases hslip.slip with ⟨o, text, -, hm, hnone⟩ | ⟨o, text, n, hl, hn, hout⟩
  · obtain ⟨n, hn⟩ := hnumber o text hm
    exact hnone n hn
  · obtain ⟨v, hv, hgiven⟩ := hl.reads hpass
    have hsame : v = n := by
      rw [← hgiven (ArgConfig.default.field o), ← hfield]
      exact (hlast o text hl).unique hn
    exact hout ((readNum_eq_iff hn hv).1 hsame)

theorem args_exact_iff_ports :
    ArgsExact [.num .port (ascii "80"), .num .port (ascii " +443")] ↔
      ¬ Slips [.num .port (ascii "80"), .num .port (ascii " +443")] :=
  args_exact_iff [.num .port (ascii "80"), .num .port (ascii " +443")] (by simp [NoUpstream])

/-- **A port with a tail** is taken for the number in front. -/
theorem port_with_a_tail : ¬ ArgsExact [.num .port (ascii "80abc")] := by
  intro hexact
  have hrun : parseArgs [.num .port (ascii "80abc")] = .ok { ArgConfig.default with port := 80 } := by decide +kernel
  obtain ⟨n, hn⟩ := (hexact _ hrun).1 .port _ List.mem_cons_self
  have hread : strtol (ascii "80abc") = some (80, ascii "abc") := by decide +kernel
  rw [strtol_all.2 hn] at hread
  exact absurd (Prod.mk.inj (Option.some.inj hread)).2 (by decide)

end WsServer
