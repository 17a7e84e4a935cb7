/-
The list of upstreams `addUpstreamUrl` builds in the configuration: a growable array of records.

The parser is in `Server/Options.lean`; here is what it does to the three fields of `ServerConfig_t` that hold the list.
`realloc` may fail, so every call carries its outcome.

- `Upstream`: a URL that may be given, with what makes it one.
- `upstreams_kept`: such a URL is stored behind the records there are, through any number of calls, and a call that
  fails leaves the list as it is.
-/
import Mathlib
import WsServer.Core.Growable
import WsServer.Server.Options

namespace WsServer

open Ws Growable

/-- `upstreams`, `upstreamCount` and `upstreamCapacity` of `ServerConfig_t` -/
structure UpstreamList where
  upstreams : List (Option UpstreamConfig)
  upstreamCount : ℕ
  upstreamCapacity : ℕ
deriving DecidableEq, Repr

/-- as `parseArgs` sets them -/
def UpstreamList.empty : UpstreamList := ⟨[], 0, 0⟩

/-- `realloc` returns memory if `mem` is set; the new cells hold anything -/
def ensureUpstreamCapacity (mem : Bool) (c : UpstreamList) : Bool × UpstreamList :=
  if c.upstreamCount < c.upstreamCapacity then (true, c)
  else
    let newCapacity := if c.upstreamCapacity = 0 then 4 else c.upstreamCapacity * 2
    if mem then
      let tmp := (Vec.mk c.upstreams c.upstreamCount).grow newCapacity
      (true, { c with upstreams := tmp.cells, upstreamCapacity := newCapacity })
    else (false, c)

/-- `addUpstreamUrl` on the configuration: whether it returns 0 -/
def addUpstream (mem : Bool) (c : UpstreamList) (url : Bytes) : Bool × UpstreamList :=
  match addUpstreamUrl url with
  | none => (false, c)
  | some u =>
    let r := ensureUpstreamCapacity mem c
    if r.1 then
      let v := (Vec.mk r.2.upstreams r.2.upstreamCount).put u
      (true, { r.2 with upstreams := v.cells, upstreamCount := v.count })
    else (false, r.2)

/-- the records in use are `us`, and the capacity is that of the memory -/
structure UpstreamList.Holds (c : UpstreamList) (us : List UpstreamConfig) : Prop where
  vec : (Vec.mk c.upstreams c.upstreamCount).Holds us
  capacity : c.upstreamCapacity = c.upstreams.length

variable {c : UpstreamList} {us : List UpstreamConfig}

theorem ensureUpstreamCapacity_holds (mem : Bool) (h : c.Holds us) :
    (ensureUpstreamCapacity mem c).2.Holds us ∧
      ((ensureUpstreamCapacity mem c).1 = true →
        (ensureUpstreamCapacity mem c).2.upstreamCount < (ensureUpstreamCapacity mem c).2.upstreams.length) ∧
      (mem = true → (ensureUpstreamCapacity mem c).1 = true) ∧
      ((ensureUpstreamCapacity mem c).1 = false → (ensureUpstreamCapacity mem c).2 = c) := by
  have hcount : c.upstreamCount = us.length := h.vec.count
  have hfits : us.length ≤ c.upstreams.length := h.vec.fits
  have hcap := h.capacity
  unfold ensureUpstreamCapacity
  by_cases hroom : c.upstreamCount < c.upstreamCapacity
  · rw [if_pos hroom]
    exact ⟨h, fun _ => hcap ▸ hroom, fun _ => rfl, fun hf => by cases hf⟩
  rw [if_neg hroom]
  dsimp only
  have hmore : c.upstreamCapacity < (if c.upstreamCapacity = 0 then 4 else c.upstreamCapacity * 2) := by
    split_ifs <;> omega
  generalize (if c.upstreamCapacity = 0 then 4 else c.upstreamCapacity * 2) = newCapacity at hmore
  cases mem with
  | false =>
    rw [if_neg (by simp)]
    refine ⟨h, ?_, ?_, fun _ => rfl⟩
    · intro hf
      cases hf
    · intro hf
      cases hf
  | true =>
    have hlen : ((Vec.mk c.upstreams c.upstreamCount).grow newCapacity).cells.length = newCapacity := by
      simp only [Vec.grow, List.length_append, List.length_take, List.length_replicate]
      omega
    rw [if_pos rfl]
    refine ⟨⟨h.vec.grow (by omega), hlen.symm⟩, fun _ => ?_, fun _ => rfl, ?_⟩
    · rw [hlen]
      dsimp only
      omega
    · intro hf
      cases hf

/-- a call stores the record of its URL behind the others, or fails and leaves the list as it is -/
theorem addUpstream_holds (mem : Bool) (h : c.Holds us) (url : Bytes) :
    ((addUpstream mem c url).1 = true ∧ ∃ u, addUpstreamUrl url = some u ∧ (addUpstream mem c url).2.Holds (us ++ [u])) ∨
      ((addUpstream mem c url).1 = false ∧ (addUpstream mem c url).2 = c) := by
  unfold addUpstream
  cases hu : addUpstreamUrl url with
  | none => exact .inr ⟨rfl, rfl⟩
  | some u =>
    obtain ⟨hholds, hroom, -, hsame⟩ := ensureUpstreamCapacity_holds mem h
    dsimp only
    cases hok : (ensureUpstreamCapacity mem c).1 with
    | false =>
      rw [if_neg (by simp)]
      exact .inr ⟨rfl, hsame hok⟩
    | true =>
      rw [if_pos rfl]
      have hput := hholds.vec.put (hroom hok) u
      refine .inl ⟨rfl, u, rfl, hput, ?_⟩
      simp only [Vec.put, List.length_set]
      exact hholds.capacity

/-! ## URLs that may be given -/

/-- an upstream as it is written: the host in brackets or not -/
structure Upstream where
  host : Bytes
  literal : Bool
  port : ℕ
  path : Bytes
  host_ne : host ≠ []
  host_len : host.length ≤ 255
  host_slash : 0x2F ∉ host
  host_open : literal = false → host.head? ≠ some 0x5B
  host_close : literal = true → 0x5D ∉ host
  port_pos : 1 ≤ port
  port_le : port ≤ 65535
  path_shape : path = [] ∨ path.head? = some 0x2F
  path_len : path.length ≤ 511
  no_nul : 0 ∉ host ∧ 0 ∉ path

def Upstream.authority (u : Upstream) : Bytes := if u.literal then 0x5B :: u.host ++ [0x5D] else u.host

def Upstream.url (u : Upstream) : Bytes := ascii "ws://" ++ (u.authority ++ 0x3A :: decimal u.port ++ u.path)

def Upstream.record (u : Upstream) : UpstreamConfig := ⟨u.host, u.port, if u.path = [] then ascii "/" else u.path⟩

theorem digit_ne {text : Bytes} (h : ∀ d ∈ text, IsDigit d) {x : UInt8} (hx : ¬ IsDigit x) : x ∉ text :=
  fun hm => hx (h x hm)

theorem Upstream.parts (u : Upstream) :
    UrlParts (u.authority ++ 0x3A :: decimal u.port ++ u.path) u.host (decimal u.port) u.path := by
  have hslash : 0x2F ∉ decimal u.port := digit_ne (decimal_digits u.port) (by decide)
  have hcolon : 0x3A ∉ decimal u.port := digit_ne (decimal_digits u.port) (by decide)
  unfold Upstream.authority
  cases hl : u.literal with
  | false => exact .name u.host_slash (u.host_open hl) hslash hcolon u.path_shape
  | true =>
    have h := @UrlParts.literal u.host (decimal u.port) u.path u.host_slash (u.host_close hl) hslash u.path_shape
    rw [if_pos rfl, List.append_assoc (0x5B :: u.host)]
    exact h

/-- **Such a URL is accepted**, as what it says. -/
theorem Upstream.parsed (u : Upstream) : addUpstreamUrl u.url = some u.record := by
  have h5 : (ascii "ws://").length = 5 := by decide
  have hne : u.authority ++ 0x3A :: decimal u.port ++ u.path ≠ [] := by simp
  have hport : PortNumber (decimal u.port) u.port :=
    ⟨[], [], decimal u.port, rfl, by simp, .inl rfl, decimal_ne_nil _, decimal_digits _, (digitsValue_decimal _).symm⟩
  have hhost : u.host.length ≠ 0 := fun h0 => u.host_ne (List.length_eq_zero_iff.1 h0)
  have hhost' := u.host_len
  have hdigits : (decimal u.port).length ≤ 5 :=
    length_decimal_le (by norm_num) (lt_of_le_of_lt u.port_le (by norm_num))
  have hsome : (decimal u.port).length ≠ 0 := fun h0 => decimal_ne_nil _ (List.length_eq_zero_iff.1 h0)
  have hpos := u.port_pos
  have hle := u.port_le
  have hpath : (if u.path = [] then ascii "/" else u.path).length ≤ 511 := by
    split_ifs
    · decide
    · exact u.path_len
  unfold addUpstreamUrl Upstream.url UPSTREAM_HOST_MAX UPSTREAM_PATH_MAX
  rw [List.take_left' h5, List.drop_left' h5, if_neg (not_not.2 rfl), if_neg hne, urlParts_iff.2 u.parts]
  dsimp only
  rw [if_neg (by omega), if_neg (by omega), strtol_number hport]
  dsimp only
  rw [if_neg (by simp; omega), if_neg (by omega)]
  rfl

/-! ## The list over many calls -/

theorem addUpstream_url (h : c.Holds us) (u : Upstream) :
    (addUpstream true c u.url).1 = true ∧ (addUpstream true c u.url).2.Holds (us ++ [u.record]) := by
  have hok : (addUpstream true c u.url).1 = true := by
    obtain ⟨-, -, hmem, -⟩ := ensureUpstreamCapacity_holds true h
    unfold addUpstream
    rw [u.parsed]
    dsimp only
    rw [if_pos (hmem rfl)]
  rcases addUpstream_holds true h u.url with ⟨-, v, hv, hholds⟩ | ⟨hno, -⟩
  · rw [u.parsed] at hv
    obtain rfl := Option.some.inj hv
    exact ⟨hok, hholds⟩
  · rw [hok] at hno
    cases hno

theorem addUpstream_run (calls : List Upstream) (h : c.Holds us) :
    (calls.foldl (fun c u => (addUpstream true c u.url).2) c).Holds (us ++ calls.map Upstream.record) := by
  induction calls generalizing c us with
  | nil => simpa using h
  | cons u calls ih =>
    have hrest := ih (addUpstream_url h u).2
    rwa [List.append_assoc] at hrest

/-- **The upstreams are kept.** In whatever list the configuration holds: a URL that may be given is stored behind it,
and so are any number of them, one after the other; and a call that is refused leaves list and count as they were. -/
theorem upstreams_kept (c : UpstreamList) (us : List UpstreamConfig) (h : c.Holds us) :
    (∀ u : Upstream, (addUpstream true c u.url).1 = true ∧ (addUpstream true c u.url).2.Holds (us ++ [u.record])) ∧
      (∀ calls : List Upstream,
        (calls.foldl (fun c u => (addUpstream true c u.url).2) c).Holds (us ++ calls.map Upstream.record)) ∧
      ∀ mem url, (addUpstream mem c url).1 = false →
        (addUpstream mem c url).2.Holds us ∧ (addUpstream mem c url).2.upstreamCount = c.upstreamCount := by
  refine ⟨fun u => addUpstream_url h u, fun calls => addUpstream_run calls h, ?_⟩
  intro mem url hno
  rcases addUpstream_holds mem h url with ⟨hok, -⟩ | ⟨-, hsame⟩
  · rw [hok] at hno
    cases hno
  · rw [hsame]
    exact ⟨h, rfl⟩

/-- `ws://[::1]:33335/feed` -/
def loopback : Upstream where
  host := ascii "::1"
  literal := true
  port := 33335
  path := ascii "/feed"
  host_ne := by decide
  host_len := by decide
  host_slash := by decide
  host_open := by decide
  host_close := by decide
  port_pos := by decide
  port_le := by decide
  path_shape := by decide
  path_len := by decide
  no_nul := by decide

theorem upstreams_kept_loopback :
    ([loopback, loopback, loopback, loopback, loopback].foldl (fun c u => (addUpstream true c u.url).2)
      UpstreamList.empty).Holds (List.replicate 5 ⟨ascii "::1", 33335, ascii "/feed"⟩) :=
  (upstreams_kept UpstreamList.empty [] ⟨⟨rfl, rfl⟩, rfl⟩).2.1 [loopback, loopback, loopback, loopback, loopback]

end WsServer
