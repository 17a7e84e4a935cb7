/-
`addUpstreamUrl` of `src/options.c`, and the way of a URL from the command line into the reactor.

A URL of the command line is stored as an `UpstreamConfig` (host in 256 bytes, path in 512), and `main` makes a client
of it with `upstreamAdd` (host and path in 256 bytes each). Strings hold no NUL, as `argv` gives them; memory is
available.

- `UrlParts`, `PortNumber`: what the parts of a URL are, said without the parser.
- `urlParts_iff`, `strtol_iff`: the parser finds exactly these parts, so they are unique.
- `client_keeps_url_iff`: the client has host, port and path of an accepted URL, and asks for the whole path, if and only
  if the path has at most 255 bytes.
- `long_path_is_cut`: an accepted URL whose client asks for another path.
-/
import Mathlib
import WsServer.Upstream.Handshake
import WsServer.Worker.Target

namespace WsServer

open Ws

def UPSTREAM_HOST_MAX : ℕ := 256

def UPSTREAM_PATH_MAX : ℕ := 512

structure UpstreamConfig where
  host : Bytes
  port : ℕ
  path : Bytes
deriving DecidableEq, Repr

/-! ## The parser -/

/-- what stands before and behind the first `x` (`memchr`, `strchr`) -/
def splitFirst (x : UInt8) : Bytes → Option (Bytes × Bytes)
  | [] => none
  | c :: s => if c = x then some ([], s) else (splitFirst x s).map fun r => (c :: r.1, r.2)

/-- what stands before and behind the last `x` -/
def splitLast (x : UInt8) : Bytes → Option (Bytes × Bytes)
  | [] => none
  | c :: s =>
    match splitLast x s with
    | some r => some (c :: r.1, r.2)
    | none => if c = x then some ([], s) else none

/-- host, port and path as the pointers of `addUpstreamUrl` delimit them, behind `ws://`; the path may be absent -/
def urlParts (p : Bytes) : Option (Bytes × Bytes × Bytes) :=
  let authority := p.takeWhile (· ≠ 0x2F)
  let slash := p.dropWhile (· ≠ 0x2F)
  match authority with
  | 0x5B :: literal =>
    match splitFirst 0x5D literal with
    | some (host, 0x3A :: port) => some (host, port, slash)
    | _ => none
  | _ => (splitLast 0x3A authority).map fun r => (r.1, r.2, slash)

/-- `isspace` in the C locale -/
def IsSpace (c : UInt8) : Prop := c = 0x20 ∨ (0x09 ≤ c ∧ c ≤ 0x0D)

instance (c : UInt8) : Decidable (IsSpace c) := by unfold IsSpace; infer_instance

/-- an optional sign: negative, and what follows -/
def strtolSign : Bytes → Bool × Bytes
  | 0x2D :: s => (true, s)
  | 0x2B :: s => (false, s)
  | s => (false, s)

/-- `strtol(s, &end, 10)` on fewer digits than overflow a `long`: value and `end`; `none` when `end` is `s` -/
def strtol (s : Bytes) : Option (ℤ × Bytes) :=
  let r := strtolSign (s.dropWhile fun c => IsSpace c)
  let digits := r.2.takeWhile fun c => IsDigit c
  if digits = [] then none
  else
    let v : ℤ := digitsValue digits 0
    some (if r.1 then -v else v, r.2.dropWhile fun c => IsDigit c)

/-- `addUpstreamUrl`: the record it stores; `none` is -1 -/
def addUpstreamUrl (url : Bytes) : Option UpstreamConfig :=
  if url.take 5 ≠ ascii "ws://" then none
  else if url.drop 5 = [] then none
  else
    match urlParts (url.drop 5) with
    | none => none
    | some (host, portText, slash) =>
      if host.length = 0 ∨ UPSTREAM_HOST_MAX ≤ host.length then none
      else if portText.length = 0 ∨ 16 ≤ portText.length then none
      else
        match strtol portText with
        | none => none
        | some (port, stop) =>
          if stop ≠ [] ∨ port < 1 ∨ 65535 < port then none
          else
            let path := if slash = [] then ascii "/" else slash
            if UPSTREAM_PATH_MAX ≤ path.length then none else some ⟨host, port.toNat, path⟩

/-! ## What the parts of a URL are -/

/-- host, text of the port and path of what follows `ws://`: a name, or an address in brackets -/
inductive UrlParts : Bytes → Bytes → Bytes → Bytes → Prop where
  | name {host port path : Bytes} : 0x2F ∉ host → host.head? ≠ some 0x5B → 0x2F ∉ port → 0x3A ∉ port →
      (path = [] ∨ path.head? = some 0x2F) → UrlParts (host ++ 0x3A :: port ++ path) host port path
  | literal {host port path : Bytes} : 0x2F ∉ host → 0x5D ∉ host → 0x2F ∉ port →
      (path = [] ∨ path.head? = some 0x2F) → UrlParts (0x5B :: host ++ 0x5D :: 0x3A :: port ++ path) host port path

/-- a number as `strtol` may read it, without a minus: blanks, a plus, digits -/
def PortNumber (text : Bytes) (n : ℕ) : Prop :=
  ∃ blanks plus digits : Bytes, text = blanks ++ plus ++ digits ∧ (∀ c ∈ blanks, IsSpace c) ∧
    (plus = [] ∨ plus = [0x2B]) ∧ digits ≠ [] ∧ (∀ c ∈ digits, IsDigit c) ∧ n = digitsValue digits 0

/-- the parts of a whole URL, with `/` for an absent path -/
def UrlOf (url host : Bytes) (port : ℕ) (path : Bytes) : Prop :=
  ∃ portText slash, url.take 5 = ascii "ws://" ∧ UrlParts (url.drop 5) host portText slash ∧ PortNumber portText port ∧
    path = if slash = [] then ascii "/" else slash

theorem splitFirst_iff {x : UInt8} {s a b : Bytes} : splitFirst x s = some (a, b) ↔ s = a ++ x :: b ∧ x ∉ a := by
  induction s generalizing a with
  | nil => simp [splitFirst]
  | cons c s ih =>
    unfold splitFirst
    by_cases hc : c = x
    · subst hc
      rw [if_pos rfl]
      constructor
      · intro h
        obtain ⟨rfl, rfl⟩ := Prod.mk.inj (Option.some.inj h)
        exact ⟨rfl, List.not_mem_nil⟩
      · rintro ⟨h, ha⟩
        cases a with
        | nil => rw [(List.cons.inj h).2]
        | cons d a =>
          obtain ⟨rfl, -⟩ := List.cons.inj h
          exact absurd List.mem_cons_self ha
    · rw [if_neg hc]
      constructor
      · intro h
        obtain ⟨⟨a', b'⟩, h', he⟩ := Option.map_eq_some_iff.1 h
        obtain ⟨rfl, rfl⟩ := Prod.mk.inj he
        obtain ⟨rfl, ha⟩ := ih.1 h'
        exact ⟨rfl, fun hm => (List.mem_cons.1 hm).elim (fun h1 => hc h1.symm) ha⟩
      · rintro ⟨h, ha⟩
        cases a with
        | nil => exact absurd (List.cons.inj h).1 hc
        | cons d a =>
          obtain ⟨rfl, hs⟩ := List.cons.inj h
          rw [ih.2 ⟨hs, fun hm => ha (List.mem_cons_of_mem _ hm)⟩]
          rfl

theorem splitLast_none {x : UInt8} {s : Bytes} : splitLast x s = none ↔ x ∉ s := by
  induction s with
  | nil => simp [splitLast]
  | cons c s ih =>
    unfold splitLast
    cases h : splitLast x s with
    | some r =>
      have hmem : x ∈ s := by
        by_contra hno
        rw [ih.2 hno] at h
        cases h
      simp [hmem]
    | none =>
      have hno := ih.1 h
      split_ifs with hc
      · simp [hc]
      · simp [hno, Ne.symm hc]

theorem splitLast_iff {x : UInt8} {s a b : Bytes} : splitLast x s = some (a, b) ↔ s = a ++ x :: b ∧ x ∉ b := by
  induction s generalizing a b with
  | nil => simp [splitLast]
  | cons c s ih =>
    unfold splitLast
    cases h : splitLast x s with
    | some r =>
      obtain ⟨a', b'⟩ := r
      have hs := ih.1 h
      dsimp only
      constructor
      · intro he
        obtain ⟨rfl, rfl⟩ := Prod.mk.inj (Option.some.inj he)
        exact ⟨by rw [hs.1]; rfl, hs.2⟩
      · rintro ⟨he, hb⟩
        cases a with
        | nil =>
          -- the last `x` stands further right
          obtain ⟨-, rfl⟩ := List.cons.inj he
          rw [splitLast_none.2 hb] at h
          cases h
        | cons d a =>
          obtain ⟨rfl, he'⟩ := List.cons.inj he
          obtain ⟨rfl, rfl⟩ := Prod.mk.inj (Option.some.inj (h.symm.trans (ih.2 ⟨he', hb⟩)))
          rfl
    | none =>
      have hno := splitLast_none.1 h
      dsimp only
      constructor
      · intro he
        split_ifs at he with hc
        obtain ⟨rfl, rfl⟩ := Prod.mk.inj (Option.some.inj he)
        exact ⟨by rw [hc]; rfl, hno⟩
      · rintro ⟨he, hb⟩
        cases a with
        | nil =>
          obtain ⟨rfl, rfl⟩ := List.cons.inj he
          exact if_pos rfl
        | cons d a =>
          obtain ⟨-, he⟩ := List.cons.inj he
          exact absurd (he ▸ List.mem_append_right a List.mem_cons_self) hno

theorem of_mem_takeWhile {P : UInt8 → Prop} [DecidablePred P] {s : Bytes} {c : UInt8}
    (h : c ∈ s.takeWhile fun c => decide (P c)) : P c := by
  have hc := List.mem_takeWhile_imp h
  exact of_decide_eq_true hc

/-- a path starts behind the authority -/
theorem authority_split {a path : Bytes} (ha : 0x2F ∉ a) (hpath : path = [] ∨ path.head? = some 0x2F) :
    (a ++ path).takeWhile (· ≠ 0x2F) = a ∧ (a ++ path).dropWhile (· ≠ 0x2F) = path := by
  have hall : ∀ c ∈ a, decide (c ≠ 0x2F) = true := fun c hc => decide_eq_true fun he => ha (he ▸ hc)
  rw [List.takeWhile_append_of_pos hall, List.dropWhile_append_of_pos hall]
  rcases hpath with rfl | hpath
  · simp
  · cases path with
    | nil => cases hpath
    | cons c path =>
      obtain rfl := Option.some.inj hpath
      simp

/-- **The parser finds the parts**, and no others. -/
theorem urlParts_iff {p host port path : Bytes} : urlParts p = some (host, port, path) ↔ UrlParts p host port path := by
  constructor
  · intro h
    have hp : p.takeWhile (· ≠ 0x2F) ++ p.dropWhile (· ≠ 0x2F) = p := List.takeWhile_append_dropWhile
    have hno : 0x2F ∉ p.takeWhile (· ≠ 0x2F) := fun hm => of_mem_takeWhile hm rfl
    have hpath : p.dropWhile (· ≠ 0x2F) = [] ∨ (p.dropWhile (· ≠ 0x2F)).head? = some 0x2F := by
      cases hd : p.dropWhile (· ≠ 0x2F) with
      | nil => exact .inl rfl
      | cons c r =>
        have hc := List.head?_dropWhile_not (· ≠ 0x2F) p
        rw [hd] at hc
        exact .inr (by simpa using hc)
    unfold urlParts at h
    dsimp only at h
    generalize p.takeWhile (· ≠ 0x2F) = authority at h hp hno
    generalize p.dropWhile (· ≠ 0x2F) = slash at h hp hpath
    subst hp
    split at h
    · rename_i literal
      split at h
      · rename_i host' port' hs
        obtain ⟨rfl, rfl, rfl⟩ : host' = host ∧ port' = port ∧ slash = path := by simpa using h
        obtain ⟨rfl, hbracket⟩ := splitFirst_iff.1 hs
        simp only [List.mem_cons, List.mem_append, not_or] at hno
        exact .literal hno.2.1 hbracket hno.2.2.2.2 hpath
      · cases h
    · rename_i hname
      obtain ⟨⟨a, b⟩, hs, he⟩ := Option.map_eq_some_iff.1 h
      obtain ⟨rfl, rfl, rfl⟩ : a = host ∧ b = port ∧ slash = path := by simpa using he
      obtain ⟨rfl, hcolon⟩ := splitLast_iff.1 hs
      simp only [List.mem_cons, List.mem_append, not_or] at hno
      refine .name hno.1 (fun hhead => ?_) hno.2.2 hcolon hpath
      cases a with
      | nil => cases hhead
      | cons c a =>
        obtain rfl := Option.some.inj hhead
        exact hname _ rfl
  · intro h
    cases h with
    | name hhost hhead hport hcolon hpath =>
      obtain ⟨h1, h2⟩ := @authority_split (host ++ 0x3A :: port) path (by simp [hhost, hport]) hpath
      unfold urlParts
      dsimp only
      rw [h1, h2]
      split
      · rename_i literal he
        cases host with
        | nil => cases he
        | cons c host =>
          obtain ⟨rfl, -⟩ := List.cons.inj he
          exact absurd rfl hhead
      · rw [splitLast_iff.2 ⟨rfl, hcolon⟩]
        rfl
    | literal hhost hbracket hport hpath =>
      obtain ⟨h1, h2⟩ := @authority_split (0x5B :: host ++ 0x5D :: 0x3A :: port) path (by simp [hhost, hport]) hpath
      unfold urlParts
      dsimp only
      have hs : splitFirst 0x5D (host ++ 0x5D :: 0x3A :: port) = some (host, 0x3A :: port) :=
        splitFirst_iff.2 ⟨rfl, hbracket⟩
      rw [h1, h2]
      show (match splitFirst 0x5D (host ++ 0x5D :: 0x3A :: port) with
        | some (host, 0x3A :: port) => some (host, port, path)
        | _ => none) = _
      rw [hs]
      rfl

theorem digit_not_space {c : UInt8} (h : IsDigit c) : ¬ IsSpace c := by
  unfold IsDigit at h
  rintro (rfl | ⟨-, hle⟩)
  · exact absurd h.1 (by decide)
  · have hle' : c.toNat ≤ 13 := UInt8.le_iff_toNat_le.1 hle
    omega

/-- a decimal number as `strtol` documents it: blanks, a sign, digits -/
def Decimal (text : Bytes) (n : ℤ) : Prop :=
  ∃ blanks sign digits : Bytes, text = blanks ++ (sign ++ digits) ∧ (∀ c ∈ blanks, IsSpace c) ∧
    (sign = [] ∨ sign = [0x2B] ∨ sign = [0x2D]) ∧ digits ≠ [] ∧ (∀ c ∈ digits, IsDigit c) ∧
    n = if sign = [0x2D] then -(digitsValue digits 0 : ℤ) else digitsValue digits 0

theorem strtolSign_split (s : Bytes) :
    ∃ sign, s = sign ++ (strtolSign s).2 ∧ (sign = [] ∨ sign = [0x2B] ∨ sign = [0x2D]) ∧
      ((strtolSign s).1 = true ↔ sign = [0x2D]) := by
  unfold strtolSign
  split
  · exact ⟨[0x2D], rfl, .inr (.inr rfl), by simp⟩
  · exact ⟨[0x2B], rfl, .inr (.inl rfl), by simp⟩
  · exact ⟨[], rfl, .inl rfl, by simp⟩

/-- a sign is taken off, and a digit is none -/
theorem strtolSign_digit {sign s : Bytes} {d : UInt8} (hsign : sign = [] ∨ sign = [0x2B] ∨ sign = [0x2D])
    (hd : IsDigit d) : strtolSign (sign ++ d :: s) = (decide (sign = [0x2D]), d :: s) := by
  rcases hsign with rfl | rfl | rfl
  · unfold strtolSign IsDigit at *
    split
    · rename_i he
      obtain ⟨rfl, -⟩ := List.cons.inj he
      exact absurd hd.1 (by decide)
    · rename_i he
      obtain ⟨rfl, -⟩ := List.cons.inj he
      exact absurd hd.1 (by decide)
    · rfl
  · rfl
  · rfl

/-- **`strtol` reads the longest number in front**, and stops behind it. -/
theorem strtol_iff {text rest : Bytes} {n : ℤ} :
    strtol text = some (n, rest) ↔
      ∃ front, text = front ++ rest ∧ Decimal front n ∧ ∀ c, rest.head? = some c → ¬ IsDigit c := by
  constructor
  · intro h
    have htext : text.takeWhile (fun c => IsSpace c) ++ text.dropWhile (fun c => IsSpace c) = text :=
      List.takeWhile_append_dropWhile
    have hblank : ∀ c ∈ text.takeWhile (fun c => IsSpace c), IsSpace c := fun c hc => of_mem_takeWhile hc
    unfold strtol at h
    dsimp only at h
    generalize text.takeWhile (fun c => IsSpace c) = blanks at htext hblank
    generalize text.dropWhile (fun c => IsSpace c) = body at h htext
    obtain ⟨sign, hbody, hsign, hneg⟩ := strtolSign_split body
    generalize strtolSign body = r at h hbody hneg
    have hs : r.2.takeWhile (fun c => IsDigit c) ++ r.2.dropWhile (fun c => IsDigit c) = r.2 :=
      List.takeWhile_append_dropWhile
    have hdigits : ∀ c ∈ r.2.takeWhile (fun c => IsDigit c), IsDigit c := fun c hc => of_mem_takeWhile hc
    have hstop : ∀ c, (r.2.dropWhile fun c => IsDigit c).head? = some c → ¬ IsDigit c := by
      intro c hc
      have := List.head?_dropWhile_not (fun c => decide (IsDigit c)) r.2
      rw [hc] at this
      simpa using this
    by_cases hnil : r.2.takeWhile (fun c => IsDigit c) = []
    · rw [if_pos hnil] at h
      cases h
    rw [if_neg hnil] at h
    obtain ⟨hv, hrest⟩ := Prod.mk.inj (Option.some.inj h)
    rw [hrest] at hs hstop
    refine ⟨blanks ++ (sign ++ r.2.takeWhile fun c => IsDigit c), ?_, ⟨blanks, sign, _, rfl, hblank, hsign, hnil, hdigits, ?_⟩,
      hstop⟩
    · rw [List.append_assoc, List.append_assoc, hs, ← hbody, htext]
    · rw [← hv]
      simp only [hneg]
  · rintro ⟨front, rfl, ⟨blanks, sign, digits, rfl, hblank, hsign, hnil, hdigits, rfl⟩, hstop⟩
    obtain ⟨d, ds, rfl⟩ := List.exists_cons_of_ne_nil hnil
    have hd := hdigits d List.mem_cons_self
    have htake : (d :: ds ++ rest).takeWhile (fun c => IsDigit c) = d :: ds ∧
        (d :: ds ++ rest).dropWhile (fun c => IsDigit c) = rest := by
      have hall : ∀ c ∈ d :: ds, decide (IsDigit c) = true := fun c hc => decide_eq_true (hdigits c hc)
      rw [List.takeWhile_append_of_pos hall, List.dropWhile_append_of_pos hall]
      cases rest with
      | nil => simp
      | cons c rest => simp [hstop c rfl]
    have hdrop : (blanks ++ (sign ++ (d :: ds ++ rest))).dropWhile (fun c => IsSpace c) = sign ++ (d :: ds ++ rest) := by
      rw [List.dropWhile_append_of_pos fun c hc => decide_eq_true (hblank c hc)]
      rcases hsign with rfl | rfl | rfl
      · rw [List.nil_append, List.cons_append, List.dropWhile_cons_of_neg]
        rw [decide_eq_true_eq]
        exact digit_not_space hd
      · rfl
      · rfl
    unfold strtol
    dsimp only
    rw [List.append_assoc, List.append_assoc, hdrop, List.cons_append, strtolSign_digit hsign hd]
    rw [List.cons_append] at htake
    dsimp only
    rw [htake.1, htake.2, if_neg (by simp)]
    simp only [decide_eq_true_eq]

/-- a number and nothing behind it -/
theorem strtol_all {text : Bytes} {n : ℤ} : strtol text = some (n, []) ↔ Decimal text n := by
  rw [strtol_iff]
  constructor
  · rintro ⟨front, rfl, h, -⟩
    rwa [List.append_nil]
  · intro h
    refine ⟨text, (List.append_nil text).symm, h, ?_⟩
    intro c hc
    cases hc

theorem Decimal.unique {text : Bytes} {m n : ℤ} (hm : Decimal text m) (hn : Decimal text n) : m = n :=
  (Prod.mk.inj (Option.some.inj ((strtol_all.2 hm).symm.trans (strtol_all.2 hn)))).1

/-- a port is a number without a minus -/
theorem PortNumber.decimal {text : Bytes} {n : ℕ} : PortNumber text n → Decimal text n := by
  rintro ⟨blanks, plus, digits, rfl, hblank, hplus, hnil, hdigits, rfl⟩
  refine ⟨blanks, plus, digits, List.append_assoc _ _ _, hblank, ?_, hnil, hdigits, ?_⟩
  · rcases hplus with rfl | rfl
    · exact .inl rfl
    · exact .inr (.inl rfl)
  · rcases hplus with rfl | rfl <;> rfl

/-- what `strtol` reads to the end, as a positive number -/
theorem number_of_strtol {text : Bytes} {n : ℕ} (hn : 0 < n) (h : strtol text = some ((n : ℤ), [])) : PortNumber text n := by
  obtain ⟨blanks, sign, digits, rfl, hblank, hsign, hnil, hdigits, hv⟩ := strtol_all.1 h
  have hplus : sign ≠ [0x2D] := by
    intro hminus
    rw [if_pos hminus] at hv
    omega
  rw [if_neg hplus] at hv
  refine ⟨blanks, sign, digits, (List.append_assoc _ _ _).symm, hblank, ?_, hnil, hdigits, by exact_mod_cast hv⟩
  rcases hsign with h | h | h
  · exact .inl h
  · exact .inr h
  · exact absurd h hplus

/-- a number is read to its end -/
theorem strtol_number {text : Bytes} {n : ℕ} (h : PortNumber text n) : strtol text = some ((n : ℤ), []) :=
  strtol_all.2 h.decimal

/-! ## From the URL to the client -/

/-- the parts of a URL are unique -/
theorem UrlOf.unique {url host host' path path' : Bytes} {port port' : ℕ} (h : UrlOf url host port path)
    (h' : UrlOf url host' port' path') : host' = host ∧ port' = port ∧ path' = path := by
  obtain ⟨text, slash, -, hparts, hport, rfl⟩ := h
  obtain ⟨text', slash', -, hparts', hport', rfl⟩ := h'
  have hsame := (urlParts_iff.2 hparts').symm.trans (urlParts_iff.2 hparts)
  obtain ⟨rfl, hrest⟩ := Prod.mk.inj (Option.some.inj hsame)
  obtain ⟨rfl, rfl⟩ := Prod.mk.inj hrest
  have hn := (strtol_number hport').symm.trans (strtol_number hport)
  exact ⟨rfl, by exact_mod_cast (Prod.mk.inj (Option.some.inj hn)).1, rfl⟩

/-- what an accepted URL leaves in its record -/
structure UrlRecord (url : Bytes) (u : UpstreamConfig) : Prop where
  parts : UrlOf url u.host u.port u.path
  host_len : u.host.length ≤ 255
  port_pos : 1 ≤ u.port
  port_le : u.port ≤ 65535

theorem addUpstreamUrl_record {url : Bytes} {u : UpstreamConfig} (h : addUpstreamUrl url = some u) : UrlRecord url u := by
  unfold addUpstreamUrl at h
  split_ifs at h with hscheme hempty
  split at h
  · cases h
  · rename_i host portText slash hparts
    dsimp only at h
    generalize hpath : (if slash = [] then ascii "/" else slash) = path at h
    cases hnum : strtol portText with
    | none =>
      rw [hnum] at h
      split_ifs at h
    | some r =>
      obtain ⟨port, stop⟩ := r
      rw [hnum] at h
      dsimp only at h
      split_ifs at h with hhost hport hbad
      obtain rfl := Option.some.inj h
      simp only [not_or, not_not, not_lt] at hbad
      obtain ⟨rfl, hlow, hhigh⟩ := hbad
      have hcast : ((port.toNat : ℕ) : ℤ) = port := Int.toNat_of_nonneg (by omega)
      have hnumber := number_of_strtol (n := port.toNat) (by omega) (by rw [hcast]; exact hnum)
      unfold UPSTREAM_HOST_MAX at hhost
      refine ⟨⟨portText, slash, not_not.1 hscheme, urlParts_iff.1 hparts, hnumber, hpath.symm⟩, ?_, ?_, ?_⟩ <;>
        dsimp only <;> omega

/-- the parts of a string without NUL have none -/
theorem UrlOf.no_nul {url host path : Bytes} {port : ℕ} (h : UrlOf url host port path) (hz : 0 ∉ url) :
    0 ∉ host ∧ 0 ∉ path := by
  obtain ⟨text, slash, -, hparts, -, rfl⟩ := h
  have hrest : 0 ∉ url.drop 5 := fun hm => hz (List.mem_of_mem_drop hm)
  have hboth : 0 ∉ host ∧ 0 ∉ slash := by
    generalize url.drop 5 = p at hparts hrest
    cases hparts <;> simp only [List.mem_cons, List.mem_append, not_or] at hrest
    · exact ⟨hrest.1.1, hrest.2⟩
    · exact ⟨hrest.1.1.2, hrest.2⟩
  refine ⟨hboth.1, ?_⟩
  split_ifs
  · decide
  · exact hboth.2

/-- the client has host, port and path of the URL, and whenever it asks, it asks for this path -/
def KeepsUrl (url : Bytes) (c : UpstreamClient) : Prop :=
  ∀ host port path, UrlOf url host port path → c.host = host ∧ c.port = port ∧ c.path = path ∧
    ∀ (e : UpEnv) (nonce : Random 16), e.nonce = some nonce →
      ∃ rest, bufData (queueHandshake e c).2.tx = ascii "GET " ++ path ++ ascii " HTTP/1.1\r\n" ++ rest

/-- the client of a record -/
theorem upstreamAdd_record {url : Bytes} {u : UpstreamConfig} (hu : UrlRecord url u) (hz : 0 ∉ url) (id : ℕ) :
    ∃ c, upstreamAdd id u.host u.port u.path = some c ∧ c.host = u.host ∧ c.port = u.port ∧
      c.path = u.path.take 255 := by
  obtain ⟨hhost, hpath⟩ := hu.parts.no_nul hz
  have hpos := hu.port_pos
  have hle := hu.port_le
  unfold upstreamAdd
  rw [if_neg (by omega), cstr_of_notMem hhost, cstr_of_notMem hpath]
  exact ⟨_, rfl, List.take_of_length_le hu.host_len, rfl, rfl⟩

/-- the request line of a client whose host and path fit -/
theorem queueHandshake_asks {c : UpstreamClient} (hhost : c.host.length ≤ 255) (hpath : c.path.length ≤ 255)
    (hport : c.port ≤ 65535) {e : UpEnv} {nonce : Random 16} (hnonce : e.nonce = some nonce) :
    ∃ rest, bufData (queueHandshake e c).2.tx = ascii "GET " ++ c.path ++ ascii " HTTP/1.1\r\n" ++ rest := by
  have hline : ascii " HTTP/1.1\r\nHost: " = ascii " HTTP/1.1\r\n" ++ ascii "Host: " := by decide
  have hshort := length_handshakeRequest nonce hhost hpath hport
  rw [(queueHandshake_queues hnonce (wsComputeAccept_nonce nonce) hshort).1]
  unfold handshakeRequest
  rw [hline]
  simp only [List.append_assoc, List.append_cancel_left_eq, exists_eq']

/-- **The client of a URL.** For every URL `addUpstreamUrl` accepts, the client `main` makes of it has its host, port and
path, and asks for the whole path, if and only if the path has at most 255 bytes. -/
theorem client_keeps_url_iff (url : Bytes) (hz : 0 ∉ url) (u : UpstreamConfig) (h : addUpstreamUrl url = some u) (id : ℕ) :
    ∃ host port path c, UrlOf url host port path ∧ upstreamAdd id u.host u.port u.path = some c ∧
      (KeepsUrl url c ↔ path.length ≤ 255) := by
  have hu := addUpstreamUrl_record h
  obtain ⟨c, hc, hhost, hport, hpath⟩ := upstreamAdd_record hu hz id
  refine ⟨u.host, u.port, u.path, c, hu.parts, hc, ?_⟩
  constructor
  · intro hkeep
    obtain ⟨-, -, hsame, -⟩ := hkeep _ _ _ hu.parts
    rw [← hsame, hpath, List.length_take]
    omega
  · intro hlen host' port' path' hparts'
    obtain ⟨rfl, rfl, rfl⟩ := hu.parts.unique hparts'
    rw [List.take_of_length_le hlen] at hpath
    refine ⟨hhost, hport, hpath, fun e nonce hnonce => ?_⟩
    rw [← hpath]
    exact queueHandshake_asks (hhost ▸ hu.host_len) (hpath ▸ hlen) (hport ▸ hu.port_le) hnonce

theorem client_keeps_url_iff_short : ∃ host port path c, UrlOf (ascii "ws://[::1]:33335/feed") host port path ∧
    upstreamAdd 1000000 (ascii "::1") 33335 (ascii "/feed") = some c ∧
      (KeepsUrl (ascii "ws://[::1]:33335/feed") c ↔ path.length ≤ 255) :=
  client_keeps_url_iff (ascii "ws://[::1]:33335/feed") (by decide) ⟨ascii "::1", 33335, ascii "/feed"⟩ (by decide +kernel)
    1000000

/-- a URL whose path has `n + 1` bytes -/
def longUrl (n : ℕ) : Bytes := ascii "ws://h:80/" ++ List.replicate n 0x61

/-- **A long path is cut**: the URL is accepted, and its client has another path. -/
theorem long_path_is_cut : ∃ url u c, 0 ∉ url ∧ addUpstreamUrl url = some u ∧
    upstreamAdd 1000000 u.host u.port u.path = some c ∧ ¬ KeepsUrl url c := by
  have hz : 0 ∉ longUrl 300 := by decide +kernel
  obtain ⟨u, hu, hlen⟩ : ∃ u, addUpstreamUrl (longUrl 300) = some u ∧ u.path.length = 301 :=
    ⟨⟨ascii "h", 80, 0x2F :: List.replicate 300 0x61⟩, by decide +kernel, by decide +kernel⟩
  have hrec := addUpstreamUrl_record hu
  obtain ⟨c, hc, -, -, hpath⟩ := upstreamAdd_record hrec hz 1000000
  refine ⟨_, u, c, hz, hu, hc, fun hkeep => ?_⟩
  have hsame := (hkeep _ _ _ hrec.parts).2.2.1
  have hcut := congrArg List.length (hpath.symm.trans hsame)
  rw [List.length_take, hlen] at hcut
  omega

end WsServer
