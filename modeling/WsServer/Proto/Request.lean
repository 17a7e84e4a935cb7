/-
The opening request: what `httpParseHandshake` accepts, against what a request for an upgrade is.

`GoodRequest` is said over the lines of the block (`Proto/Lines.lean`). The code looks for the end of the target with
`memchr` over the whole block, so a request line without a second space is read on into the headers.

- `handshake_exact_iff`: the code accepts exactly the good requests, and returns their target and accept key, unless it
  runs past the request line (`Overrun`).
- `target_runs_on`: a block whose request line has no second space, accepted.
-/
import Mathlib
import WsServer.Proto.Lines

namespace WsServer

open Ws

/-! ## Good requests -/

/-- the headers of an upgrade, with the client's key -/
structure UpgradeHeaders (block key : Bytes) : Prop where
  upgrade : ∃ v, headerOf block (ascii "Upgrade") = some v ∧ ListHas v (ascii "websocket")
  connection : ∃ v, headerOf block (ascii "Connection") = some v ∧ ListHas v (ascii "Upgrade")
  version : headerOf block (ascii "Sec-WebSocket-Version") = some (ascii "13")
  sent : headerOf block (ascii "Sec-WebSocket-Key") = some key
  key_len : key.length = 24
  key_bytes : ∃ out, base64Decode key = some out ∧ out.length = 16

/-- `GET`, the target, and the rest, each behind one space -/
def Targets (text target : Bytes) : Prop := ∃ rest, text = ascii "GET " ++ target ++ 0x20 :: rest

structure TargetOk (target : Bytes) : Prop where
  space : 0x20 ∉ target
  pos : 1 ≤ target.length
  le : target.length ≤ 255

structure GoodRequest (block target key : Bytes) : Prop where
  line : Targets (firstLine block) target
  target : TargetOk target
  headers : UpgradeHeaders block key

/-- the parser accepts the good requests and no others, and says what they ask for -/
def HandshakeExact (block : Bytes) : Prop :=
  ((httpParseHandshake block).status = .HS_OK ↔ ∃ target key, GoodRequest block target key) ∧
    ((httpParseHandshake block).status = .HS_OK → ∀ target key, GoodRequest block target key →
      (httpParseHandshake block).path = target ∧
        (httpParseHandshake block).acceptKey = base64Encode (Fips180.sha1 (key ++ MAGIC)))

/-- no space behind the first one of the request line; but one follows in the block, close enough, and the headers are
those of an upgrade -/
def Overrun (block : Bytes) : Prop :=
  0x20 ∉ (firstLine block).drop 4 ∧
    ∃ target key, Targets block target ∧ TargetOk target ∧ UpgradeHeaders block key

/-! ## What the code checks -/

theorem any_hasToken {buf name token : Bytes} (hn : 0x3A ∉ name) (ht : token ≠ []) :
    ((httpFindHeader buf name).any (httpHeaderHasToken · token)) = true ↔
      ∃ v, headerOf buf name = some v ∧ ListHas v token := by
  rw [httpFindHeader_eq hn, Option.any_eq_true]
  simp only [httpHeaderHasToken_iff ht]

/-- the key is accepted exactly when it has its length and stands for sixteen bytes -/
theorem wsComputeAccept_eq {key accept : Bytes} : wsComputeAccept key = some accept ↔
    key.length = 24 ∧ (∃ out, base64Decode key = some out ∧ out.length = 16) ∧
      accept = base64Encode (Fips180.sha1 (key ++ MAGIC)) := by
  have hdec : base64DecodedLen key = some 16 ↔ ∃ out, base64Decode key = some out ∧ out.length = 16 := by
    rw [base64DecodedLen_eq, Option.map_eq_some_iff]
  unfold wsComputeAccept
  by_cases hkey : key.length = 24
  · have hsha : sha1 (key ++ MAGIC) = Fips180.sha1 (key ++ MAGIC) := by
      apply sha1_eq
      have hmagic : MAGIC.length = 36 := by decide
      rw [List.length_append, hkey, hmagic]
      norm_num
    rw [← hdec, hsha]
    by_cases h16 : base64DecodedLen key = some 16
    · rw [if_neg (by simp [hkey, h16]), Option.some.injEq]
      simp [hkey, h16, eq_comm]
    · rw [if_pos (.inr h16)]
      simp [h16]
  · rw [if_pos (.inl hkey)]
    simp [hkey]

/-- the text up to a space -/
theorem takeWhile_space {target rest : Bytes} (h : 0x20 ∉ target) :
    (target ++ 0x20 :: rest).takeWhile (· ≠ 0x20) = target := by
  have hall : ∀ c ∈ target, decide (c ≠ 0x20) = true := fun c hc => decide_eq_true fun he => h (he ▸ hc)
  rw [List.takeWhile_append_of_pos hall]
  simp

/-- the text up to the first space, cut out of a longer one -/
theorem cut_unique {target target' rest rest' : Bytes} (h : 0x20 ∉ target) (h' : 0x20 ∉ target')
    (he : target ++ 0x20 :: rest = target' ++ 0x20 :: rest') : target = target' := by
  rw [← @takeWhile_space target rest h, he, takeWhile_space h']

/-- what the code takes for the target -/
theorem targets_iff {block target : Bytes} (ht : 0x20 ∉ target) :
    Targets block target ↔ block.take 4 = ascii "GET " ∧ (block.drop 4).takeWhile (· ≠ 0x20) = target ∧
      target.length ≠ (block.drop 4).length := by
  constructor
  · rintro ⟨rest, rfl⟩
    have h4 : (ascii "GET ").length = 4 := by decide
    rw [List.append_assoc, List.take_left' h4, List.drop_left' h4, takeWhile_space ht]
    refine ⟨rfl, rfl, ?_⟩
    simp
  · rintro ⟨hget, hcut, hne⟩
    have hsplit : (block.drop 4).takeWhile (· ≠ 0x20) ++ (block.drop 4).dropWhile (· ≠ 0x20) = block.drop 4 :=
      List.takeWhile_append_dropWhile
    cases hd : (block.drop 4).dropWhile (· ≠ 0x20) with
    | nil =>
      rw [hd, List.append_nil, hcut] at hsplit
      exact absurd (congrArg List.length hsplit) hne
    | cons c rest =>
      have hc := List.head?_dropWhile_not (· ≠ 0x20) (block.drop 4)
      rw [hd] at hc
      obtain rfl : c = 0x20 := by simpa using hc
      refine ⟨rest, ?_⟩
      rw [List.append_assoc, ← hget, ← hcut, ← hd, hsplit, List.take_append_drop]

theorem upgradeHeaders_iff (block key : Bytes) : UpgradeHeaders block key ↔
    (((httpFindHeader block (ascii "Upgrade")).any (httpHeaderHasToken · (ascii "websocket"))) = true ∧
      ((httpFindHeader block (ascii "Connection")).any (httpHeaderHasToken · (ascii "Upgrade"))) = true) ∧
    httpFindHeader block (ascii "Sec-WebSocket-Version") = some (ascii "13") ∧
    httpFindHeader block (ascii "Sec-WebSocket-Key") = some key ∧
    wsComputeAccept key = some (base64Encode (Fips180.sha1 (key ++ MAGIC))) := by
  rw [any_hasToken (by decide) (by decide), any_hasToken (by decide) (by decide), httpFindHeader_eq (by decide),
    httpFindHeader_eq (by decide), wsComputeAccept_eq]
  constructor
  · intro h
    exact ⟨⟨h.upgrade, h.connection⟩, h.version, h.sent, h.key_len, h.key_bytes, rfl⟩
  · rintro ⟨⟨h1, h2⟩, h3, h4, h5, h6, -⟩
    exact ⟨h1, h2, h3, h4, h5, h6⟩

/-- a block with a target, wherever its space is found, and the headers of an upgrade is accepted -/
theorem handshake_ok {block target key : Bytes} (ht : Targets block target) (hok : TargetOk target)
    (hh : UpgradeHeaders block key) :
    httpParseHandshake block = ⟨.HS_OK, target, base64Encode (Fips180.sha1 (key ++ MAGIC))⟩ := by
  obtain ⟨hget, hcut, hne⟩ := (targets_iff hok.space).1 ht
  obtain ⟨hup, hversion, hkey, haccept⟩ := (upgradeHeaders_iff block key).1 hh
  have hpos := hok.pos
  have hle := hok.le
  have hlen : 5 ≤ block.length := by
    obtain ⟨rest, rfl⟩ := ht
    have h4 : (ascii "GET ").length = 4 := by decide
    simp only [List.length_append, List.length_cons, h4]
    omega
  unfold httpParseHandshake
  dsimp only
  rw [hcut, if_neg (by rw [hget]; simp; omega), if_neg hne, if_neg (by omega), if_neg (not_not.2 hup),
    if_neg (not_not.2 hversion), hkey, Option.bind_some, haccept]

/-- and nothing else is -/
theorem handshake_ok_inv {block : Bytes} (h : (httpParseHandshake block).status = .HS_OK) :
    ∃ target key, Targets block target ∧ TargetOk target ∧ UpgradeHeaders block key := by
  unfold httpParseHandshake at h
  dsimp only at h
  split_ifs at h with hget hne hlen hup hversion
  split at h
  · cases h
  · rename_i accept haccept
    obtain ⟨key, hkey, haccept⟩ := Option.bind_eq_some_iff.1 haccept
    have hno : 0x20 ∉ (block.drop 4).takeWhile (· ≠ 0x20) := by
      intro hm
      have := List.mem_takeWhile_imp hm
      simp at this
    refine ⟨(block.drop 4).takeWhile (· ≠ 0x20), key, (targets_iff hno).2 ⟨?_, rfl, hne⟩, ⟨hno, ?_, ?_⟩, ?_⟩
    · by_contra hg
      exact hget (.inr hg)
    · omega
    · omega
    · obtain ⟨h24, h16, -⟩ := wsComputeAccept_eq.1 haccept
      exact (upgradeHeaders_iff block key).2 ⟨hup, not_not.1 hversion, hkey, wsComputeAccept_eq.2 ⟨h24, h16, rfl⟩⟩

/-! ## Where the target ends -/

theorem firstLine_prefix (block : Bytes) : firstLine block <+: block := by
  unfold firstLine
  rw [linesOf_findCRLF block]
  cases findCRLF block with
  | none => exact List.prefix_rfl
  | some i => exact List.take_prefix i block

/-- the target stands in the request line exactly when that line has a space for it -/
theorem firstLine_targets {block target : Bytes} (ht : Targets block target) (hno : 0x20 ∉ target) :
    Targets (firstLine block) target ↔ 0x20 ∈ (firstLine block).drop 4 := by
  have h4 : (ascii "GET ").length = 4 := by decide
  constructor
  · rintro ⟨rest, hline⟩
    rw [hline, List.append_assoc, List.drop_left' h4]
    simp
  · intro hm
    obtain ⟨t, htail⟩ := firstLine_prefix block
    obtain ⟨rest, hblock⟩ := ht
    obtain ⟨cut, rest', hcut, hcutno⟩ := List.eq_append_cons_of_mem hm
    have hlen : 4 ≤ (firstLine block).length := by
      have := List.length_pos_of_mem hm
      rw [List.length_drop] at this
      omega
    rw [List.append_assoc] at hblock
    have hget : (firstLine block).take 4 = ascii "GET " := by
      have := congrArg (List.take 4) (htail.trans hblock)
      rwa [List.take_append_of_le_length hlen, List.take_left' h4] at this
    have hdrop : (firstLine block).drop 4 ++ t = target ++ 0x20 :: rest := by
      have := congrArg (List.drop 4) (htail.trans hblock)
      rwa [List.drop_append_of_le_length hlen, List.drop_left' h4] at this
    rw [hcut, List.append_assoc, List.cons_append] at hdrop
    obtain rfl := cut_unique hcutno hno hdrop
    refine ⟨rest', ?_⟩
    rw [List.append_assoc, ← hget, ← hcut, List.take_append_drop]

/-- a good request is one for the code as well -/
theorem GoodRequest.targets {block target key : Bytes} (h : GoodRequest block target key) : Targets block target := by
  obtain ⟨t, ht⟩ := firstLine_prefix block
  obtain ⟨rest, hline⟩ := h.line
  refine ⟨rest ++ t, ?_⟩
  rw [← ht, hline, List.append_assoc, List.append_assoc, List.append_assoc]
  rfl

/-- **Exactly when the parser is right.** It accepts the good requests and no others, and returns target and accept key,
if and only if it does not run past the request line. -/
theorem handshake_exact_iff (block : Bytes) : HandshakeExact block ↔ ¬ Overrun block := by
  constructor
  · rintro ⟨hiff, -⟩ ⟨hno, target, key, ht, hok, hh⟩
    obtain ⟨target', key', hgood⟩ := hiff.1 (by rw [handshake_ok ht hok hh])
    exact hno ((firstLine_targets hgood.targets hgood.target.space).1 hgood.line)
  · intro hrun
    refine ⟨⟨fun h => ?_, ?_⟩, fun _ target key hgood => ?_⟩
    · obtain ⟨target, key, ht, hok, hh⟩ := handshake_ok_inv h
      have hspace : 0x20 ∈ (firstLine block).drop 4 := by
        by_contra hno
        exact hrun ⟨hno, target, key, ht, hok, hh⟩
      exact ⟨target, key, (firstLine_targets ht hok.space).2 hspace, hok, hh⟩
    · rintro ⟨target, key, hgood⟩
      rw [handshake_ok hgood.targets hgood.target hgood.headers]
    · rw [handshake_ok hgood.targets hgood.target hgood.headers]
      exact ⟨rfl, rfl⟩

/-- a request line that ends behind the target, with headers after it -/
def openLine : Bytes :=
  ascii "GET /feed\r\nHost: h\r\nUpgrade: websocket\r\nConnection: Upgrade\r\n" ++
    ascii "Sec-WebSocket-Key: dGhlIHNhbXBsZSBub25jZQ==\r\nSec-WebSocket-Version: 13\r\n\r\n"

/-- **The target runs on** into the next header: accepted, with a path that is no target of the request line. -/
theorem target_runs_on : httpFindHeaderEnd openLine = some (openLine.length - 4) ∧
    (httpParseHandshake openLine).status = .HS_OK ∧ (httpParseHandshake openLine).path = ascii "/feed\r\nHost:" ∧
    (¬ ∃ target key, GoodRequest openLine target key) ∧ ¬ HandshakeExact openLine := by
  have hstatus : (httpParseHandshake openLine).status = .HS_OK := by decide +kernel
  have hno : 0x20 ∉ (firstLine openLine).drop 4 := by decide +kernel
  have hbad : ¬ ∃ target key, GoodRequest openLine target key := by
    rintro ⟨target, key, hgood⟩
    exact hno ((firstLine_targets hgood.targets hgood.target.space).1 hgood.line)
  refine ⟨by decide +kernel, hstatus, by decide +kernel, hbad, ?_⟩
  rintro ⟨hiff, -⟩
  exact hbad (hiff.1 hstatus)

end WsServer
