/-
`findCRLF`, `httpFindHeader` and `httpHeaderHasToken` of `src/http.c` over indices.

In `Proto/Http.lean` the scans run over lists. Here a buffer is a block of memory and every byte is read at its index;
a read outside of the buffer and a loop without an end are faults (`Core/Checked.lean`). A pointer is an index, a value
is the index of its first byte and its length. No sum exceeds the length of the buffer, and a difference is taken only
behind the comparison that allows it.

- `findCRLF_indexed`, `strncasecmp_ok`, `trimValue_ok`: what the inner scans find.
- `httpFindHeader_list`, `httpHeaderHasToken_list`: the scans over indices do what those over lists do.
- `scans_split`: the header found and the answer for a token are those of the text cut into lines and elements.
-/
import Mathlib
import WsServer.Core.Checked
import WsServer.Proto.Lines

namespace WsServer.Indexed

open Checked Ws

/-! ## The scans -/

/-- a C string; in memory a NUL follows it -/
structure CString where
  bytes : Bytes
  no_nul : 0 ∉ bytes

def CString.block (s : CString) : Bytes := s.bytes ++ [0]

def strlen (s : Bytes) : Except Fault ℕ :=
  loop (fun i => do
    let c ← get s i
    if c = 0 then return .inr i else return .inl (i + 1)) (s.length + 1) 0

/-- `while (i < len && p(val[i])) i++` -/
def upWhile (p : UInt8 → Bool) (val : Bytes) (i : ℕ) : Except Fault ℕ :=
  loop (fun i =>
    if i < val.length then do
      let c ← get val i
      if p c then return .inl (i + 1) else return .inr i
    else return .inr i) (val.length + 1) i

/-- `while (end > start && v[end - 1] == ' ') end--` for a pointer `v` -/
def downWhile (buf : Bytes) (v start stop : ℕ) : Except Fault ℕ :=
  loop (fun stop =>
    if start < stop then do
      let c ← get buf (v + (stop - 1))
      if c = 0x20 then return .inl (stop - 1) else return .inr stop
    else return .inr stop) (stop + 1) stop

/-- `strncasecmp(a + i, b, n) == 0`: it stops at a difference, and behind a NUL in both -/
def strncasecmp (a : Bytes) (i : ℕ) (b : Bytes) (n : ℕ) : Except Fault Bool :=
  loop (fun k =>
    if k < n then do
      let x ← get a (i + k)
      let y ← get b k
      if lower x ≠ lower y then return .inr false
      else if x = 0 then return .inr true
      else return .inl (k + 1)
    else return .inr true) (n + 1) 0

/-- `findCRLF(p, n)` for the pointer `buf + p` -/
def findCRLF (buf : Bytes) (p n : ℕ) : Except Fault (Option ℕ) :=
  loop (fun i =>
    if i + 1 < n then do
      let a ← get buf (p + i)
      if a = 0x0D then do
        let b ← get buf (p + (i + 1))
        if b = 0x0A then return .inr (some (p + i)) else return .inl (i + 1)
      else return .inl (i + 1)
    else return .inr none) (n + 1) 0

/-- `lineLen > nameLen && lineStart[nameLen] == ':' && strncasecmp(lineStart, name, nameLen) == 0` -/
def lineIs (buf : Bytes) (lineStart lineLen : ℕ) (name : Bytes) (nameLen : ℕ) : Except Fault Bool :=
  if nameLen < lineLen then do
    let c ← get buf (lineStart + nameLen)
    if c = 0x3A then strncasecmp buf lineStart name nameLen else return false
  else return false

/-- `while (vlen > 0 && *v == ' ') { v++; vlen--; }` -/
def dropSpaces (buf : Bytes) (v vlen : ℕ) : Except Fault (ℕ × ℕ) :=
  loop (fun r : ℕ × ℕ =>
    if 0 < r.2 then do
      let c ← get buf r.1
      if c = 0x20 then return .inl (r.1 + 1, r.2 - 1) else return .inr r
    else return .inr r) (vlen + 1) (v, vlen)

/-- the two loops that take the spaces from the value `v`, `vlen` -/
def trimValue (buf : Bytes) (v vlen : ℕ) : Except Fault (ℕ × ℕ) := do
  let r ← dropSpaces buf v vlen
  let vlen ← downWhile buf r.1 0 r.2
  return (r.1, vlen)

/-- the end of the line at `pos`, for the CRLF found behind it -/
def lineEnd (buf : Bytes) (pos : ℕ) : Option ℕ → Except Fault ℕ
  | some nl => minus nl pos
  | none => return buf.length - pos

/-- one round of `while (pos < len)` -/
def headerRound (buf name : Bytes) (nameLen pos : ℕ) : Except Fault (ℕ ⊕ Option (ℕ × ℕ)) :=
  if pos < buf.length then do
    let nl ← findCRLF buf pos (buf.length - pos)
    let lineLen ← lineEnd buf pos nl
    if lineLen = 0 then return .inr none
    else do
      let hit ← lineIs buf pos lineLen name nameLen
      if hit then do
        let r ← trimValue buf (pos + nameLen + 1) (lineLen - nameLen - 1)
        return .inr (some r)
      else if nl = none then return .inr none
      else return .inl (pos + (lineLen + 2))
  else return .inr none

def httpFindHeader (buf : Bytes) (name : CString) : Except Fault (Option (ℕ × ℕ)) := do
  let nameLen ← strlen name.block
  let firstNl ← findCRLF buf 0 buf.length
  match firstNl with
  | none => return none
  | some nl => loop (headerRound buf name.block nameLen) (buf.length + 1) (nl + 2)

/-- `end > start && end - start == tokenLen && strncasecmp(val + start, token, tokenLen) == 0` -/
def elemIs (val : Bytes) (start stop : ℕ) (token : Bytes) (tokenLen : ℕ) : Except Fault Bool :=
  if start < stop ∧ stop - start = tokenLen then strncasecmp val start token tokenLen else return false

/-- one round of `while (i < len)` -/
def tokenRound (val token : Bytes) (tokenLen i : ℕ) : Except Fault (ℕ ⊕ Bool) :=
  if i < val.length then do
    let start ← upWhile (fun c => c = 0x20 ∨ c = 0x2C) val i
    let i ← upWhile (fun c => c ≠ 0x2C) val start
    let stop ← downWhile val 0 start i
    let hit ← elemIs val start stop token tokenLen
    if hit then return .inr true else return .inl i
  else return .inr false

/-- `httpHeaderHasToken`; `true` is the return of 1 -/
def httpHeaderHasToken (val : Bytes) (token : CString) : Except Fault Bool := do
  let tokenLen ← strlen token.block
  loop (tokenRound val token.block tokenLen) (val.length + 1) 0

/-! ## C strings -/

theorem strlen_ok (s : CString) : strlen s.block = .ok s.bytes.length := by
  refine loop_eq (fun i => i ≤ s.bytes.length) (fun _ => s.bytes.length) (fun i => s.bytes.length - i) ?_
    (Nat.zero_le _) (by simp [CString.block])
  intro i hi
  have hlen : s.block.length = s.bytes.length + 1 := by simp [CString.block]
  rw [get_ok (by omega)]
  dsimp only [bind, Except.bind]
  by_cases hlt : i < s.bytes.length
  · left
    have hat : s.block[i] = s.bytes[i] := List.getElem_append_left hlt
    have hne : ¬ s.bytes[i] = 0 := by
      intro h0
      exact s.no_nul (h0 ▸ List.getElem_mem hlt)
    rw [hat, if_neg hne]
    exact ⟨i + 1, rfl, hlt, by omega, rfl⟩
  · right
    obtain rfl : i = s.bytes.length := by omega
    have hat : s.block[s.bytes.length] = 0 := by simp [CString.block]
    rw [hat, if_pos rfl]
    rfl

theorem caseEq_cons (x y : UInt8) (xs ys : Bytes) :
    caseEq (x :: xs) (y :: ys) = (decide (lower x = lower y) && caseEq xs ys) := by
  simp [caseEq]

/-- the comparison is that of the strings without regard to case; it does not reach the NUL -/
theorem strncasecmp_ok {a : Bytes} {i : ℕ} {s : CString} (h : i + s.bytes.length ≤ a.length) :
    strncasecmp a i s.block s.bytes.length = .ok (caseEq ((a.drop i).take s.bytes.length) s.bytes) := by
  refine loop_eq (fun k => k ≤ s.bytes.length)
    (fun k => caseEq ((a.drop (i + k)).take (s.bytes.length - k)) (s.bytes.drop k)) (fun k => s.bytes.length - k) ?_
    (Nat.zero_le _) (by omega)
  intro k hk
  by_cases hlt : k < s.bytes.length
  · have hx : i + k < a.length := by omega
    have hblock : k < s.block.length := by
      rw [CString.block, List.length_append]
      omega
    have hy : s.block[k] = s.bytes[k] := List.getElem_append_left hlt
    have hrest : s.bytes.length - k = s.bytes.length - (k + 1) + 1 := by omega
    rw [if_pos hlt, get_ok hx, get_ok hblock, hy, List.drop_eq_getElem_cons hx,
      List.drop_eq_getElem_cons hlt, hrest, List.take_succ_cons, caseEq_cons]
    dsimp only [bind, Except.bind]
    by_cases heq : lower a[i + k] = lower s.bytes[k]
    · have hne : ¬ a[i + k] = 0 := by
        intro h0
        rw [h0] at heq
        have hzero : s.bytes[k] = 0 := of_lower_eq (by decide) heq.symm
        exact s.no_nul (hzero ▸ List.getElem_mem hlt)
      left
      rw [if_neg (not_not_intro heq), if_neg hne, decide_eq_true heq, Bool.true_and]
      exact ⟨k + 1, rfl, hlt, by omega, rfl⟩
    · right
      rw [if_pos heq, decide_eq_false heq, Bool.false_and]
      rfl
  · right
    have hzero : s.bytes.length - k = 0 := by omega
    rw [if_neg hlt, hzero, List.take_zero, List.drop_eq_nil_of_le (by omega)]
    rfl

/-! ## Runs of bytes -/

theorem findCRLF_short {s : Bytes} (h : s.length < 2) : WsServer.findCRLF s = none := by
  cases hnl : WsServer.findCRLF s with
  | none => rfl
  | some i =>
    have hfits := findCRLF_lt hnl
    omega

/-- `findCRLF` on all that is left of the buffer -/
theorem findCRLF_indexed {buf : Bytes} {p n : ℕ} (h : p + n = buf.length) :
    findCRLF buf p n = .ok ((WsServer.findCRLF (buf.drop p)).map (p + ·)) := by
  refine loop_eq (fun i => i ≤ n) (fun i => (WsServer.findCRLF (buf.drop (p + i))).map (p + i + ·)) (fun i => n - i) ?_
    (Nat.zero_le _) (by omega)
  intro i hi
  by_cases hlt : i + 1 < n
  · have ha : p + i < buf.length := by omega
    have hb : p + (i + 1) < buf.length := by omega
    have hnext : (WsServer.findCRLF (buf.drop (p + (i + 1)))).map (p + (i + 1) + ·) =
        ((WsServer.findCRLF (buf[p + (i + 1)] :: buf.drop (p + (i + 1) + 1))).map (· + 1)).map (p + i + ·) := by
      rw [← List.drop_eq_getElem_cons hb, Option.map_map]
      cases WsServer.findCRLF (buf.drop (p + (i + 1))) with
      | none => rfl
      | some k =>
        show some (p + (i + 1) + k) = some (p + i + (k + 1))
        congr 1
        omega
    rw [if_pos hlt, get_ok ha, get_ok hb, List.drop_eq_getElem_cons ha, Nat.add_assoc p i 1,
      List.drop_eq_getElem_cons hb, WsServer.findCRLF]
    dsimp only [bind, Except.bind]
    by_cases hcr : buf[p + i] = 0x0D
    · by_cases hlf : buf[p + (i + 1)] = 0x0A
      · right
        rw [if_pos hcr, if_pos hlf, if_pos ⟨hcr, hlf⟩]
        rfl
      · left
        rw [if_pos hcr, if_neg hlf, if_neg (fun h => hlf h.2)]
        exact ⟨i + 1, rfl, by omega, by omega, hnext⟩
    · left
      rw [if_neg hcr, if_neg (fun h => hcr h.1)]
      exact ⟨i + 1, rfl, by omega, by omega, hnext⟩
  · right
    rw [if_neg hlt, findCRLF_short (by rw [List.length_drop]; omega)]
    rfl

theorem upWhile_ok (p : UInt8 → Bool) {val : Bytes} {i : ℕ} (h : i ≤ val.length) :
    ∃ j, upWhile p val i = .ok j ∧ i ≤ j ∧ j ≤ val.length ∧ val.drop j = (val.drop i).dropWhile p := by
  refine loop_ok (fun j => i ≤ j ∧ j ≤ val.length ∧ (val.drop j).dropWhile p = (val.drop i).dropWhile p) _
    (fun j => val.length - j) ?_ ⟨le_rfl, h, rfl⟩ (by omega)
  intro j hj
  obtain ⟨hij, hle, hrest⟩ := hj
  by_cases hlt : j < val.length
  · rw [if_pos hlt, get_ok hlt]
    dsimp only [bind, Except.bind]
    rw [List.drop_eq_getElem_cons hlt] at hrest
    by_cases hp : p val[j] = true
    · left
      rw [List.dropWhile_cons_of_pos hp] at hrest
      rw [if_pos hp]
      exact ⟨j + 1, rfl, ⟨by omega, hlt, hrest⟩, by omega⟩
    · right
      rw [List.dropWhile_cons_of_neg hp, ← List.drop_eq_getElem_cons hlt] at hrest
      rw [if_neg hp]
      exact ⟨j, rfl, hij, hle, hrest⟩
  · right
    rw [List.drop_eq_nil_of_le (by omega), List.dropWhile_nil] at hrest
    rw [if_neg hlt]
    exact ⟨j, rfl, hij, hle, by rw [List.drop_eq_nil_of_le (by omega), hrest]⟩

/-- the spaces at the end go -/
def trimEnd (v : Bytes) : Bytes := (v.reverse.dropWhile (· = 0x20)).reverse

theorem trimEnd_concat (v : Bytes) (c : UInt8) : trimEnd (v ++ [c]) = if c = 0x20 then trimEnd v else v ++ [c] := by
  unfold trimEnd
  rw [List.reverse_append, List.reverse_singleton, List.singleton_append]
  by_cases hc : c = 0x20
  · rw [if_pos hc, List.dropWhile_cons_of_pos (by simpa using hc)]
  · rw [if_neg hc, List.dropWhile_cons_of_neg (by simpa using hc), List.reverse_cons, List.reverse_reverse]

theorem downWhile_ok {buf : Bytes} {v start stop : ℕ} (h : start ≤ stop) (hfits : v + stop ≤ buf.length) :
    ∃ e, downWhile buf v start stop = .ok e ∧ start ≤ e ∧ e ≤ stop ∧
      (buf.drop (v + start)).take (e - start) = trimEnd ((buf.drop (v + start)).take (stop - start)) := by
  refine loop_ok (fun e => start ≤ e ∧ e ≤ stop ∧ trimEnd ((buf.drop (v + start)).take (e - start)) =
    trimEnd ((buf.drop (v + start)).take (stop - start))) _ (fun e => e) ?_ ⟨h, le_rfl, rfl⟩ (by omega)
  intro e he
  obtain ⟨hse, hle, hrest⟩ := he
  by_cases hlt : start < e
  · have hat : v + (e - 1) < buf.length := by omega
    have hlast : (buf.drop (v + start)).take (e - start) =
        (buf.drop (v + start)).take (e - 1 - start) ++ [buf[v + (e - 1)]] := by
      have hsucc : e - start = e - 1 - start + 1 := by omega
      have hsame : v + start + (e - 1 - start) = v + (e - 1) := by omega
      rw [hsucc, List.take_add_one, List.getElem?_drop, hsame, List.getElem?_eq_getElem hat]
      rfl
    rw [if_pos hlt, get_ok hat]
    dsimp only [bind, Except.bind]
    rw [hlast, trimEnd_concat] at hrest
    by_cases hc : buf[v + (e - 1)] = 0x20
    · left
      rw [if_pos hc] at hrest ⊢
      exact ⟨e - 1, rfl, ⟨by omega, by omega, hrest⟩, by omega⟩
    · right
      rw [if_neg hc] at hrest ⊢
      exact ⟨e, rfl, hse, hle, hlast.trans hrest⟩
  · right
    obtain rfl : e = start := by omega
    rw [if_neg hlt]
    refine ⟨e, rfl, le_rfl, hle, ?_⟩
    rw [← hrest, Nat.sub_self, List.take_zero]
    rfl

/-- the bytes of a value that was found -/
def valueAt (buf : Bytes) (r : ℕ × ℕ) : Bytes := (buf.drop r.1).take r.2

theorem length_valueAt {buf : Bytes} {pos n : ℕ} (h : pos + n ≤ buf.length) : (valueAt buf (pos, n)).length = n := by
  rw [valueAt, List.length_take, List.length_drop]
  dsimp only
  omega

theorem dropSpaces_ok {buf : Bytes} {v vlen : ℕ} (h : v + vlen ≤ buf.length) :
    ∃ r, dropSpaces buf v vlen = .ok r ∧ r.1 + r.2 ≤ buf.length ∧
      valueAt buf r = (valueAt buf (v, vlen)).dropWhile (· = 0x20) := by
  refine loop_ok (fun r => r.1 + r.2 ≤ buf.length ∧
    (valueAt buf r).dropWhile (· = 0x20) = (valueAt buf (v, vlen)).dropWhile (· = 0x20)) _ Prod.snd ?_ ⟨h, rfl⟩
    (Nat.lt_succ_self _)
  intro r hr
  obtain ⟨hfits, hrest⟩ := hr
  by_cases hpos : 0 < r.2
  · have hat : r.1 < buf.length := by omega
    have hcons : valueAt buf r = buf[r.1] :: valueAt buf (r.1 + 1, r.2 - 1) := by
      obtain ⟨k, hk⟩ : ∃ k, r.2 = k + 1 := ⟨r.2 - 1, by omega⟩
      unfold valueAt
      rw [List.drop_eq_getElem_cons hat, hk, List.take_succ_cons]
      rfl
    rw [if_pos hpos, get_ok hat]
    dsimp only [bind, Except.bind]
    by_cases hc : buf[r.1] = 0x20
    · left
      rw [hcons, List.dropWhile_cons_of_pos (by simpa using hc)] at hrest
      rw [if_pos hc]
      exact ⟨_, rfl, ⟨by dsimp only; omega, hrest⟩, by dsimp only; omega⟩
    · right
      rw [hcons, List.dropWhile_cons_of_neg (by simpa using hc), ← hcons] at hrest
      rw [if_neg hc]
      exact ⟨r, rfl, hfits, hrest⟩
  · right
    have hzero : r.2 = 0 := by omega
    have hnil : valueAt buf r = [] := by
      unfold valueAt
      rw [hzero, List.take_zero]
    rw [hnil, List.dropWhile_nil] at hrest
    rw [if_neg hpos]
    exact ⟨r, rfl, hfits, hnil.trans hrest⟩

theorem trimValue_ok {buf : Bytes} {v vlen : ℕ} (h : v + vlen ≤ buf.length) :
    ∃ r, trimValue buf v vlen = .ok r ∧ r.1 + r.2 ≤ buf.length ∧ valueAt buf r = trimSpaces (valueAt buf (v, vlen)) := by
  obtain ⟨r, hloop, hfits, hvalue⟩ := dropSpaces_ok h
  obtain ⟨e, hdown, _, hle, hend⟩ := downWhile_ok (Nat.zero_le r.2) hfits
  rw [Nat.add_zero, Nat.sub_zero, Nat.sub_zero] at hend
  have htrim : valueAt buf (r.1, e) = trimSpaces (valueAt buf (v, vlen)) := by
    calc valueAt buf (r.1, e)
        = trimEnd (valueAt buf r) := hend
      _ = trimEnd ((valueAt buf (v, vlen)).dropWhile (· = 0x20)) := by rw [hvalue]
  refine ⟨(r.1, e), ?_, (Nat.add_le_add_left hle _).trans hfits, htrim⟩
  unfold trimValue
  rw [hloop]
  dsimp only [bind, Except.bind]
  rw [hdown]
  rfl

/-! ## Headers -/

/-- the line `lineLen` long at `pos` is compared with the name -/
theorem lineIs_ok {buf : Bytes} {pos lineLen : ℕ} (h : pos + lineLen ≤ buf.length) (name : CString) :
    lineIs buf pos lineLen name.block name.bytes.length =
      .ok (decide (Carries name.bytes (valueAt buf (pos, lineLen)))) := by
  have hiff := carries_iff name.bytes (valueAt buf (pos, lineLen))
  rw [length_valueAt h] at hiff
  unfold lineIs
  by_cases hlt : name.bytes.length < lineLen
  · have hat : pos + name.bytes.length < buf.length := by omega
    have hcolon : (valueAt buf (pos, lineLen)).getD name.bytes.length 0 = buf[pos + name.bytes.length] := by
      unfold valueAt
      rw [List.getD_eq_getElem _ _ (by rw [List.length_take, List.length_drop]; dsimp only; omega), List.getElem_take,
        List.getElem_drop]
    have htext : (valueAt buf (pos, lineLen)).take name.bytes.length = (buf.drop pos).take name.bytes.length := by
      unfold valueAt
      rw [List.take_take, Nat.min_eq_left hlt.le]
    rw [hcolon, htext] at hiff
    rw [if_pos hlt, get_ok hat, strncasecmp_ok (by omega)]
    dsimp only [bind, Except.bind]
    by_cases hc : buf[pos + name.bytes.length] = 0x3A
    · rw [if_pos hc, decide_eq_decide.2 (hiff.trans (and_iff_right hlt)), Bool.decide_and, decide_eq_true hc,
        Bool.true_and, Bool.decide_eq_true]
    · rw [if_neg hc, decide_eq_false fun hcarries => hc (hiff.1 hcarries).2.1]
      rfl
  · rw [if_neg hlt, decide_eq_false fun hcarries => hlt (hiff.1 hcarries).1]
    rfl

/-- a value inside of the buffer, or none -/
def Found (buf : Bytes) (value : Option Bytes) (r : Option (ℕ × ℕ)) : Prop :=
  r.map (valueAt buf) = value ∧ ∀ v n, r = some (v, n) → v + n ≤ buf.length

theorem found_none (buf : Bytes) : Found buf none none := ⟨rfl, fun _ _ h => nomatch h⟩

theorem found_some {buf value : Bytes} {r : ℕ × ℕ} (hfits : r.1 + r.2 ≤ buf.length) (hvalue : valueAt buf r = value) :
    Found buf (some value) (some r) := by
  refine ⟨congrArg some hvalue, ?_⟩
  intro v n hr
  obtain rfl := Option.some.inj hr
  exact hfits

/-- the value in the line that carries the name -/
theorem carried_found {buf : Bytes} {pos lineLen : ℕ} {name : Bytes} (h : pos + lineLen ≤ buf.length)
    (hlt : name.length < lineLen) :
    ∃ r, trimValue buf (pos + name.length + 1) (lineLen - name.length - 1) = .ok r ∧
      Found buf (some (carriedValue name (valueAt buf (pos, lineLen)))) (some r) := by
  obtain ⟨r, htrim, hfits, hvalue⟩ := @trimValue_ok buf (pos + name.length + 1) (lineLen - name.length - 1) (by omega)
  refine ⟨r, htrim, found_some hfits ?_⟩
  have hraw : valueAt buf (pos + name.length + 1, lineLen - name.length - 1) =
      (valueAt buf (pos, lineLen)).drop (name.length + 1) := by
    unfold valueAt
    rw [List.drop_take, List.drop_drop]
    rfl
  rw [hvalue, hraw]
  rfl

/-- the line ends at its CRLF, or with the buffer -/
theorem lineEnd_ok {buf : Bytes} {pos : ℕ} (hpos : pos ≤ buf.length) :
    ∃ lineLen, lineEnd buf pos ((WsServer.findCRLF (buf.drop pos)).map (pos + ·)) = .ok lineLen ∧
      lineLen = (WsServer.findCRLF (buf.drop pos)).getD (buf.length - pos) ∧ pos + lineLen ≤ buf.length := by
  refine ⟨_, ?_, rfl, ?_⟩
  · cases WsServer.findCRLF (buf.drop pos) with
    | none => rfl
    | some i =>
      show minus (pos + i) pos = .ok i
      rw [minus_ok (Nat.le_add_right _ _), Nat.add_sub_cancel_left]
  · cases hnl : WsServer.findCRLF (buf.drop pos) with
    | none =>
      rw [Option.getD_none]
      omega
    | some i =>
      have hlt := findCRLF_lt hnl
      rw [List.length_drop] at hlt
      rw [Option.getD_some]
      omega

/-- one round looks at the first line of what is left -/
theorem headerRound_ok (name : CString) {buf : Bytes} {pos : ℕ} (hpos : pos < buf.length) :
    (∃ r, headerRound buf name.block name.bytes.length pos = .ok (.inr r) ∧
      Found buf (carriedIn name.bytes (linesOf (buf.drop pos))) r) ∨
    ∃ next, headerRound buf name.block name.bytes.length pos = .ok (.inl next) ∧ pos < next ∧ next ≤ buf.length ∧
      carriedIn name.bytes (linesOf (buf.drop next)) = carriedIn name.bytes (linesOf (buf.drop pos)) := by
  have hscan := findCRLF_indexed (show pos + (buf.length - pos) = buf.length by omega)
  have hspec := carriedIn_line name.bytes (buf.drop pos)
  obtain ⟨lineLen, hend, hlineLen, hfits⟩ := lineEnd_ok hpos.le
  have hnil : valueAt buf (pos, lineLen) = [] ↔ lineLen = 0 := by
    rw [← List.length_eq_zero_iff, length_valueAt hfits]
  rw [List.length_drop] at hspec
  rw [← hlineLen] at hspec
  change _ = if valueAt buf (pos, lineLen) = [] then _ else if Carries name.bytes (valueAt buf (pos, lineLen)) then _
    else _ at hspec
  simp only [hnil] at hspec
  unfold headerRound
  rw [if_pos hpos, hscan]
  dsimp only [bind, Except.bind]
  rw [hend]
  dsimp only
  by_cases h0 : lineLen = 0
  · left
    rw [if_pos h0] at hspec ⊢
    exact ⟨none, rfl, hspec ▸ found_none buf⟩
  rw [if_neg h0] at hspec ⊢
  rw [lineIs_ok hfits]
  dsimp only
  by_cases hc : Carries name.bytes (valueAt buf (pos, lineLen))
  · left
    have hlt := ((carries_iff _ _).1 hc).1
    rw [length_valueAt hfits] at hlt
    obtain ⟨r, htrim, hfound⟩ := carried_found hfits hlt
    rw [if_pos hc] at hspec
    rw [if_pos (decide_eq_true hc), htrim]
    exact ⟨some r, rfl, hspec ▸ hfound⟩
  · rw [if_neg hc] at hspec
    rw [if_neg (by simpa using hc)]
    cases hnl : WsServer.findCRLF (buf.drop pos) with
    | none =>
      left
      rw [hnl] at hspec
      exact ⟨none, rfl, hspec ▸ found_none buf⟩
    | some i =>
      right
      have hlt := findCRLF_lt hnl
      rw [List.length_drop] at hlt
      rw [hnl, Option.getD_some] at hlineLen
      rw [hnl] at hspec
      dsimp only at hspec
      rw [List.drop_drop] at hspec
      exact ⟨pos + (lineLen + 2), rfl, by omega, by omega, by rw [hspec, hlineLen]⟩

/-- **`httpFindHeader`** over indices -/
theorem httpFindHeader_ok (buf : Bytes) (name : CString) :
    ∃ r, httpFindHeader buf name = .ok r ∧ Found buf (carriedOf buf name.bytes) r := by
  have hscan := findCRLF_indexed (Nat.zero_add buf.length)
  have hlines := linesOf_findCRLF buf
  unfold httpFindHeader carriedOf
  rw [strlen_ok, hlines]
  dsimp only [bind, Except.bind]
  rw [hscan, List.drop_zero]
  cases hnl : WsServer.findCRLF buf with
  | none => exact ⟨none, rfl, found_none buf⟩
  | some nl =>
    have hlt := findCRLF_lt hnl
    have hround : ∀ pos, (pos ≤ buf.length ∧
        carriedIn name.bytes (linesOf (buf.drop pos)) = carriedIn name.bytes (linesOf (buf.drop (nl + 2)))) →
        (∃ next, headerRound buf name.block name.bytes.length pos = .ok (.inl next) ∧ (next ≤ buf.length ∧
          carriedIn name.bytes (linesOf (buf.drop next)) = carriedIn name.bytes (linesOf (buf.drop (nl + 2)))) ∧
            buf.length - next < buf.length - pos) ∨
          ∃ r, headerRound buf name.block name.bytes.length pos = .ok (.inr r) ∧
            Found buf (carriedIn name.bytes (linesOf (buf.drop (nl + 2)))) r := by
      intro pos hinv
      obtain ⟨hle, hrest⟩ := hinv
      by_cases hpos : pos < buf.length
      · obtain ⟨r, hleave, hfound⟩ | ⟨next, hgo, hgt, hnext, hsame⟩ := headerRound_ok name hpos
        · exact .inr ⟨r, hleave, hrest ▸ hfound⟩
        · exact .inl ⟨next, hgo, ⟨hnext, hsame.trans hrest⟩, by omega⟩
      · right
        rw [List.drop_eq_nil_of_le (by omega)] at hrest
        refine ⟨none, ?_, hrest ▸ found_none buf⟩
        unfold headerRound
        rw [if_neg hpos]
        rfl
    have hstart : 0 + nl + 2 ≤ buf.length := by omega
    simpa using loop_ok _ _ (fun pos => buf.length - pos) hround ⟨hlt, rfl⟩ (show buf.length - (nl + 2) < buf.length + 1 by omega)

/-! ## Comma lists -/

theorem elemIs_ok {val : Bytes} {start stop : ℕ} (hle : start ≤ stop) (h : stop ≤ val.length) {token : CString}
    (ht : token.bytes ≠ []) :
    elemIs val start stop token.block token.bytes.length =
      .ok (caseEq (valueAt val (start, stop - start)) token.bytes) := by
  have hlen : (valueAt val (start, stop - start)).length = stop - start := length_valueAt (by omega)
  have hpos : 0 < token.bytes.length := List.length_pos_of_ne_nil ht
  unfold elemIs
  by_cases hsame : stop - start = token.bytes.length
  · rw [if_pos ⟨by omega, hsame⟩, strncasecmp_ok (by omega), ← hsame]
    rfl
  · rw [if_neg (fun h => hsame h.2)]
    have hne : caseEq (valueAt val (start, stop - start)) token.bytes = false := by
      rw [Bool.eq_false_iff]
      intro hc
      exact hsame (hlen.symm.trans (caseEq_length hc))
    rw [hne]
    rfl

theorem take_of_drop {p : UInt8 → Bool} {s : Bytes} {k : ℕ} (h : s.drop k = s.dropWhile p) : s.take k = s.takeWhile p := by
  apply (List.append_left_inj (s.drop k)).1
  calc s.take k ++ s.drop k
      = s := List.take_append_drop k s
    _ = s.takeWhile p ++ s.dropWhile p := List.takeWhile_append_dropWhile.symm
    _ = s.takeWhile p ++ s.drop k := by rw [h]

/-- one round looks at the next element -/
theorem tokenRound_ok {token : CString} (ht : token.bytes ≠ []) {val : Bytes} {i : ℕ} (hi : i < val.length) :
    (tokenRound val token.block token.bytes.length i = .ok (.inr true) ∧ ListHas (val.drop i) token.bytes) ∨
      ∃ j, tokenRound val token.block token.bytes.length i = .ok (.inl j) ∧ i < j ∧ j ≤ val.length ∧
        (ListHas (val.drop j) token.bytes ↔ ListHas (val.drop i) token.bytes) := by
  obtain ⟨start, hskip, hstart, hstartle, hdrop⟩ := upWhile_ok (fun c => c = 0x20 ∨ c = 0x2C) hi.le
  obtain ⟨j, helem, hj, hjle, hdrop'⟩ := upWhile_ok (fun c => c ≠ 0x2C) hstartle
  obtain ⟨stop, htrim, hstop, hstople, hvalue⟩ := downWhile_ok hj (show 0 + j ≤ val.length by omega)
  have hnext := listHas_next ht hdrop.symm
  rw [← hdrop'] at hnext
  have helemval : (val.drop start).take (j - start) = (val.drop start).takeWhile (· ≠ 0x2C) := by
    apply take_of_drop
    rw [List.drop_drop, Nat.add_sub_cancel' hj]
    exact hdrop'
  rw [Nat.zero_add, helemval] at hvalue
  have hgt : i < j := by
    have hlt := length_rest_lt (show val.drop i ≠ [] by simpa using hi)
    rw [← hdrop, ← hdrop', List.length_drop, List.length_drop] at hlt
    omega
  have hcheck := elemIs_ok hstop (hstople.trans hjle) ht
  unfold tokenRound
  rw [if_pos hi, hskip]
  dsimp only [bind, Except.bind]
  rw [helem]
  dsimp only
  rw [htrim]
  dsimp only
  rw [hcheck]
  dsimp only
  change _ ↔ caseEq (trimEnd ((val.drop start).takeWhile (· ≠ 0x2C))) token.bytes = true ∨ _ at hnext
  rw [← hvalue] at hnext
  by_cases hc : caseEq (valueAt val (start, stop - start)) token.bytes = true
  · left
    rw [if_pos hc]
    exact ⟨rfl, hnext.2 (.inl hc)⟩
  · right
    rw [if_neg hc]
    exact ⟨j, rfl, hgt, hjle, (hnext.trans (or_iff_right hc)).symm⟩

/-- **`httpHeaderHasToken`** over indices -/
theorem httpHeaderHasToken_ok (val : Bytes) {token : CString} (ht : token.bytes ≠ []) :
    ∃ b, httpHeaderHasToken val token = .ok b ∧ (b = true ↔ ListHas val token.bytes) := by
  have hround : ∀ i, (i ≤ val.length ∧ (ListHas (val.drop i) token.bytes ↔ ListHas val token.bytes)) →
      (∃ j, tokenRound val token.block token.bytes.length i = .ok (.inl j) ∧
        (j ≤ val.length ∧ (ListHas (val.drop j) token.bytes ↔ ListHas val token.bytes)) ∧
          val.length - j < val.length - i) ∨
        ∃ b, tokenRound val token.block token.bytes.length i = .ok (.inr b) ∧
          (b = true ↔ ListHas val token.bytes) := by
    intro i hinv
    obtain ⟨hle, hrest⟩ := hinv
    by_cases hi : i < val.length
    · obtain ⟨hleave, hhas⟩ | ⟨j, hgo, hgt, hjle, hsame⟩ := tokenRound_ok ht hi
      · exact .inr ⟨true, hleave, iff_of_true rfl (hrest.1 hhas)⟩
      · exact .inl ⟨j, hgo, ⟨hjle, hsame.trans hrest⟩, by omega⟩
    · right
      rw [List.drop_eq_nil_of_le (by omega)] at hrest
      refine ⟨false, ?_, ?_⟩
      · unfold tokenRound
        rw [if_neg hi]
        rfl
      · rw [← hrest]
        exact iff_of_false Bool.false_ne_true (not_listHas_nil ht)
  unfold httpHeaderHasToken
  rw [strlen_ok]
  exact loop_ok _ _ (fun i => val.length - i) hround ⟨Nat.zero_le _, Iff.rfl⟩ (show val.length - 0 < val.length + 1 by omega)

/-- the scan over a list, which the handshake is modelled with, is the one over indices -/
theorem httpFindHeader_list (buf : Bytes) (name : CString) :
    ∃ r, httpFindHeader buf name = .ok r ∧ r.map (valueAt buf) = WsServer.httpFindHeader buf name.bytes := by
  obtain ⟨r, hrun, hvalue, _⟩ := httpFindHeader_ok buf name
  exact ⟨r, hrun, hvalue.trans (httpFindHeader_carried buf name.bytes).symm⟩

theorem httpHeaderHasToken_list (val : Bytes) {token : CString} (ht : token.bytes ≠ []) :
    httpHeaderHasToken val token = .ok (WsServer.httpHeaderHasToken val token.bytes) := by
  obtain ⟨b, hrun, hiff⟩ := httpHeaderHasToken_ok val ht
  rw [hrun, Bool.eq_iff_iff.2 (hiff.trans (httpHeaderHasToken_iff ht val).symm)]

/-- **The scans are splits.** For every buffer and name `httpFindHeader` returns, inside of the buffer, the value of the
first line behind the first CRLF and before the first empty line that carries the name (without a colon in the name:
whose text up to its colon is the name), or NULL if no line does; for every value and non-empty token
`httpHeaderHasToken` says whether an element between the commas is the token. Neither reads outside of its buffer, and
both end. -/
theorem scans_split :
    (∀ (buf : Bytes) (name : CString), ∃ r, httpFindHeader buf name = .ok r ∧
      r.map (valueAt buf) = carriedOf buf name.bytes ∧ (∀ v n, r = some (v, n) → v + n ≤ buf.length) ∧
        (0x3A ∉ name.bytes → carriedOf buf name.bytes = headerOf buf name.bytes)) ∧
      ∀ (val : Bytes) (token : CString), token.bytes ≠ [] →
        ∃ b, httpHeaderHasToken val token = .ok b ∧ (b = true ↔ ListHas val token.bytes) := by
  constructor
  · intro buf name
    obtain ⟨r, hrun, hvalue, hfits⟩ := httpFindHeader_ok buf name
    exact ⟨r, hrun, hvalue, hfits, fun hn => carriedOf_eq hn buf⟩
  · intro val token ht
    exact httpHeaderHasToken_ok val ht

def listRequest : Bytes := ascii "GET / HTTP/1.1\r\nHost: a\r\nConnection:  keep-alive , Upgrade \r\n\r\n"

theorem scans_split_request :
    (∃ r, httpFindHeader listRequest ⟨ascii "connection", by decide⟩ = .ok r ∧
      r.map (valueAt listRequest) = headerOf listRequest (ascii "connection") ∧
        headerOf listRequest (ascii "connection") = some (ascii "keep-alive , Upgrade")) ∧
      httpHeaderHasToken (ascii "keep-alive , Upgrade") ⟨ascii "upgrade", by decide⟩ = .ok true := by
  obtain ⟨r, hrun, hvalue, _, hname⟩ := scans_split.1 listRequest ⟨ascii "connection", by decide⟩
  obtain ⟨b, hrun', htoken⟩ := scans_split.2 (ascii "keep-alive , Upgrade") ⟨ascii "upgrade", by decide⟩ (by decide)
  refine ⟨⟨r, hrun, hvalue.trans (hname (by decide)), by decide +kernel⟩, ?_⟩
  rw [hrun', htoken.2 (by decide +kernel)]

end WsServer.Indexed
