/-
The growing buffer over memory: `bufCompact`, `bufReserve`, `bufConsume`, `bufAppend` and `bufReset` of `src/conn.c` on
the block that `realloc` returned.

In `Conn/Buf.lean` the filled bytes are a list and the order of `off`, `len` and `cap` is part of the type. Here the
block, the three numbers and the arithmetic are those of the C code: a copy outside of the block, a sum or product that
leaves 64 bits and a growth loop without an end are faults (`Core/Checked.lean`).

- `bufReserve_rep`, `bufConsume_rep`, `bufAppend_rep`: without a fault, every operation does what its model does.
- `buffer_is_queue`: over any calls on an empty buffer, the visible bytes are those of a byte queue.
-/
import Mathlib
import WsServer.Core.Checked
import WsServer.Core.Machine
import WsServer.Conn.Buf

namespace WsServer.Memory

open Checked Machine

/-! ## The operations -/

/-- what `realloc` finds: no memory, or a block with any bytes in it -/
abbrev Heap := Option (ℕ → UInt8)

/-- `realloc`: the old bytes, then what was in memory. No object has more than `PTRDIFF_MAX` bytes. -/
def realloc (mem : Heap) (p : Bytes) (n : ℕ) : Option Bytes :=
  if n < 2 ^ 63 then mem.map fun junk => p.take n ++ (List.range (n - p.length)).map junk else none

/-- `Buf_t`; `p` is the whole block, empty for NULL -/
structure Buf_t where
  p : Bytes
  cap : ℕ
  len : ℕ
  off : ℕ
deriving DecidableEq

def Buf_t.empty : Buf_t := ⟨[], 0, 0, 0⟩

/-- the `bufLen` bytes from `bufData` on -/
def Buf_t.visible (b : Buf_t) : Bytes := (b.p.drop b.off).take (b.len - b.off)

/-- the `memmove` of `bufCompact`, which is left out when nothing remains -/
def moveRemain (b : Buf_t) (remain : ℕ) : Except Fault Bytes :=
  if 0 < remain then move b.p 0 b.off remain else return b.p

def bufCompact (b : Buf_t) : Except Fault Buf_t :=
  if b.off = 0 then return b
  else do
    let remain ← minus b.len b.off
    let p ← moveRemain b remain
    return { b with p := p, len := remain, off := 0 }

/-- one round of `while (newCap < need) newCap *= 2` -/
def growRound (need newCap : ℕ) : Except Fault (ℕ ⊕ ℕ) :=
  if newCap < need then do
    let doubled ← word (newCap * 2)
    return .inl doubled
  else return .inr newCap

/-- the call of `realloc` and what `bufReserve` makes of its result -/
def moveTo (mem : Heap) (b : Buf_t) (newCap : ℕ) : ℤ × Buf_t :=
  match realloc mem b.p newCap with
  | none => (-1, b)
  | some np => (0, { b with p := np, cap := newCap })

/-- the part of `bufReserve` behind the compaction, when it did not make enough room -/
def bufGrow (mem : Heap) (b : Buf_t) (extra hardCap : ℕ) : Except Fault (ℤ × Buf_t) := do
  let need ← word (b.len + extra)
  let newCap ← loop (growRound need) 65 (startCap b.cap)
  if hardCap ≠ 0 ∧ hardCap < newCap then
    if hardCap < need then return (-1, b)
    else return moveTo mem b hardCap
  else return moveTo mem b newCap

def bufReserve (mem : Heap) (b : Buf_t) (extra hardCap : ℕ) : Except Fault (ℤ × Buf_t) := do
  let room ← minus b.cap b.len
  if extra ≤ room then return (0, b)
  else do
    let b ← bufCompact b
    let room ← minus b.cap b.len
    if extra ≤ room then return (0, b)
    else bufGrow mem b extra hardCap

def bufConsume (b : Buf_t) (n : ℕ) : Except Fault Buf_t := do
  let off ← word (b.off + n)
  if b.len ≤ off then return { b with off := 0, len := 0 }
  else return { b with off := off }

def bufAppend (mem : Heap) (b : Buf_t) (data : Bytes) : Except Fault Buf_t :=
  if data.length = 0 then return b
  else do
    let r ← bufReserve mem b data.length 0
    if r.1 ≠ 0 then return r.2
    else do
      let p ← store r.2.p r.2.len data
      let len ← word (r.2.len + data.length)
      return { r.2 with p := p, len := len }

def bufReset (b : Buf_t) : Buf_t := { b with len := 0, off := 0 }

/-! ## The buffer and its model -/

/-- the block holds what the model says, and has the size the C code believes it to have -/
structure Rep (r : Buf_t) (b : Buf) : Prop where
  block : r.p.length = r.cap
  small : r.cap < 2 ^ 63
  filled : r.p.take r.len = b.p
  len : r.len = b.p.length
  cap : r.cap = b.cap
  off : r.off = b.off

theorem rep_empty : Rep .empty .empty := ⟨rfl, by decide, rfl, rfl, rfl, rfl⟩

theorem Rep.order {r : Buf_t} {b : Buf} (h : Rep r b) : r.off ≤ r.len ∧ r.len ≤ r.cap := by
  have hoff := b.off_le
  have hlen := b.len_le
  rw [h.off, h.len, h.cap]
  exact ⟨hoff, hlen⟩

theorem Rep.visible {r : Buf_t} {b : Buf} (h : Rep r b) : r.visible = bufData b := by
  unfold Buf_t.visible bufData
  rw [← h.filled, ← h.off, List.drop_take]

/-- the bytes that are kept move to the start of the block -/
theorem Rep.moved {r : Buf_t} {b : Buf} (h : Rep r b) :
    ∃ p, moveRemain r (r.len - r.off) = .ok p ∧ p.length = r.cap ∧ p.take (r.len - r.off) = b.p.drop r.off := by
  obtain ⟨hoff, hlen⟩ := h.order
  have hkeep : (r.p.drop r.off).take (r.len - r.off) = b.p.drop r.off := by
    rw [← h.filled, List.drop_take]
  have hsize : (b.p.drop r.off).length = r.len - r.off := by
    rw [List.length_drop, h.len]
  by_cases hpos : 0 < r.len - r.off
  · have hfits : r.off + (r.len - r.off) ≤ r.p.length := by
      rw [h.block]
      omega
    refine ⟨_, (if_pos hpos).trans (move_start hfits), ?_, ?_⟩
    · rw [hkeep, List.length_append, hsize, List.length_drop, h.block]
      omega
    · rw [hkeep, ← hsize, List.take_left]
  · have hnone : r.len - r.off = 0 := by omega
    refine ⟨r.p, if_neg hpos, h.block, ?_⟩
    rw [hnone, List.take_zero, List.length_eq_zero_iff.1 (hsize.trans hnone)]

theorem bufCompact_rep {r : Buf_t} {b : Buf} (h : Rep r b) :
    ∃ r', bufCompact r = .ok r' ∧ Rep r' (WsServer.bufCompact b) := by
  obtain ⟨hoff, hlen⟩ := h.order
  unfold bufCompact WsServer.bufCompact
  by_cases h0 : r.off = 0
  · rw [if_pos h0, if_pos (h.off ▸ h0)]
    exact ⟨r, rfl, h⟩
  · obtain ⟨p, hmove, hblock, hfilled⟩ := h.moved
    have hsize : r.len - r.off = (b.p.drop b.off).length := by
      rw [List.length_drop, h.len, h.off]
    rw [if_neg h0, if_neg (h.off ▸ h0), minus_ok hoff]
    rw [h.off] at hfilled
    refine ⟨⟨p, r.cap, r.len - r.off, 0⟩, ?_, hblock, h.small, h.off.symm ▸ hfilled, hsize, h.cap, rfl⟩
    show (moveRemain r (r.len - r.off) >>= fun p => _) = _
    rw [hmove]
    rfl

/-! ## The growth loop -/

/-- more fuel than needed changes nothing -/
theorem growCap_fuel (need : ℕ) {newCap fuel fuel' : ℕ} (hpos : 0 < newCap) (h : need ≤ newCap + fuel)
    (h' : need ≤ newCap + fuel') : growCap fuel newCap need = growCap fuel' newCap need := by
  induction fuel generalizing newCap fuel' with
  | zero =>
    cases fuel' with
    | zero => rfl
    | succ fuel' => rw [growCap, growCap, if_neg (by omega)]
  | succ fuel ih =>
    cases fuel' with
    | zero => rw [growCap, growCap, if_neg (by omega)]
    | succ fuel' =>
      rw [growCap, growCap]
      by_cases hlt : newCap < need
      · rw [if_pos hlt, if_pos hlt]
        exact ih (by omega) (by omega) (by omega)
      · rw [if_neg hlt, if_neg hlt]

/-- one doubling of the loop -/
theorem growCap_double {need newCap : ℕ} (hpos : 0 < newCap) (hlt : newCap < need) :
    growCap need (newCap * 2) need = growCap need newCap need := by
  obtain ⟨k, rfl⟩ : ∃ k, need = k + 1 := ⟨need - 1, by omega⟩
  calc growCap (k + 1) (newCap * 2) (k + 1)
      = growCap k (newCap * 2) (k + 1) := growCap_fuel _ (by omega) (by omega) (by omega)
    _ = growCap (k + 1) newCap (k + 1) := by rw [growCap, if_pos hlt]

/-- a capacity that was doubled is less than twice what is needed -/
theorem growCap_le (fuel newCap need : ℕ) : growCap fuel newCap need ≤ max newCap (2 * need) := by
  induction fuel generalizing newCap with
  | zero => exact le_max_left _ _
  | succ fuel ih =>
    rw [growCap]
    by_cases hlt : newCap < need
    · rw [if_pos hlt]
      have hle := ih (newCap * 2)
      omega
    · rw [if_neg hlt]
      exact le_max_left _ _

/-- **The growth loop ends**: in at most 64 rounds, none of which leaves the range of `size_t`. -/
theorem growLoop_eq {cap need : ℕ} (hcap : cap < 2 ^ 63) (hneed : need ≤ cap + 2 ^ 62) :
    loop (growRound need) 65 (startCap cap) = .ok (growCap need (startCap cap) need) := by
  -- a capacity that is too small is below 2^63: from 2^62 on, one doubling is enough
  have hstart : 0 < startCap cap ∧ cap ≤ startCap cap ∧ startCap cap < 2 ^ 63 := by
    unfold startCap
    split_ifs <;> omega
  refine loop_eq (fun s => 0 < s ∧ cap ≤ s ∧ s < 2 ^ 64 ∧ (s < need → s < 2 ^ 63))
    (fun s => growCap need s need) (fun s => 64 - Nat.log 2 s) ?_ ⟨hstart.1, hstart.2.1, by omega, by omega⟩ (by omega)
  intro s hs
  obtain ⟨hpos, hle, hword, hsmall⟩ := hs
  by_cases hlt : s < need
  · have hhalf := hsmall hlt
    left
    refine ⟨s * 2, ?_, ⟨by omega, by omega, by omega, by omega⟩, ?_, growCap_double hpos hlt⟩
    · unfold growRound
      rw [if_pos hlt, word_ok (by omega)]
      rfl
    · have hlog : Nat.log 2 s < 64 := Nat.log_lt_of_lt_pow (by omega) hword
      rw [Nat.log_mul_base (by omega) (by omega)]
      omega
  · right
    have hstop : growCap need s need = s := by
      cases need with
      | zero => rfl
      | succ k => rw [growCap, if_neg hlt]
    unfold growRound
    rw [if_neg hlt, hstop]
    rfl

/-! ## The operations do what their models do -/

/-- `realloc` has no block for `need` bytes: it fails at a size between that and twice as much -/
def Refused (mem : Heap) (need : ℕ) : Prop :=
  ∃ n, need ≤ n ∧ n ≤ max 256 (2 * need) ∧ ∀ p, realloc mem p n = none

theorem realloc_cases (mem : Heap) (p : Bytes) {n : ℕ} (hn : p.length ≤ n) :
    (∃ np, realloc mem p n = some np ∧ np.length = n ∧ p <+: np ∧ n < 2 ^ 63) ∨ ∀ q, realloc mem q n = none := by
  unfold realloc
  by_cases hmax : n < 2 ^ 63
  · simp only [if_pos hmax]
    cases mem with
    | none => exact .inr fun _ => rfl
    | some junk =>
      left
      refine ⟨_, rfl, ?_, ?_, hmax⟩
      · rw [List.length_append, List.length_take, List.length_map, List.length_range]
        omega
      · rw [List.take_of_length_le hn]
        exact List.prefix_append _ _
  · right
    intro q
    rw [if_neg hmax]

/-- the buffer moves to a larger block, or stays -/
theorem moveTo_rep (mem : Heap) {r : Buf_t} {b : Buf} (h : Rep r b) {newCap : ℕ} (hle : b.cap ≤ newCap) :
    (∃ r', moveTo mem r newCap = (0, r') ∧ Rep r' { b with cap := newCap, len_le := b.len_le.trans hle }) ∨
      moveTo mem r newCap = (-1, r) ∧ ∀ p, realloc mem p newCap = none := by
  have hblock := h.block
  have hcap := h.cap
  obtain ⟨_, hlen⟩ := h.order
  unfold moveTo
  obtain ⟨np, hnew, hsize, ⟨rest, rfl⟩, hmax⟩ | hnone := realloc_cases mem r.p (show r.p.length ≤ newCap by omega)
  · left
    rw [hnew]
    refine ⟨_, rfl, ?_⟩
    have hfilled : (r.p ++ rest).take r.len = b.p := by
      rw [List.take_append_of_le_length (by omega), h.filled]
    exact ⟨hsize, hmax, hfilled, h.len, rfl, h.off⟩
  · right
    rw [hnone]
    exact ⟨rfl, hnone⟩

/-- the return codes of `bufReserve` -/
def code (ok : Bool) : ℤ := if ok then 0 else -1

/-- `bufGrow` of the model -/
def growModel (granted : Bool) (b : Buf) (extra hardCap : ℕ) : Bool × Buf :=
  let need := b.p.length + extra
  let newCap := growCap need (startCap b.cap) need
  if hardCap ≠ 0 ∧ hardCap < newCap then
    if h : hardCap < need then (false, b)
    else if granted then (true, { b with cap := hardCap, len_le := by omega }) else (false, b)
  else if granted then
    (true, { b with cap := newCap, len_le := b.len_le.trans ((le_startCap _).trans (le_growCap _ _ _)) })
  else (false, b)

theorem bufReserve_eq (granted : Bool) (b : Buf) (extra hardCap : ℕ) :
    WsServer.bufReserve granted b extra hardCap =
      if extra ≤ b.cap - b.p.length then (true, b)
      else if extra ≤ (WsServer.bufCompact b).cap - (WsServer.bufCompact b).p.length then (true, WsServer.bufCompact b)
      else growModel granted (WsServer.bufCompact b) extra hardCap := rfl

theorem bufGrow_rep (mem : Heap) {r : Buf_t} {b : Buf} (h : Rep r b) {extra : ℕ} (hextra : extra < 2 ^ 62)
    (hroom : ¬ extra ≤ b.cap - b.p.length) (hardCap : ℕ) : ∃ granted r',
      bufGrow mem r extra hardCap = .ok (code (growModel granted b extra hardCap).1, r') ∧
        Rep r' (growModel granted b extra hardCap).2 ∧ (granted = false → Refused mem (b.p.length + extra)) := by
  have hlen := b.len_le
  have hsmall := h.small
  rw [h.cap] at hsmall
  have hword : word (r.len + extra) = .ok (b.p.length + extra) := by
    rw [h.len]
    exact word_ok (by omega)
  have hloop := growLoop_eq hsmall (show b.p.length + extra ≤ b.cap + 2 ^ 62 by omega)
  have hge := need_le_growCap (b.p.length + extra) _ (b.p.length + extra) (startCap_pos b.cap) (by omega)
  have hbase := (le_startCap b.cap).trans (le_growCap (b.p.length + extra) _ (b.p.length + extra))
  have hle := growCap_le (b.p.length + extra) (startCap b.cap) (b.p.length + extra)
  have hbound : startCap b.cap ≤ max 256 (2 * (b.p.length + extra)) := by
    unfold startCap
    split_ifs <;> omega
  unfold bufGrow growModel
  rw [hword, h.cap]
  dsimp only [bind, Except.bind]
  rw [hloop]
  dsimp only
  by_cases hover : hardCap ≠ 0 ∧ hardCap < growCap (b.p.length + extra) (startCap b.cap) (b.p.length + extra)
  · simp only [if_pos hover]
    by_cases hfull : hardCap < b.p.length + extra
    · simp only [if_pos hfull, dif_pos hfull]
      exact ⟨true, r, rfl, h, fun hf => Bool.noConfusion hf⟩
    · simp only [if_neg hfull, dif_neg hfull]
      obtain ⟨r', hmove, hrep⟩ | ⟨hmove, hnone⟩ := moveTo_rep mem h (show b.cap ≤ hardCap by omega)
      · exact ⟨true, r', by rw [hmove]; rfl, hrep, fun hf => Bool.noConfusion hf⟩
      · exact ⟨false, r, by rw [hmove]; rfl, h, fun _ => ⟨hardCap, by omega, by omega, hnone⟩⟩
  · simp only [if_neg hover]
    obtain ⟨r', hmove, hrep⟩ | ⟨hmove, hnone⟩ := moveTo_rep mem h hbase
    · exact ⟨true, r', by rw [hmove]; rfl, hrep, fun hf => Bool.noConfusion hf⟩
    · exact ⟨false, r, by rw [hmove]; rfl, h, fun _ => ⟨_, hge, by omega, hnone⟩⟩

/-- **`bufReserve`** on memory: it returns, and does what its model does with the answer of `realloc` -/
theorem bufReserve_rep (mem : Heap) {r : Buf_t} {b : Buf} (h : Rep r b) {extra : ℕ} (hextra : extra < 2 ^ 62)
    (hardCap : ℕ) : ∃ granted r',
      bufReserve mem r extra hardCap = .ok (code (WsServer.bufReserve granted b extra hardCap).1, r') ∧
        Rep r' (WsServer.bufReserve granted b extra hardCap).2 ∧
          (granted = false → Refused mem (bufLen b + extra)) := by
  obtain ⟨c, hcompact, hc⟩ := bufCompact_rep h
  simp only [bufReserve_eq]
  unfold bufReserve
  rw [minus_ok h.order.2, h.cap, h.len]
  dsimp only [bind, Except.bind]
  by_cases hroom : extra ≤ b.cap - b.p.length
  · simp only [if_pos hroom]
    exact ⟨true, r, rfl, h, fun hf => Bool.noConfusion hf⟩
  · simp only [if_neg hroom, hcompact]
    rw [minus_ok hc.order.2, hc.cap, hc.len]
    dsimp only
    by_cases hroom' : extra ≤ (WsServer.bufCompact b).cap - (WsServer.bufCompact b).p.length
    · simp only [if_pos hroom']
      exact ⟨true, c, rfl, hc, fun hf => Bool.noConfusion hf⟩
    · simp only [if_neg hroom']
      rw [← bufCompact_len b]
      exact bufGrow_rep mem hc hextra hroom' hardCap

theorem bufConsume_rep {r : Buf_t} {b : Buf} (h : Rep r b) {n : ℕ} (hn : n ≤ bufLen b) :
    ∃ r', bufConsume r n = .ok r' ∧ Rep r' (WsServer.bufConsume b n) := by
  obtain ⟨hoff, hlen⟩ := h.order
  have hsmall := h.small
  have hvisible : bufLen b = r.len - r.off := by
    unfold bufLen
    rw [h.len, h.off]
  unfold bufConsume WsServer.bufConsume
  rw [word_ok (by omega)]
  dsimp only [bind, Except.bind]
  rw [h.off, h.len]
  by_cases hall : b.p.length ≤ b.off + n
  · rw [if_pos hall, dif_pos hall]
    exact ⟨_, rfl, h.block, h.small, rfl, rfl, h.cap, rfl⟩
  · rw [if_neg hall, dif_neg hall]
    exact ⟨_, rfl, h.block, h.small, h.len ▸ h.filled, rfl, h.cap, rfl⟩

theorem bufReset_rep {r : Buf_t} {b : Buf} (h : Rep r b) : Rep (bufReset r) (WsServer.bufReset b) :=
  ⟨h.block, h.small, rfl, rfl, h.cap, rfl⟩

/-- bytes behind the filled part, where there is room for them -/
theorem store_rep {r : Buf_t} {b : Buf} (h : Rep r b) {data : Bytes} (hroom : b.p.length + data.length ≤ b.cap) :
    ∃ p, store r.p r.len data = .ok p ∧ Rep ⟨p, r.cap, r.len + data.length, r.off⟩ (b.put data) := by
  have hblock := h.block
  have hfits : r.len + data.length ≤ r.p.length := by
    rw [h.len, hblock, h.cap]
    exact hroom
  have hdata : data.take (b.cap - b.p.length) = data := List.take_of_length_le (by omega)
  have hfilled : (r.p.take r.len).length = r.len := List.length_take_of_le (by omega)
  refine ⟨_, store_ok hfits, ?_, h.small, ?_, ?_, h.cap, h.off⟩
  · show (r.p.take r.len ++ data ++ r.p.drop (r.len + data.length)).length = r.cap
    rw [List.length_append, List.length_append, hfilled, List.length_drop]
    omega
  · show (r.p.take r.len ++ data ++ _).take (r.len + data.length) = b.p ++ data.take (b.cap - b.p.length)
    rw [List.take_left' (by rw [List.length_append, hfilled]), h.filled, hdata]
  · show r.len + data.length = (b.p ++ data.take (b.cap - b.p.length)).length
    rw [List.length_append, hdata, h.len]

/-- **`bufAppend`** on memory: it does what its model does with the answer that its `bufReserve` gets -/
theorem bufAppend_rep (mem : Heap) {r : Buf_t} {b : Buf} (h : Rep r b) {data : Bytes} (hdata : data.length < 2 ^ 62) :
    ∃ granted c r', bufReserve mem r data.length 0 = .ok (code (WsServer.bufReserve granted b data.length 0).1, c) ∧
      bufAppend mem r data = .ok r' ∧ Rep r' (WsServer.bufAppend granted b data) ∧
        (granted = false → Refused mem (bufLen b + data.length)) := by
  obtain ⟨granted, c, hreserve, hc, hrefused⟩ := bufReserve_rep mem h hdata 0
  refine ⟨granted, c, ?_⟩
  unfold bufAppend WsServer.bufAppend
  by_cases hnil : data = []
  · rw [if_pos (List.length_eq_zero_iff.2 hnil), if_pos hnil]
    exact ⟨r, hreserve, rfl, h, hrefused⟩
  rw [if_neg (fun h0 => hnil (List.length_eq_zero_iff.1 h0)), if_neg hnil, hreserve]
  dsimp only [bind, Except.bind]
  cases hok : (WsServer.bufReserve granted b data.length 0).1 with
  | false =>
    rw [if_neg Bool.false_ne_true]
    exact ⟨c, rfl, rfl, hc, hrefused⟩
  | true =>
    have hsmall := hc.small
    obtain ⟨_, hle⟩ := hc.order
    obtain ⟨p, hstore, hp⟩ := store_rep hc (bufReserve_room hok)
    have hblock := hp.block
    refine ⟨⟨p, c.cap, c.len + data.length, c.off⟩, rfl, ?_, hp, hrefused⟩
    rw [if_neg (fun h0 => h0 rfl), hstore]
    dsimp only
    rw [word_ok (by omega)]
    rfl

/-! ## A byte queue -/

/-- a call on the buffer, with what `realloc` finds in it -/
inductive Call where
  | append (mem : Heap) (data : Bytes)
  | consume (n : ℕ)
  | reserve (mem : Heap) (extra hardCap : ℕ)
  | reset

/-- the sizes are below 2^62, and no more is consumed than there is -/
def Call.Allowed (b : Buf_t) : Call → Prop
  | .append _ data => data.length < 2 ^ 62
  | .consume n => n ≤ b.len - b.off
  | .reserve _ extra _ => extra < 2 ^ 62
  | .reset => True

/-- the call; its code is that of `bufReserve`, also of the one in `bufAppend`, else 0 -/
def perform (b : Buf_t) : Call → Except Fault (ℤ × Buf_t)
  | .append mem data => do
    let r ← bufReserve mem b data.length 0
    let b' ← bufAppend mem b data
    return (r.1, b')
  | .consume n => do
    let b' ← bufConsume b n
    return (0, b')
  | .reserve mem extra hardCap => bufReserve mem b extra hardCap
  | .reset => return (0, bufReset b)

/-- what the calls mean for a queue of bytes -/
def Call.onQueue (rc : ℤ) (q : Bytes) : Call → Bytes
  | .append _ data => if rc = 0 then q ++ data else q
  | .consume n => q.drop n
  | .reserve .. => q
  | .reset => []

/-- what a call leaves behind, for its caller -/
def Call.Contract (b : Buf_t) (rc : ℤ) (b' : Buf_t) : Call → Prop
  | .append mem data =>
    rc = 0 ∧ b'.visible = b.visible ++ data ∨
      rc = -1 ∧ b'.visible = b.visible ∧ Refused mem (b.visible.length + data.length)
  | .consume n => b'.visible = b.visible.drop n
  | .reserve mem extra hardCap =>
    b'.visible = b.visible ∧ b.cap ≤ b'.cap ∧ (b.cap < b'.cap → hardCap ≠ 0 → b'.cap ≤ hardCap) ∧
      (rc = 0 ∧ extra ≤ b'.cap - b'.len ∨
        rc = -1 ∧ (hardCap ≠ 0 ∧ hardCap < b.visible.length + extra ∨ Refused mem (b.visible.length + extra)))
  | .reset => b'.visible = []

/-- with memory available, `realloc` fails only for blocks that no object has -/
theorem refused_iff (mem : Heap) (need : ℕ) : Refused mem need ↔ mem = none ∨ 2 ^ 62 ≤ need := by
  constructor
  · intro h
    obtain ⟨n, _, hle, hnone⟩ := h
    have hreason := hnone []
    unfold realloc at hreason
    split_ifs at hreason with hn
    · exact .inl (Option.map_eq_none_iff.1 hreason)
    · right
      omega
  · intro h
    cases h with
    | inl hmem =>
      refine ⟨need, le_rfl, by omega, ?_⟩
      intro p
      unfold realloc
      rw [hmem]
      split_ifs <;> rfl
    | inr hlarge =>
      refine ⟨2 * need, by omega, le_max_right _ _, ?_⟩
      intro p
      unfold realloc
      rw [if_neg (by omega)]

theorem Rep.bufLen {r : Buf_t} {b : Buf} (h : Rep r b) : r.len - r.off = bufLen b := by
  rw [h.len, h.off]
  rfl

theorem Rep.length_visible {r : Buf_t} {b : Buf} (h : Rep r b) : r.visible.length = r.len - r.off := by
  rw [h.visible, h.bufLen, length_bufData]

/-- `bufReserve` of the model fails for the hard limit, or for want of memory -/
theorem fails_cases {granted : Bool} {b : Buf} {extra hardCap : ℕ}
    (h : (WsServer.bufReserve granted b extra hardCap).1 = false) :
    granted = false ∨ hardCap ≠ 0 ∧ hardCap < bufLen b + extra := by
  cases granted with
  | false => exact .inl rfl
  | true =>
    right
    by_cases hcap : hardCap = 0
    · rw [hcap, bufReserve_noLimit] at h
      cases h
    · exact ⟨hcap, ((bufReserve_fails_iff b extra hardCap hcap).1 h).2.2⟩

/-! ## Every call -/

/-- what a call must do: return, keep the representation, and leave its caller and the queue what they expect -/
def Right (r : Buf_t) (c : Call) : Prop :=
  ∃ rc r' b', perform r c = .ok (rc, r') ∧ Rep r' b' ∧ c.Contract r rc r' ∧ r'.visible = c.onQueue rc r.visible

theorem append_right {r : Buf_t} {b : Buf} (h : Rep r b) (mem : Heap) {data : Bytes} (hdata : data.length < 2 ^ 62) :
    Right r (.append mem data) := by
  obtain ⟨granted, c, r', hreserve, happend, hrep, hrefused⟩ := bufAppend_rep mem h hdata
  have hvisible := hrep.visible.trans (bufAppend_visible granted b data)
  rw [← h.visible] at hvisible
  have hperform : perform r (.append mem data) =
      .ok (code (WsServer.bufReserve granted b data.length 0).1, r') := by
    simp only [perform, hreserve, happend, bind, Except.bind]
    rfl
  cases hok : (WsServer.bufReserve granted b data.length 0).1 with
  | true =>
    rw [hok, if_pos rfl] at hvisible
    rw [hok] at hperform
    exact ⟨0, r', _, hperform, hrep, .inl ⟨rfl, hvisible⟩, hvisible⟩
  | false =>
    rw [hok, if_neg Bool.false_ne_true] at hvisible
    rw [hok] at hperform
    have hdenied : granted = false := by
      obtain hg | ⟨hne, _⟩ := fails_cases hok
      · exact hg
      · exact absurd rfl hne
    have hwhy : Refused mem (r.visible.length + data.length) := by
      rw [h.length_visible, h.bufLen]
      exact hrefused hdenied
    exact ⟨-1, r', _, hperform, hrep, .inr ⟨rfl, hvisible, hwhy⟩, hvisible⟩

theorem consume_right {r : Buf_t} {b : Buf} (h : Rep r b) {n : ℕ} (hn : n ≤ r.len - r.off) : Right r (.consume n) := by
  obtain ⟨r', hconsume, hrep⟩ := bufConsume_rep h (h.bufLen ▸ hn)
  have hvisible : r'.visible = r.visible.drop n := by
    rw [hrep.visible, bufConsume_data, h.visible]
  refine ⟨0, r', _, ?_, hrep, hvisible, hvisible⟩
  simp only [perform, hconsume, bind, Except.bind]
  rfl

theorem reserve_right {r : Buf_t} {b : Buf} (h : Rep r b) (mem : Heap) {extra : ℕ} (hextra : extra < 2 ^ 62)
    (hardCap : ℕ) : Right r (.reserve mem extra hardCap) := by
  obtain ⟨granted, r', hreserve, hrep, hrefused⟩ := bufReserve_rep mem h hextra hardCap
  have hvisible : r'.visible = r.visible := by
    rw [hrep.visible, bufReserve_data, h.visible]
  have hgrows : r.cap ≤ r'.cap := by
    rw [hrep.cap, h.cap]
    exact le_bufReserve_cap granted b extra hardCap
  have hlimit : r.cap < r'.cap → hardCap ≠ 0 → r'.cap ≤ hardCap := by
    intro hlt hcap
    rw [hrep.cap, h.cap] at hlt
    have hle := @bufReserve_cap_le granted b extra hardCap hcap
    rw [hrep.cap]
    omega
  refine ⟨_, r', _, hreserve, hrep, ⟨hvisible, hgrows, hlimit, ?_⟩, hvisible⟩
  rw [h.length_visible, h.bufLen]
  cases hok : (WsServer.bufReserve granted b extra hardCap).1 with
  | true =>
    left
    have hroom := bufReserve_room hok
    rw [← hrep.len, ← hrep.cap] at hroom
    exact ⟨rfl, by omega⟩
  | false =>
    right
    refine ⟨rfl, ?_⟩
    obtain hg | hfull := fails_cases hok
    · exact .inr (hrefused hg)
    · exact .inl hfull

theorem reset_right {r : Buf_t} {b : Buf} (h : Rep r b) : Right r .reset := by
  have hrep := bufReset_rep h
  have hvisible : (bufReset r).visible = [] := by
    rw [hrep.visible, bufReset_data]
  exact ⟨0, bufReset r, _, rfl, hrep, hvisible, hvisible⟩

theorem perform_right {r : Buf_t} {b : Buf} (h : Rep r b) (c : Call) (hc : c.Allowed r) : Right r c := by
  cases c with
  | append mem data => exact append_right h mem hc
  | consume n => exact consume_right h hc
  | reserve mem extra hardCap => exact reserve_right h mem hc hardCap
  | reset => exact reset_right h

/-! ## Runs -/

/-- a buffer, and the queue on which the same calls were made -/
structure Queued where
  buf : Buf_t
  queue : Bytes
deriving DecidableEq

/-- a fault is no step -/
def step (s : Queued) (c : Call) : Option Queued :=
  match perform s.buf c with
  | .ok (rc, b) => some ⟨b, c.onQueue rc s.queue⟩
  | .error _ => none

/-- the calls so far were within the bounds -/
abbrev Reached : Queued → Prop := Reach step (fun s c => c.Allowed s.buf) ⟨.empty, []⟩

theorem reached_rep {s : Queued} (h : Reached s) : (∃ b, Rep s.buf b) ∧ s.buf.visible = s.queue := by
  refine h.invariant (P := fun s => (∃ b, Rep s.buf b) ∧ s.buf.visible = s.queue) ⟨⟨_, rep_empty⟩, rfl⟩ ?_
  intro s c t hs hc hstep
  obtain ⟨⟨b, hrep⟩, hqueue⟩ := hs
  obtain ⟨rc, r', b', hperform, hrep', _, hvisible⟩ := perform_right hrep c hc
  unfold step at hstep
  rw [hperform, Option.some.injEq] at hstep
  subst hstep
  exact ⟨⟨b', hrep'⟩, hqueue ▸ hvisible⟩

/-- **The buffer is a byte queue.** After any calls within the bounds, with any answers of `realloc`: the offsets are in
order, the visible bytes are the queue's, and every further call returns without a fault and as its contract says. -/
theorem buffer_is_queue {s : Queued} (h : Reached s) :
    (s.buf.off ≤ s.buf.len ∧ s.buf.len ≤ s.buf.cap ∧ s.buf.visible.length = s.buf.len - s.buf.off ∧
      s.buf.visible = s.queue) ∧
      ∀ c : Call, c.Allowed s.buf → ∃ rc b, perform s.buf c = .ok (rc, b) ∧ c.Contract s.buf rc b := by
  obtain ⟨⟨b, hrep⟩, hqueue⟩ := reached_rep h
  refine ⟨⟨hrep.order.1, hrep.order.2, hrep.length_visible, hqueue⟩, ?_⟩
  intro c hc
  obtain ⟨rc, r', _, hperform, _, hcontract, _⟩ := perform_right hrep c hc
  exact ⟨rc, r', hperform, hcontract⟩

instance (b : Buf_t) (c : Call) : Decidable (c.Allowed b) := by
  cases c <;> unfold Call.Allowed <;> infer_instance

/-- five bytes are reserved under a hard limit, filled and moved; the last call finds no memory -/
def shortRun : List Call :=
  [.reserve (some fun _ => 0xAA) 4 5, .append none [1, 2, 3, 4], .consume 3, .append none [5, 6, 7],
    .append none [8, 9]]

theorem buffer_is_queue_short :
    ∃ s, exec step ⟨.empty, []⟩ shortRun = some s ∧ s.buf = ⟨[4, 5, 6, 7, 0xAA], 5, 4, 0⟩ ∧
      s.buf.visible = s.queue := by
  have hrun : exec (guarded step fun s c => c.Allowed s.buf) ⟨.empty, []⟩ shortRun =
      some ⟨⟨[4, 5, 6, 7, 0xAA], 5, 4, 0⟩, [4, 5, 6, 7]⟩ := by decide +kernel
  exact ⟨_, (exec_of_guarded hrun).1, rfl, (buffer_is_queue (.of_guarded .start hrun)).1.2.2.2⟩

end WsServer.Memory
