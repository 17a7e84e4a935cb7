/-
`Buf_t` of `src/conn.c` and the two socket calls made on it, `bufRecv` and `bufSend`.

`p` is the filled part of the allocation (its length is the C field `len`), `off` how much of it was consumed. The
order `off ≤ len ≤ cap` is part of the type, so no operation can break it. What a caller sees is `bufData`; every
operation has one lemma that says what it does to it, and the callers' proofs use these lemmas only.

`realloc` is a parameter of `bufReserve` and `bufAppend` (the call succeeds or fails). The callers in the worker and
the aggregator are modelled with memory available.

A socket to read from is what the kernel holds for it: the unread bytes, and what a `recv` reports once they are read.
`sizes` are the byte counts the successive `recv` calls return at most (an empty list: as much as fits). The results of
the successive `send` calls are a list too; when it is used up the call would block.
-/
import Mathlib
import WsServer.Proto.Ws

namespace WsServer

open Ws

/-! ## The buffer -/

structure Buf where
  /-- the filled bytes `p[0..len)` -/
  p : Bytes
  cap : ℕ
  off : ℕ
  off_le : off ≤ p.length
  len_le : p.length ≤ cap
deriving DecidableEq

def Buf.empty : Buf := ⟨[], 0, 0, le_rfl, le_rfl⟩

def bufData (b : Buf) : Bytes := b.p.drop b.off

def bufLen (b : Buf) : ℕ := b.p.length - b.off

/-- write behind the filled part as much of `xs` as there is room for -/
def Buf.put (b : Buf) (xs : Bytes) : Buf :=
  ⟨b.p ++ xs.take (b.cap - b.p.length), b.cap, b.off, by have := b.off_le; simp; omega,
    by have := b.len_le; simp; omega⟩

def bufCompact (b : Buf) : Buf :=
  if b.off = 0 then b
  else ⟨b.p.drop b.off, b.cap, 0, Nat.zero_le _, by have := b.len_le; simp; omega⟩

/-- `while (newCap < need) newCap *= 2`, with `need` steps of fuel -/
def growCap : ℕ → ℕ → ℕ → ℕ
  | 0, newCap, _ => newCap
  | fuel + 1, newCap, need => if newCap < need then growCap fuel (newCap * 2) need else newCap

theorem le_growCap (fuel newCap need : ℕ) : newCap ≤ growCap fuel newCap need := by
  induction fuel generalizing newCap with
  | zero => exact le_rfl
  | succ fuel ih =>
    unfold growCap
    split_ifs
    · exact le_trans (by omega) (ih (newCap * 2))
    · exact le_rfl

/-- the loop ends: `need` doublings of a positive capacity are enough -/
theorem need_le_growCap (fuel newCap need : ℕ) (hpos : 0 < newCap) (hfuel : need ≤ newCap + fuel) :
    need ≤ growCap fuel newCap need := by
  induction fuel generalizing newCap with
  | zero => simpa [growCap] using hfuel
  | succ fuel ih =>
    unfold growCap
    split_ifs with h
    · exact ih (newCap * 2) (by omega) (by omega)
    · omega

/-- the growth `bufReserve` starts from -/
def startCap (cap : ℕ) : ℕ := if cap ≠ 0 then cap else 256

theorem startCap_pos (cap : ℕ) : 0 < startCap cap := by unfold startCap; split_ifs <;> omega

theorem le_startCap (cap : ℕ) : cap ≤ startCap cap := by unfold startCap; split_ifs <;> omega

/-- `bufReserve`; `true` is the return of 0. A failed call still compacts. -/
def bufReserve (realloc : Bool) (b : Buf) (extra hardCap : ℕ) : Bool × Buf :=
  if extra ≤ b.cap - b.p.length then (true, b)
  else
    let b := bufCompact b
    if extra ≤ b.cap - b.p.length then (true, b)
    else
      let need := b.p.length + extra
      let newCap := growCap need (startCap b.cap) need
      if hardCap ≠ 0 ∧ hardCap < newCap then
        if h : hardCap < need then (false, b)
        else if realloc then (true, { b with cap := hardCap, len_le := by omega }) else (false, b)
      else if realloc then
        (true, { b with cap := newCap, len_le := b.len_le.trans ((le_startCap _).trans (le_growCap _ _ _)) })
      else (false, b)

def bufConsume (b : Buf) (n : ℕ) : Buf :=
  if h : b.p.length ≤ b.off + n then ⟨[], b.cap, 0, le_rfl, Nat.zero_le _⟩
  else { b with off := b.off + n, off_le := by omega }

def bufReset (b : Buf) : Buf := ⟨[], b.cap, 0, le_rfl, Nat.zero_le _⟩

theorem bufCompact_data (b : Buf) : bufData (bufCompact b) = bufData b := by
  unfold bufCompact bufData; split_ifs with h <;> simp [h]

theorem bufCompact_cap (b : Buf) : (bufCompact b).cap = b.cap := by
  unfold bufCompact; split_ifs <;> rfl

theorem length_bufData (b : Buf) : (bufData b).length = bufLen b := by simp [bufData, bufLen]

theorem bufCompact_len (b : Buf) : (bufCompact b).p.length = bufLen b := by
  unfold bufCompact bufLen; split_ifs with h <;> simp [h]

/-- what `bufReserve` guarantees when it returns 0 -/
theorem bufReserve_room {realloc : Bool} {b : Buf} {extra hardCap : ℕ} (h : (bufReserve realloc b extra hardCap).1 = true) :
    (bufReserve realloc b extra hardCap).2.p.length + extra ≤ (bufReserve realloc b extra hardCap).2.cap := by
  have h0 := b.len_le
  have h1 := (bufCompact b).len_le
  have hg := need_le_growCap ((bufCompact b).p.length + extra) (startCap (bufCompact b).cap)
    ((bufCompact b).p.length + extra) (startCap_pos _) (by omega)
  unfold bufReserve at h ⊢
  dsimp only at h ⊢
  split_ifs at h ⊢ <;> dsimp only <;> omega

/-- reserving does not change what is seen -/
@[simp] theorem bufReserve_data (realloc : Bool) (b : Buf) (extra hardCap : ℕ) :
    bufData (bufReserve realloc b extra hardCap).2 = bufData b := by
  have hc := bufCompact_data b
  unfold bufReserve
  dsimp only
  split_ifs <;> first | rfl | exact hc

/-- with memory available, `bufReserve` fails exactly when the bytes do not fit and the hard limit is too small -/
theorem bufReserve_fails_iff (b : Buf) (extra hardCap : ℕ) (hcap : hardCap ≠ 0) :
    (bufReserve true b extra hardCap).1 = false ↔
      b.cap - b.p.length < extra ∧ b.cap - bufLen b < extra ∧ hardCap < bufLen b + extra := by
  have hlen := bufCompact_len b
  have hccap := bufCompact_cap b
  have hg := need_le_growCap ((bufCompact b).p.length + extra) (startCap (bufCompact b).cap)
    ((bufCompact b).p.length + extra) (startCap_pos _) (by omega)
  have hle : bufLen b ≤ b.p.length := by unfold bufLen; omega
  unfold bufReserve
  dsimp only
  split_ifs <;> simp only [false_iff, true_iff] <;>
    first | omega | exact absurd rfl ‹¬ true = true›

/-- without a hard limit and with memory available it never fails -/
theorem bufReserve_noLimit (b : Buf) (extra : ℕ) : (bufReserve true b extra 0).1 = true := by
  unfold bufReserve
  dsimp only
  simp only [ne_eq, not_true_eq_false, false_and, if_false, if_true]
  split_ifs <;> rfl

def bufAppend (realloc : Bool) (b : Buf) (data : Bytes) : Buf :=
  if data = [] then b
  else
    let r := bufReserve realloc b data.length 0
    if r.1 then r.2.put data else r.2

theorem put_data {b : Buf} {xs : Bytes} (h : b.p.length + xs.length ≤ b.cap) :
    bufData (b.put xs) = bufData b ++ xs := by
  simp only [bufData, Buf.put]
  rw [List.take_of_length_le (by omega), List.drop_append_of_le_length b.off_le]

/-- all bytes are added, or, when there is no room for them, none -/
theorem bufAppend_visible (realloc : Bool) (b : Buf) (data : Bytes) :
    bufData (bufAppend realloc b data) =
      if (bufReserve realloc b data.length 0).1 then bufData b ++ data else bufData b := by
  unfold bufAppend
  by_cases hnil : data = []
  · simp [hnil]
  · rw [if_neg hnil]
    dsimp only
    split_ifs with hok
    · rw [put_data (bufReserve_room hok), bufReserve_data]
    · exact bufReserve_data _ _ _ _

@[simp] theorem bufAppend_data (b : Buf) (data : Bytes) : bufData (bufAppend true b data) = bufData b ++ data := by
  rw [bufAppend_visible, if_pos (bufReserve_noLimit b data.length)]

@[simp] theorem bufConsume_data (b : Buf) (n : ℕ) : bufData (bufConsume b n) = (bufData b).drop n := by
  unfold bufConsume bufData
  split_ifs with h
  · simp only [List.drop_nil, List.drop_drop]
    rw [List.drop_eq_nil_of_le (by omega)]
  · simp [List.drop_drop]

@[simp] theorem bufReset_data (b : Buf) : bufData (bufReset b) = [] := by simp [bufData, bufReset]

@[simp] theorem empty_data : bufData Buf.empty = [] := rfl

theorem bufLen_le_cap (b : Buf) : bufLen b ≤ b.cap := (Nat.sub_le _ _).trans b.len_le

theorem bufAppend_len (b : Buf) (data : Bytes) : bufLen (bufAppend true b data) = bufLen b + data.length := by
  rw [← length_bufData, bufAppend_data, List.length_append, length_bufData]

theorem bufConsume_len (b : Buf) (n : ℕ) : bufLen (bufConsume b n) = bufLen b - n := by
  rw [← length_bufData, bufConsume_data, List.length_drop, length_bufData]

theorem bufConsume_cap (b : Buf) (n : ℕ) : (bufConsume b n).cap = b.cap := by
  unfold bufConsume
  split_ifs <;> rfl

theorem bufReset_len (b : Buf) : bufLen (bufReset b) = 0 := by
  rw [← length_bufData, bufReset_data]
  rfl

/-- `wsUnmask` in place on `n` visible bytes from index `i` on -/
def bufUnmask (b : Buf) (i n : ℕ) (key : Bytes) : Buf :=
  have hlen : (b.p.take (b.off + i) ++ wsUnmask ((b.p.drop (b.off + i)).take n) key ++
      b.p.drop (b.off + i + n)).length = b.p.length := by simp; omega
  ⟨b.p.take (b.off + i) ++ wsUnmask ((b.p.drop (b.off + i)).take n) key ++ b.p.drop (b.off + i + n), b.cap, b.off,
    hlen ▸ b.off_le, hlen ▸ b.len_le⟩

/-- the bytes behind the unmasked part stay as they are -/
theorem bufUnmask_drop (b : Buf) (i n : ℕ) (key : Bytes) (h : i + n ≤ bufLen b) :
    (bufData (bufUnmask b i n key)).drop (i + n) = (bufData b).drop (i + n) := by
  have hoff := b.off_le
  have hb : bufLen b = b.p.length - b.off := rfl
  have hl : (b.p.take (b.off + i) ++ wsUnmask ((b.p.drop (b.off + i)).take n) key).length = b.off + i + n := by
    simp; omega
  simp only [bufData, bufUnmask, List.drop_drop]
  rw [show b.off + (i + n) = b.off + i + n by omega, ← hl, List.drop_left, hl]

theorem bufUnmask_len (b : Buf) (i n : ℕ) (key : Bytes) : bufLen (bufUnmask b i n key) = bufLen b := by
  unfold bufLen bufUnmask
  simp only [List.length_append, length_wsUnmask, List.length_take, List.length_drop]
  omega

/-! ## Reading and writing the socket -/

/-- what a `recv` reports once everything was read: nothing yet, end of stream, or an error -/
inductive SockEnd where
  | open
  | eof
  | err
deriving DecidableEq, Repr

/-- the kernel's side of a connection -/
structure Sock where
  inq : Bytes
  fin : SockEnd
deriving DecidableEq, Repr

/-- the bytes one `recv` returns: at most `size` (at least one), at most what fits, at most what there is -/
def recvCount (sizes : List ℕ) (room avail : ℕ) : ℕ := min (max 1 (sizes.headD avail)) (min room avail)

/-- the loop of `bufRecv`; `got` as in the source, one step of fuel for each `recv` -/
def bufRecvLoop (chunk hardCap : ℕ) : ℕ → List ℕ → Bool → Sock → Buf → ℤ × Buf × Sock
  | 0, _, _, s, b => (-2, b, s)
  | fuel + 1, sizes, got, s, b =>
    let r := bufReserve true b chunk hardCap
    if r.1 = false then (-2, r.2, s)
    else if s.inq = [] then
      match s.fin with
      | .open => (if got then 1 else 0, r.2, s)
      | _ => (if got then 2 else -1, r.2, s)
    else
      let n := recvCount sizes (r.2.cap - r.2.p.length) s.inq.length
      bufRecvLoop chunk hardCap fuel sizes.tail true { s with inq := s.inq.drop n } (r.2.put (s.inq.take n))

/-- `bufRecv(fd, b, chunk, hardCap)`: return code, buffer, what is left in the socket -/
def bufRecv (sizes : List ℕ) (s : Sock) (b : Buf) (chunk hardCap : ℕ) : ℤ × Buf × Sock :=
  bufRecvLoop chunk hardCap (s.inq.length + 1) sizes false s b

theorem bufReserve_cap_le {realloc : Bool} {b : Buf} {extra hardCap : ℕ} (hcap : hardCap ≠ 0) :
    (bufReserve realloc b extra hardCap).2.cap ≤ max b.cap hardCap := by
  have hccap := bufCompact_cap b
  unfold bufReserve
  dsimp only
  split_ifs <;> dsimp only <;> omega

theorem bufReserve_len (realloc : Bool) (b : Buf) (extra hardCap : ℕ) :
    bufLen (bufReserve realloc b extra hardCap).2 = bufLen b := by
  rw [← length_bufData, bufReserve_data, length_bufData]

theorem le_bufReserve_cap (realloc : Bool) (b : Buf) (extra hardCap : ℕ) :
    b.cap ≤ (bufReserve realloc b extra hardCap).2.cap := by
  have hccap := bufCompact_cap b
  have hs := (le_startCap (bufCompact b).cap).trans (le_growCap ((bufCompact b).p.length + extra) _
    ((bufCompact b).p.length + extra))
  unfold bufReserve
  dsimp only
  split_ifs <;> dsimp only <;> omega

theorem recvCount_pos {sizes : List ℕ} {room avail : ℕ} (hr : 0 < room) (ha : 0 < avail) :
    0 < recvCount sizes room avail := by unfold recvCount; omega

theorem recvCount_le (sizes : List ℕ) (room avail : ℕ) :
    recvCount sizes room avail ≤ room ∧ recvCount sizes room avail ≤ avail := by
  unfold recvCount; omega

/-- what the loop of `bufRecv` guarantees: no byte is lost, a code other than -2 means that everything was read, and
-2 is returned exactly when what there is to hold does not fit -/
theorem bufRecvLoop_spec {chunk hardCap : ℕ} (hchunk : 0 < chunk) (hcap : hardCap ≠ 0) (fuel : ℕ) (sizes : List ℕ)
    (got : Bool) (s : Sock) (b : Buf) (hfuel : s.inq.length < fuel) :
    let r := bufRecvLoop chunk hardCap fuel sizes got s b
    bufData r.2.1 ++ r.2.2.inq = bufData b ++ s.inq ∧ r.2.2.fin = s.fin ∧
      (r.1 = -2 ↔ max b.cap hardCap < bufLen b + s.inq.length + chunk) ∧
      (r.1 ≠ -2 → r.2.2.inq = [] ∧
        r.1 = if s.fin = .open then (if got || s.inq ≠ [] then 1 else 0) else (if got || s.inq ≠ [] then 2 else -1)) := by
  induction fuel generalizing sizes got s b with
  | zero => omega
  | succ fuel ih =>
    have hfail := bufReserve_fails_iff b chunk hardCap hcap
    have hcaple : (bufReserve true b chunk hardCap).2.cap ≤ max b.cap hardCap := bufReserve_cap_le hcap
    have hlecap := le_bufReserve_cap true b chunk hardCap
    have hlen := bufReserve_len true b chunk hardCap
    unfold bufRecvLoop
    dsimp only
    by_cases hres : (bufReserve true b chunk hardCap).1 = false
    · rw [if_pos hres]
      have h := hfail.1 hres
      exact ⟨by simp, rfl, by simp; omega, by simp⟩
    rw [if_neg hres]
    have hroom := bufReserve_room (Bool.not_eq_false _ ▸ hres)
    have hdata := bufReserve_data true b chunk hardCap
    generalize (bufReserve true b chunk hardCap).2 = b' at *
    have hble := b'.off_le
    have hbl : bufLen b' = b'.p.length - b'.off := rfl
    by_cases hinq : s.inq = []
    · rw [if_pos hinq]
      have hmax : ¬ max b.cap hardCap < bufLen b + s.inq.length + chunk := by simp [hinq]; omega
      cases hfin : s.fin <;> cases got <;> simp [hinq, hdata, hfin] <;> simp [hinq] at hmax <;> omega
    · rw [if_neg hinq]
      have hpos : 0 < recvCount sizes (b'.cap - b'.p.length) s.inq.length := recvCount_pos (by omega)
        (List.length_pos_of_ne_nil hinq)
      obtain ⟨hroom', hle⟩ := recvCount_le sizes (b'.cap - b'.p.length) s.inq.length
      generalize hn : recvCount sizes (b'.cap - b'.p.length) s.inq.length = n at *
      have hput : bufData (b'.put (s.inq.take n)) = bufData b ++ s.inq.take n := by
        rw [put_data (by simp; omega), hdata]
      have hlen' : bufLen (b'.put (s.inq.take n)) = bufLen b + n := by
        rw [← length_bufData, hput, List.length_append, length_bufData, List.length_take]; omega
      obtain ⟨h1, h2, h3, h4⟩ := ih sizes.tail true { s with inq := s.inq.drop n } (b'.put (s.inq.take n))
        (by simp; omega)
      refine ⟨?_, h2, ?_, ?_⟩
      · rw [h1, hput, List.append_assoc, List.take_append_drop]
      · rw [h3, hlen']
        have hputcap : (b'.put (s.inq.take n)).cap = b'.cap := rfl
        simp only [hputcap, List.length_drop]
        omega
      · intro hne
        simpa [hinq] using h4 hne

/-- **`bufRecv`**: bytes move from the socket to the buffer in order; it gives -2 exactly when the buffer cannot hold
what there is and one more chunk; every other code means that the socket was read empty, and says how it ends -/
theorem bufRecv_spec {chunk hardCap : ℕ} (hchunk : 0 < chunk) (hcap : hardCap ≠ 0) (sizes : List ℕ) (s : Sock)
    (b : Buf) :
    let r := bufRecv sizes s b chunk hardCap
    bufData r.2.1 ++ r.2.2.inq = bufData b ++ s.inq ∧ r.2.2.fin = s.fin ∧
      (r.1 = -2 ↔ max b.cap hardCap < bufLen b + s.inq.length + chunk) ∧
      (r.1 ≠ -2 → r.2.2.inq = [] ∧
        r.1 = if s.fin = .open then (if s.inq ≠ [] then 1 else 0) else (if s.inq ≠ [] then 2 else -1)) := by
  have h := bufRecvLoop_spec hchunk hcap (s.inq.length + 1) sizes false s b (by omega)
  simpa [bufRecv] using h

/-- reading grows the allocation within the limit only -/
theorem bufRecvLoop_cap_le {chunk hardCap : ℕ} (hcap : hardCap ≠ 0) (fuel : ℕ) (sizes : List ℕ) (got : Bool) (s : Sock)
    (b : Buf) : (bufRecvLoop chunk hardCap fuel sizes got s b).2.1.cap ≤ max b.cap hardCap := by
  induction fuel generalizing sizes got s b with
  | zero => exact le_max_left _ _
  | succ fuel ih =>
    have hres : (bufReserve true b chunk hardCap).2.cap ≤ max b.cap hardCap := bufReserve_cap_le hcap
    unfold bufRecvLoop
    dsimp only
    by_cases hroom : (bufReserve true b chunk hardCap).1 = false
    · rw [if_pos hroom]
      exact hres
    · rw [if_neg hroom]
      by_cases hinq : s.inq = []
      · rw [if_pos hinq]
        split <;> exact hres
      · rw [if_neg hinq]
        exact (ih _ _ _ _).trans (max_le hres (le_max_right _ _))

theorem bufRecv_cap_le {chunk hardCap : ℕ} (hcap : hardCap ≠ 0) (sizes : List ℕ) (s : Sock) (b : Buf) :
    (bufRecv sizes s b chunk hardCap).2.1.cap ≤ max b.cap hardCap := bufRecvLoop_cap_le hcap _ _ _ _ _

/-- the result of one `send` -/
inductive SendRes where
  | sent (n : ℕ)
  | again
  | err
deriving DecidableEq, Repr

/-- `bufSend(fd, b)`: return code, buffer, bytes written to the socket -/
def bufSend : List SendRes → Buf → ℤ × Buf × Bytes
  | [], b => if bufLen b = 0 then (1, b, []) else (0, b, [])
  | r :: rs, b =>
    if bufLen b = 0 then (1, b, [])
    else
      match r with
      | .again => (0, b, [])
      | .err => (-1, b, [])
      | .sent n =>
        let n := min (max 1 n) (bufLen b)
        let out := bufSend rs (bufConsume b n)
        (out.1, out.2.1, (bufData b).take n ++ out.2.2)

/-- nothing is lost or duplicated between the buffer and the socket -/
theorem bufSend_data (rs : List SendRes) (b : Buf) : (bufSend rs b).2.2 ++ bufData (bufSend rs b).2.1 = bufData b := by
  induction rs generalizing b with
  | nil => unfold bufSend; split_ifs <;> simp
  | cons r rs ih =>
    unfold bufSend
    split_ifs with h
    · simp
    · cases r with
      | again => simp
      | err => simp
      | sent n =>
        simp only [List.append_assoc, ih, bufConsume_data]
        exact List.take_append_drop _ _

/-- it returns 1 only with an empty buffer, and 0 only with bytes left -/
theorem bufSend_rc (rs : List SendRes) (b : Buf) :
    ((bufSend rs b).1 = 1 → bufData (bufSend rs b).2.1 = []) ∧
      ((bufSend rs b).1 = 0 → bufData (bufSend rs b).2.1 ≠ []) ∧
      ((bufSend rs b).1 = 1 ∨ (bufSend rs b).1 = 0 ∨ (bufSend rs b).1 = -1) := by
  have hnil : ∀ b : Buf, bufData b = [] ↔ bufLen b = 0 := fun b => by
    rw [← List.length_eq_zero_iff, length_bufData]
  induction rs generalizing b with
  | nil => unfold bufSend; split_ifs with h <;> simp [hnil, h]
  | cons r rs ih =>
    unfold bufSend
    split_ifs with h
    · simp [hnil, h]
    · cases r with
      | again => simp [hnil, h]
      | err => simp
      | sent n => exact ih _

/-- a socket that reports no error leaves a non-negative return code -/
theorem bufSend_noErr {rs : List SendRes} (h : SendRes.err ∉ rs) (b : Buf) : (bufSend rs b).1 ≠ -1 := by
  induction rs generalizing b with
  | nil => unfold bufSend; split_ifs <;> simp
  | cons r rs ih =>
    unfold bufSend
    split_ifs
    · simp
    · cases r with
      | again => simp
      | err => simp at h
      | sent n => exact ih (fun hm => h (List.mem_cons_of_mem _ hm)) _

end WsServer
