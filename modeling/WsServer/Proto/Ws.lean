/-
`src/ws.c`: WebSocket framing without a system call. Frame headers (parse and encode), masking, close codes and the
incremental UTF-8 validator.

Bytes are `UInt8`; lengths (`size_t`, `uint64_t`) are naturals: the parser rejects lengths from 2^63 on, so no sum the
callers form reaches 2^64. A result the C code returns through a pointer is part of the returned value, and `WS_OK` is
the only return code that carries a header.

- `wsParseHeader_append`: a verdict other than `needMore` does not change when more bytes arrive.
- `wsParseHeader_maskedFrame`, `wsParseHeader_plainFrame`: the parser reads a frame back, whatever follows it.
- `wsUtf8Feed_viable`, `wsUtf8Feed_wellFormed`: the validator accepts exactly the prefixes of well-formed strings, and
  is done exactly on the well-formed ones (`Core/Utf8.lean`), however the bytes are cut (`wsUtf8Feed_append`).
-/
import Mathlib
import WsServer.Core.Utf8

namespace WsServer

abbrev Bytes := List UInt8

namespace Ws

/-! ## Frame headers -/

abbrev opCont : ℕ := 0x0
abbrev opText : ℕ := 0x1
abbrev opBin : ℕ := 0x2
abbrev opClose : ℕ := 0x8
abbrev opPing : ℕ := 0x9
abbrev opPong : ℕ := 0xA

structure WsFrameHdr where
  fin : Bool
  opcode : ℕ
  masked : Bool
  payloadLen : ℕ
  /-- empty unless `masked` -/
  maskKey : Bytes
  headerLen : ℕ
deriving DecidableEq, Repr

inductive WsRc where
  | needMore
  | ok (h : WsFrameHdr)
  | errProto
deriving DecidableEq, Repr

/-- the length field: not there yet, not in its shortest form (or 2^63 and more), or a length and the bytes read -/
inductive LenRc where
  | needMore
  | ok (len need : ℕ)
  | errProto
deriving DecidableEq, Repr

/-- big-endian value, one byte at a time as the C loop reads it -/
def beNat (bs : Bytes) : ℕ := bs.foldl (fun len x => (len <<< 8) ||| x.toNat) 0

/-- the three length forms of `wsParseHeader`, selected by the low seven bits of the second byte -/
def wsParseLen (b : Bytes) (len7 : ℕ) : LenRc :=
  if len7 = 126 then
    if b.length < 4 then .needMore
    else if beNat ((b.drop 2).take 2) < 126 then .errProto
    else .ok (beNat ((b.drop 2).take 2)) 4
  else if len7 = 127 then
    if b.length < 10 then .needMore
    else if beNat ((b.drop 2).take 8) &&& (1 <<< 63) ≠ 0 then .errProto
    else if beNat ((b.drop 2).take 8) ≤ 0xFFFF then .errProto
    else .ok (beNat ((b.drop 2).take 8)) 10
  else .ok len7 2

/-- the bit fields of the first two bytes -/
def finBit (b0 : UInt8) : Bool := (b0 >>> 7) &&& 1 = 1
def rsvBits (b0 : UInt8) : UInt8 := b0 &&& 0x70
def opcodeBits (b0 : UInt8) : ℕ := (b0 &&& 0x0F).toNat
def maskBit (b1 : UInt8) : Bool := (b1 >>> 7) &&& 1 = 1
def lenBits (b1 : UInt8) : ℕ := (b1 &&& 0x7F).toNat

/-- reserved opcodes: 0x3-0x7 (data), 0xB-0xF (control) -/
def reservedOp (opcode : ℕ) : Prop := (0x3 ≤ opcode ∧ opcode ≤ 0x7) ∨ 0xB ≤ opcode

instance (opcode : ℕ) : Decidable (reservedOp opcode) := by unfold reservedOp; infer_instance

/-- the end of `wsParseHeader`, once the length is read: the mask key, then the rules of control frames -/
def wsParseTail (b : Bytes) (fin : Bool) (opcode : ℕ) (masked : Bool) (len need : ℕ) : WsRc :=
  if masked = true ∧ b.length < need + 4 then .needMore
  else if opcode &&& 0x8 ≠ 0 ∧ (fin = false ∨ 125 < len) then .errProto
  else
    .ok {
      fin := fin
      opcode := opcode
      masked := masked
      payloadLen := len
      maskKey := if masked then (b.drop need).take 4 else []
      headerLen := if masked then need + 4 else need }

def wsParseHeader (b : Bytes) : WsRc :=
  if b.length < 2 then .needMore
  else if rsvBits (b.getD 0 0) ≠ 0 then .errProto
  else if reservedOp (opcodeBits (b.getD 0 0)) then .errProto
  else
    match wsParseLen b (lenBits (b.getD 1 0)) with
    | .needMore => .needMore
    | .errProto => .errProto
    | .ok len need =>
      wsParseTail b (finBit (b.getD 0 0)) (opcodeBits (b.getD 0 0)) (maskBit (b.getD 1 0)) len need

/-- `p[i] ^= key[i & 3]`, from index `i` on -/
def unmaskFrom (key : Bytes) : ℕ → Bytes → Bytes
  | _, [] => []
  | i, x :: xs => (x ^^^ key.getD (i % 4) 0) :: unmaskFrom key (i + 1) xs

def wsUnmask (p : Bytes) (key : Bytes) : Bytes := unmaskFrom key 0 p

/-- the length field of an outgoing header; `m` is the mask bit (0 from the server, 0x80 from the client) -/
def encodeLen (m : ℕ) (len : ℕ) : Bytes :=
  if len ≤ 125 then [UInt8.ofNat (m ||| len)]
  else if len ≤ 0xFFFF then [UInt8.ofNat (m ||| 126), UInt8.ofNat (len >>> 8), UInt8.ofNat len]
  else UInt8.ofNat (m ||| 127) :: (List.range 8).map fun i => UInt8.ofNat (len >>> (8 * (7 - i)))

def wsEncodeHeader (opcode payloadLen : ℕ) : Bytes :=
  UInt8.ofNat (0x80 ||| (opcode &&& 0x0F)) :: encodeLen 0 payloadLen

/-- the bytes of `frameNew` (`src/agg.c`): a final unmasked frame -/
def frameNew (opcode : ℕ) (payload : Bytes) : Bytes := wsEncodeHeader opcode payload.length ++ payload

/-- a status code as the two payload bytes of a CLOSE -/
def codeBytes (code : ℕ) : Bytes := [UInt8.ofNat (code >>> 8), UInt8.ofNat code]

def wsIsValidCloseCode (code : ℕ) : Bool :=
  (1000 ≤ code ∧ code ≤ 1003) ∨ (1007 ≤ code ∧ code ≤ 1011) ∨ (3000 ≤ code ∧ code ≤ 4999)

/-! ### What the length field reads -/

theorem beNat_append (xs ys : Bytes) : beNat (xs ++ ys) = ys.foldl (fun len x => (len <<< 8) ||| x.toNat) (beNat xs) := by
  simp [beNat, List.foldl_append]

theorem shift_or (len : ℕ) (x : UInt8) : (len <<< 8) ||| x.toNat = len * 256 + x.toNat := by
  rw [← Nat.shiftLeft_add_eq_or_of_lt (show x.toNat < 2 ^ 8 from x.toNat_lt), Nat.shiftLeft_eq]

theorem beNat_snoc (xs : Bytes) (x : UInt8) : beNat (xs ++ [x]) = beNat xs * 256 + x.toNat := by
  rw [beNat_append]; exact shift_or _ _

theorem beNat_lt (xs : Bytes) : beNat xs < 256 ^ xs.length := by
  induction xs using List.reverseRecOn with
  | nil => simp [beNat]
  | append_singleton xs x ih =>
    have hx : x.toNat < 256 := x.toNat_lt
    rw [beNat_snoc, List.length_append, List.length_singleton, pow_succ]
    omega

/-- the test of bit 63 is the bound 2^63 -/
theorem and_bit63 {n : ℕ} (hn : n < 2 ^ 64) : n &&& (1 <<< 63) = 0 ↔ n < 2 ^ 63 := by
  rw [show (1 : ℕ) <<< 63 = 2 ^ 63 from by decide, Nat.and_two_pow, Nat.testBit_eq_decide_div_mod_eq]
  constructor
  · intro h
    by_contra hlt
    have hq : n / 2 ^ 63 = 1 := by omega
    rw [hq] at h
    norm_num at h
  · intro h
    rw [Nat.div_eq_of_lt h]
    norm_num

/-! ### A verdict does not change when more bytes arrive -/

theorem getD_append {b t : Bytes} {i : ℕ} (h : i < b.length) : (b ++ t).getD i 0 = b.getD i 0 := by
  simp [List.getD_eq_getElem?_getD, List.getElem?_append_left h]

theorem take_drop_append {b t : Bytes} {i n : ℕ} (h : i + n ≤ b.length) :
    ((b ++ t).drop i).take n = (b.drop i).take n := by
  rw [List.drop_append_of_le_length (by omega), List.take_append_of_le_length (by simp; omega)]

theorem wsParseLen_append {b t : Bytes} {len7 : ℕ} (h : wsParseLen b len7 ≠ .needMore) :
    wsParseLen (b ++ t) len7 = wsParseLen b len7 := by
  have hl : (b ++ t).length = b.length + t.length := List.length_append
  unfold wsParseLen at h ⊢
  by_cases h126 : len7 = 126
  · simp only [h126, if_true] at h ⊢
    by_cases hs : b.length < 4
    · simp [hs] at h
    · rw [take_drop_append (by omega), hl, if_neg hs, if_neg (show ¬ b.length + t.length < 4 by omega)]
  · simp only [h126, if_false] at h ⊢
    by_cases h127 : len7 = 127
    · simp only [h127, if_true] at h ⊢
      by_cases hs : b.length < 10
      · simp [hs] at h
      · rw [take_drop_append (by omega), hl, if_neg hs, if_neg (show ¬ b.length + t.length < 10 by omega)]
    · simp only [h127, if_false]

/-- the bytes a length field takes are there -/
theorem wsParseLen_ok {b : Bytes} {len7 len need : ℕ} (h : wsParseLen b len7 = .ok len need) (hb : 2 ≤ b.length)
    (h7 : len7 < 128) : need ≤ b.length ∧ 2 ≤ need ∧ need ≤ 10 ∧ len < 2 ^ 63 := by
  unfold wsParseLen at h
  split_ifs at h with h1 h2 h3 h4 h5 h6 h7'
  · simp only [LenRc.ok.injEq] at h
    obtain ⟨rfl, rfl⟩ := h
    have hlt := beNat_lt ((b.drop 2).take 2)
    have hle : ((b.drop 2).take 2).length ≤ 2 := by simp
    have := Nat.pow_le_pow_right (show 0 < 256 by norm_num) hle
    omega
  · simp only [LenRc.ok.injEq] at h
    obtain ⟨rfl, rfl⟩ := h
    have hlt := beNat_lt ((b.drop 2).take 8)
    have hle : ((b.drop 2).take 8).length ≤ 8 := by simp
    have h64 := Nat.pow_le_pow_right (show 0 < 256 by norm_num) hle
    have h63 := (and_bit63 (n := beNat ((b.drop 2).take 8)) (by omega)).1 (not_not.1 h6)
    omega
  · simp only [LenRc.ok.injEq] at h
    omega

theorem wsParseTail_append {b : Bytes} (t : Bytes) {fin masked : Bool} {opcode len need : ℕ}
    (h : wsParseTail b fin opcode masked len need ≠ .needMore) :
    wsParseTail (b ++ t) fin opcode masked len need = wsParseTail b fin opcode masked len need := by
  unfold wsParseTail at h ⊢
  cases masked with
  | false => simp
  | true =>
    by_cases hneed : b.length < need + 4
    · simp [hneed] at h
    · have hlong : ¬ (b ++ t).length < need + 4 := by simp; omega
      simp only [hneed, hlong, and_false, if_false, take_drop_append (t := t) (show need + 4 ≤ b.length by omega)]

/-- **A verdict stays when more bytes arrive.** -/
theorem wsParseHeader_append {b : Bytes} (t : Bytes) (h : wsParseHeader b ≠ .needMore) :
    wsParseHeader (b ++ t) = wsParseHeader b := by
  by_cases h2 : b.length < 2
  · exact absurd (by simp [wsParseHeader, h2]) h
  have h2' : ¬ (b ++ t).length < 2 := by simp; omega
  unfold wsParseHeader at h ⊢
  rw [getD_append (i := 0) (by omega), getD_append (i := 1) (by omega)]
  simp only [h2, h2', if_false] at h ⊢
  split_ifs with hrsv hop
  · rfl
  · rfl
  rw [if_neg hrsv, if_neg hop] at h
  cases hlen : wsParseLen b (lenBits (b.getD 1 0)) with
  | needMore => rw [hlen] at h; exact absurd rfl h
  | errProto => rw [wsParseLen_append (by rw [hlen]; simp), hlen]
  | ok len need =>
    rw [hlen] at h
    rw [wsParseLen_append (by rw [hlen]; simp), hlen]
    exact wsParseTail_append t h

/-- an accepted header: it fits, its length is below 2^63, a control frame is final and short, and the opcode is one
of the six defined ones -/
structure GoodHdr (b : Bytes) (h : WsFrameHdr) : Prop where
  fits : h.headerLen ≤ b.length
  two_le : 2 ≤ h.headerLen
  le_14 : h.headerLen ≤ 14
  len_lt : h.payloadLen < 2 ^ 63
  control : h.opcode &&& 0x8 ≠ 0 → h.fin = true ∧ h.payloadLen ≤ 125
  opcode : h.opcode = opCont ∨ h.opcode = opText ∨ h.opcode = opBin ∨ h.opcode = opClose ∨ h.opcode = opPing ∨
    h.opcode = opPong

theorem wsParseTail_good {b : Bytes} {fin masked : Bool} {opcode len need : ℕ} {h : WsFrameHdr}
    (hp : wsParseTail b fin opcode masked len need = .ok h) (hn : need ≤ b.length) (hn2 : 2 ≤ need) (hn10 : need ≤ 10)
    (hlen : len < 2 ^ 63) (hop : ¬ reservedOp opcode) : GoodHdr b h := by
  unfold wsParseTail at hp
  by_cases h4 : masked = true ∧ b.length < need + 4
  · rw [if_pos h4] at hp; cases hp
  rw [if_neg h4] at hp
  by_cases h5 : opcode &&& 0x8 ≠ 0 ∧ (fin = false ∨ 125 < len)
  · rw [if_pos h5] at hp; cases hp
  rw [if_neg h5, WsRc.ok.injEq] at hp
  subst hp
  unfold reservedOp at hop
  have hopc : opcode = opCont ∨ opcode = opText ∨ opcode = opBin ∨ opcode = opClose ∨ opcode = opPing ∨
      opcode = opPong := by
    simp only [opCont, opText, opBin, opClose, opPing, opPong]; omega
  have hctl : opcode &&& 0x8 ≠ 0 → fin = true ∧ len ≤ 125 := by
    intro hc
    simp only [hc, ne_eq, not_false_eq_true, true_and, not_or, not_lt, Bool.not_eq_false] at h5
    exact h5
  cases masked with
  | false => exact ⟨by simpa using hn, by simpa using hn2, by simp; omega, hlen, hctl, hopc⟩
  | true =>
    have h4' : need + 4 ≤ b.length := by simpa using h4
    exact ⟨by simpa using h4', by simp, by simp; omega, hlen, hctl, hopc⟩

theorem wsParseHeader_good {b : Bytes} {h : WsFrameHdr} (hp : wsParseHeader b = .ok h) : GoodHdr b h := by
  unfold wsParseHeader at hp
  split_ifs at hp with h1 h2 h3
  have h7 : lenBits (b.getD 1 0) < 128 := by
    unfold lenBits; rw [UInt8.toNat_and]; exact Nat.lt_of_le_of_lt Nat.and_le_right (by decide)
  split at hp
  · cases hp
  · cases hp
  · rename_i len need hlen
    obtain ⟨hn, hn2, hn10, hl63⟩ := wsParseLen_ok hlen (by omega) h7
    exact wsParseTail_good hp hn hn2 hn10 hl63 h3

/-! ### Frames read back -/

/-- the first byte of a frame -/
def firstByte (fin : Bool) (opcode : ℕ) : UInt8 := UInt8.ofNat ((if fin then 0x80 else 0) ||| opcode)

/-- a frame as a client sends it: header with the mask bit, the key, the masked payload -/
def maskedFrame (fin : Bool) (opcode : ℕ) (payload key : Bytes) : Bytes :=
  firstByte fin opcode :: encodeLen 0x80 payload.length ++ key ++ wsUnmask payload key

/-- a frame as a server may send it: `frameNew` with a chosen FIN bit -/
def plainFrame (fin : Bool) (opcode : ℕ) (payload : Bytes) : Bytes :=
  firstByte fin opcode :: encodeLen 0 payload.length ++ payload

theorem length_unmaskFrom (key : Bytes) (i : ℕ) (p : Bytes) : (unmaskFrom key i p).length = p.length := by
  induction p generalizing i with
  | nil => rfl
  | cons x xs ih => simp [unmaskFrom, ih]

@[simp] theorem length_wsUnmask (p key : Bytes) : (wsUnmask p key).length = p.length := length_unmaskFrom key 0 p

theorem unmaskFrom_unmaskFrom (key : Bytes) (i : ℕ) (p : Bytes) : unmaskFrom key i (unmaskFrom key i p) = p := by
  induction p generalizing i with
  | nil => rfl
  | cons x xs ih => simp [unmaskFrom, ih]

/-- masking twice with one key gives the payload back -/
@[simp] theorem wsUnmask_wsUnmask (p key : Bytes) : wsUnmask (wsUnmask p key) key = p := unmaskFrom_unmaskFrom key 0 p

/-- the six defined opcodes -/
def IsOpcode (op : ℕ) : Prop :=
  op = opCont ∨ op = opText ∨ op = opBin ∨ op = opClose ∨ op = opPing ∨ op = opPong

theorem firstByte_bits (fin : Bool) {op : ℕ} (hop : IsOpcode op) :
    finBit (firstByte fin op) = fin ∧ rsvBits (firstByte fin op) = 0 ∧ opcodeBits (firstByte fin op) = op := by
  rcases hop with rfl | rfl | rfl | rfl | rfl | rfl <;> cases fin <;> decide

/-- the second byte of a header: mask bit `m`, low bits `v` -/
theorem secondByte {m v : ℕ} (hm : m = 0 ∨ m = 0x80) (hv : v < 128) :
    maskBit (UInt8.ofNat (m ||| v)) = decide (m = 0x80) ∧ lenBits (UInt8.ofNat (m ||| v)) = v := by
  rcases hm with rfl | rfl <;> interval_cases v <;> decide

theorem beNat_two (len : ℕ) (h : len < 2 ^ 16) : beNat [UInt8.ofNat (len >>> 8), UInt8.ofNat len] = len := by
  simp only [beNat, List.foldl_cons, List.foldl_nil, shift_or, UInt8.toNat_ofNat', Nat.shiftRight_eq_div_pow]
  omega

theorem beNat_eight (len : ℕ) (h : len < 2 ^ 64) :
    beNat ((List.range 8).map fun i => UInt8.ofNat (len >>> (8 * (7 - i)))) = len := by
  simp only [beNat, List.range_succ, List.range_zero, List.nil_append, List.cons_append, List.map_cons, List.map_nil,
    List.foldl_cons, List.foldl_nil, shift_or, UInt8.toNat_ofNat', Nat.shiftRight_eq_div_pow]
  norm_num
  omega

/-- **The parser reads an encoded length back**, whatever follows it. -/
theorem wsParseLen_encodeLen {m len : ℕ} (hm : m = 0 ∨ m = 0x80) (hlen : len < 2 ^ 63) (b0 : UInt8) (t : Bytes) :
    maskBit ((b0 :: encodeLen m len ++ t).getD 1 0) = decide (m = 0x80) ∧
      wsParseLen (b0 :: encodeLen m len ++ t) (lenBits ((b0 :: encodeLen m len ++ t).getD 1 0)) =
        .ok len (1 + (encodeLen m len).length) := by
  unfold encodeLen
  split_ifs with h1 h2
  · obtain ⟨e1, e2⟩ := secondByte hm (show len < 128 by omega)
    refine ⟨e1, ?_⟩
    show wsParseLen _ (lenBits (UInt8.ofNat (m ||| len))) = _
    rw [e2]
    unfold wsParseLen
    rw [if_neg (by omega), if_neg (by omega)]
    rfl
  · obtain ⟨e1, e2⟩ := secondByte hm (show 126 < 128 by omega)
    refine ⟨e1, ?_⟩
    show wsParseLen _ (lenBits (UInt8.ofNat (m ||| 126))) = _
    rw [e2]
    have hb : beNat [UInt8.ofNat (len >>> 8), UInt8.ofNat len] = len := beNat_two len (by omega)
    simp only [wsParseLen, if_true, List.cons_append, List.nil_append, List.drop_succ_cons, List.drop_zero,
      List.take_succ_cons, List.take_zero, hb, List.length_cons]
    rw [if_neg (by omega), if_neg (by omega)]
    rfl
  · obtain ⟨e1, e2⟩ := secondByte hm (show 127 < 128 by omega)
    refine ⟨e1, ?_⟩
    show wsParseLen _ (lenBits (UInt8.ofNat (m ||| 127))) = _
    rw [e2]
    have hb := beNat_eight len (by omega)
    have h64 : beNat ((List.range 8).map fun i => UInt8.ofNat (len >>> (8 * (7 - i)))) &&& (1 <<< 63) = 0 := by
      rw [hb]; exact (and_bit63 (by omega)).2 hlen
    have htake : ((((List.range 8).map fun i => UInt8.ofNat (len >>> (8 * (7 - i)))) ++ t)).take 8 =
        (List.range 8).map fun i => UInt8.ofNat (len >>> (8 * (7 - i))) := by
      rw [List.take_append_of_le_length (by simp), List.take_of_length_le (by simp)]
    simp only [wsParseLen, List.cons_append, List.drop_succ_cons, List.drop_zero, htake, hb, List.length_cons,
      List.length_append, List.length_map, List.length_range]
    rw [if_neg (by omega), if_pos trivial, if_neg (by omega), if_neg (by rw [← hb]; simpa using h64),
      if_neg (by omega)]

theorem encodeLen_length (m len : ℕ) : 1 ≤ (encodeLen m len).length ∧ (encodeLen m len).length ≤ 9 := by
  unfold encodeLen; split_ifs <;> simp

/-- a frame header is read up to its length, and `wsParseTail` decides on the rest -/
theorem wsParseHeader_shape (fin : Bool) {op m len : ℕ} (hop : IsOpcode op) (hm : m = 0 ∨ m = 0x80)
    (hlen : len < 2 ^ 63) (t : Bytes) :
    wsParseHeader (firstByte fin op :: encodeLen m len ++ t) =
      wsParseTail (firstByte fin op :: encodeLen m len ++ t) fin op (decide (m = 0x80)) len
        (1 + (encodeLen m len).length) := by
  obtain ⟨hf, hr, ho⟩ := firstByte_bits fin hop
  obtain ⟨hmb, hpl⟩ := wsParseLen_encodeLen hm hlen (firstByte fin op) t
  have hel := encodeLen_length m len
  have hres : ¬ reservedOp op := by
    unfold reservedOp; rcases hop with rfl | rfl | rfl | rfl | rfl | rfl <;> decide
  have h0 : (firstByte fin op :: encodeLen m len ++ t).getD 0 0 = firstByte fin op := rfl
  have h2 : ¬ (firstByte fin op :: encodeLen m len ++ t).length < 2 := by
    rw [List.length_append, List.length_cons]; omega
  unfold wsParseHeader
  rw [if_neg h2, h0, hr, ho, hf, hmb, hpl, if_neg (by simp), if_neg hres]

/-- what a peer has to respect when it sends a control frame -/
def ControlOk (fin : Bool) (op len : ℕ) : Prop := op &&& 0x8 ≠ 0 → fin = true ∧ len ≤ 125

theorem ControlOk.not_err {fin : Bool} {op len : ℕ} (h : ControlOk fin op len) :
    ¬ (op &&& 0x8 ≠ 0 ∧ (fin = false ∨ 125 < len)) := by
  rintro ⟨h1, h2⟩
  obtain ⟨h3, h4⟩ := h h1
  rcases h2 with h2 | h2
  · rw [h3] at h2; cases h2
  · omega

/-- **A masked frame reads back**: header, key and payload, whatever follows. -/
theorem wsParseHeader_maskedFrame {fin : Bool} {op : ℕ} {payload key : Bytes} (hop : IsOpcode op)
    (hk : key.length = 4) (hlen : payload.length < 2 ^ 63) (hctl : ControlOk fin op payload.length) (t : Bytes) :
    wsParseHeader (maskedFrame fin op payload key ++ t) =
      .ok ⟨fin, op, true, payload.length, key, 5 + (encodeLen 0x80 payload.length).length⟩ := by
  have hshape : maskedFrame fin op payload key ++ t =
      firstByte fin op :: encodeLen 0x80 payload.length ++ (key ++ (wsUnmask payload key ++ t)) := by
    simp [maskedFrame, List.append_assoc]
  have hfull : ¬ (firstByte fin op :: encodeLen 0x80 payload.length ++ (key ++ (wsUnmask payload key ++ t))).length <
      1 + (encodeLen 0x80 payload.length).length + 4 := by
    simp [hk]; omega
  have hkey : ((firstByte fin op :: encodeLen 0x80 payload.length ++ (key ++ (wsUnmask payload key ++ t))).drop
      (1 + (encodeLen 0x80 payload.length).length)).take 4 = key := by
    rw [List.cons_append, Nat.add_comm 1, List.drop_succ_cons, List.drop_left,
      List.take_append_of_le_length (by omega), List.take_of_length_le (by omega)]
  rw [hshape, wsParseHeader_shape fin hop (Or.inr rfl) hlen]
  unfold wsParseTail
  rw [if_neg (fun h => hfull h.2), if_neg hctl.not_err]
  simp only [decide_true, if_true, hkey, WsRc.ok.injEq, WsFrameHdr.mk.injEq, true_and]
  omega

/-- an unmasked frame reads back in the same way -/
theorem wsParseHeader_plainFrame {fin : Bool} {op : ℕ} {payload : Bytes} (hop : IsOpcode op)
    (hlen : payload.length < 2 ^ 63) (hctl : ControlOk fin op payload.length) (t : Bytes) :
    wsParseHeader (plainFrame fin op payload ++ t) =
      .ok ⟨fin, op, false, payload.length, [], 1 + (encodeLen 0 payload.length).length⟩ := by
  have hshape : plainFrame fin op payload ++ t =
      firstByte fin op :: encodeLen 0 payload.length ++ (payload ++ t) := by
    simp [plainFrame, List.append_assoc]
  rw [hshape, wsParseHeader_shape fin hop (Or.inl rfl) hlen]
  unfold wsParseTail
  rw [if_neg (by simp), if_neg hctl.not_err]
  simp

theorem frameNew_eq {op : ℕ} (hop : IsOpcode op) (payload : Bytes) :
    frameNew op payload = plainFrame true op payload := by
  unfold frameNew wsEncodeHeader plainFrame firstByte
  rcases hop with rfl | rfl | rfl | rfl | rfl | rfl <;> rfl

/-- a byte string cut into frames, opcode and payload each; it ends where no whole frame is left -/
def decodeFrames : ℕ → Bytes → List (ℕ × Bytes)
  | 0, _ => []
  | fuel + 1, b =>
    match wsParseHeader b with
    | .ok h =>
      if b.length < h.headerLen + h.payloadLen then []
      else (h.opcode, (b.drop h.headerLen).take h.payloadLen) :: decodeFrames fuel (b.drop (h.headerLen + h.payloadLen))
    | _ => []

/-- what a server may send: a defined opcode, a length below 2^63, at most 125 bytes in a control frame -/
def SendOk (f : ℕ × Bytes) : Prop :=
  IsOpcode f.1 ∧ f.2.length < 2 ^ 63 ∧ ControlOk true f.1 f.2.length

/-- **Frames put one after the other are read back**, each with its opcode and its payload. -/
theorem decodeFrames_frameNew (fs : List (ℕ × Bytes)) (hfs : ∀ f ∈ fs, SendOk f) (fuel : ℕ) (hfuel : fs.length < fuel) :
    decodeFrames fuel (fs.flatMap fun f => frameNew f.1 f.2) = fs := by
  induction fs generalizing fuel with
  | nil =>
    cases fuel with
    | zero => rfl
    | succ fuel => simp [decodeFrames, wsParseHeader]
  | cons f fs ih =>
    cases fuel with
    | zero => omega
    | succ fuel =>
      obtain ⟨hop, hlen, hctl⟩ := hfs f List.mem_cons_self
      have hp := wsParseHeader_plainFrame hop hlen hctl (fs.flatMap fun f => frameNew f.1 f.2)
      have hsplit : plainFrame true f.1 f.2 ++ (fs.flatMap fun f => frameNew f.1 f.2) =
          (firstByte true f.1 :: encodeLen 0 f.2.length) ++ (f.2 ++ fs.flatMap fun f => frameNew f.1 f.2) := by
        simp [plainFrame, List.append_assoc]
      have hhl : 1 + (encodeLen 0 f.2.length).length = (firstByte true f.1 :: encodeLen 0 f.2.length).length := by
        simp; omega
      rw [List.flatMap_cons, frameNew_eq hop, decodeFrames, hp]
      dsimp only
      rw [hhl, hsplit, if_neg (by simp only [List.length_append]; omega), ← List.drop_drop, List.drop_left, List.take_left, List.drop_left]
      rw [ih (fun g hg => hfs g (List.mem_cons_of_mem _ hg)) fuel (by simp at hfuel; omega)]

/-! ## UTF-8 -/

inductive Utf8Kind where
  | U8_NONE | U8_GEN | U8_E0 | U8_ED | U8_F0 | U8_F4
deriving DecidableEq, Repr

structure Utf8St where
  need : ℕ
  kind : Utf8Kind
deriving DecidableEq, Repr

def wsUtf8Reset : Utf8St := ⟨0, .U8_NONE⟩

/-- one byte of `wsUtf8Feed`; `none` is the return of -1 (the state it leaves behind is never read again) -/
def utf8Byte (st : Utf8St) (b : UInt8) : Option Utf8St :=
  if st.need = 0 then
    if b ≤ 0x7F then some st
    else if 0xC2 ≤ b ∧ b ≤ 0xDF then some ⟨1, .U8_GEN⟩
    else if b = 0xE0 then some ⟨2, .U8_E0⟩
    else if 0xE1 ≤ b ∧ b ≤ 0xEC then some ⟨2, .U8_GEN⟩
    else if b = 0xED then some ⟨2, .U8_ED⟩
    else if 0xEE ≤ b ∧ b ≤ 0xEF then some ⟨2, .U8_GEN⟩
    else if b = 0xF0 then some ⟨3, .U8_F0⟩
    else if 0xF1 ≤ b ∧ b ≤ 0xF3 then some ⟨3, .U8_GEN⟩
    else if b = 0xF4 then some ⟨3, .U8_F4⟩
    else none
  else
    let ok : Bool := match st.kind with
      | .U8_E0 => 0xA0 ≤ b ∧ b ≤ 0xBF
      | .U8_ED => 0x80 ≤ b ∧ b ≤ 0x9F
      | .U8_F0 => 0x90 ≤ b ∧ b ≤ 0xBF
      | .U8_F4 => 0x80 ≤ b ∧ b ≤ 0x8F
      | _ => 0x80 ≤ b ∧ b ≤ 0xBF
    if ok then some ⟨st.need - 1, .U8_GEN⟩ else none

def wsUtf8Feed : Utf8St → Bytes → Option Utf8St
  | st, [] => some st
  | st, b :: p => (utf8Byte st b).bind fun st' => wsUtf8Feed st' p

def wsUtf8Done (st : Utf8St) : Bool := st.need = 0

/-- the limits a kind sets on the next continuation byte -/
def Utf8Kind.lo : Utf8Kind → ℕ
  | .U8_E0 => 0xA0
  | .U8_F0 => 0x90
  | _ => 0x80

def Utf8Kind.hi : Utf8Kind → ℕ
  | .U8_ED => 0x9F
  | .U8_F4 => 0x8F
  | _ => 0xBF

/-- what may follow a validator state -/
def Utf8St.Denotes (st : Utf8St) (t : Bytes) : Prop := Utf8.After st.need st.kind.lo st.kind.hi t

/-- a property of bytes holds if it holds of the 256 values -/
theorem forall_byte {P : UInt8 → Prop} (h : ∀ n : Fin 256, P (UInt8.ofNat n)) (b : UInt8) : P b := by
  have hb := h ⟨b.toNat, b.toNat_lt⟩
  rwa [UInt8.ofNat_toNat] at hb

/-- from a reset state, a leading byte selects its row of the table -/
theorem utf8Byte_lead (b : UInt8) (hb : ¬ b ≤ 0x7F) (k : Utf8Kind) :
    (utf8Byte ⟨0, k⟩ b).map (fun st => (st.need, st.kind.lo, st.kind.hi)) = Utf8.lead b.toNat := by
  have h : ∀ b : UInt8, ¬ b ≤ 0x7F →
      (utf8Byte ⟨0, k⟩ b).map (fun st => (st.need, st.kind.lo, st.kind.hi)) = Utf8.lead b.toNat := by
    apply forall_byte
    cases k <;> decide +kernel
  exact h b hb

/-- inside a code point, a byte is accepted exactly within the limits of the kind -/
theorem utf8Byte_tail (n : ℕ) (k : Utf8Kind) (b : UInt8) :
    utf8Byte ⟨n + 1, k⟩ b = if k.lo ≤ b.toNat ∧ b.toNat ≤ k.hi then some ⟨n, .U8_GEN⟩ else none := by
  simp only [utf8Byte, Nat.add_one_ne_zero, if_false, Nat.add_sub_cancel]
  cases k <;> simp only [Utf8Kind.lo, Utf8Kind.hi, decide_eq_true_eq] <;> rfl

/-- **One byte of the validator follows the residual language.** -/
theorem utf8Byte_denotes (st : Utf8St) (b : UInt8) (t : Bytes) :
    st.Denotes (b :: t) ↔ ∃ st', utf8Byte st b = some st' ∧ st'.Denotes t := by
  obtain ⟨need, kind⟩ := st
  cases need with
  | zero =>
    show Utf8.WellFormed (b :: t) ↔ _
    rw [Utf8.wellFormed_cons]
    by_cases hb : b ≤ 0x7F
    · have hl : Utf8.lead b.toNat = some (0, 0x80, 0xBF) := if_pos hb
      have hs : utf8Byte ⟨0, kind⟩ b = some ⟨0, kind⟩ := by simp [utf8Byte, hb]
      rw [hl, hs]
      constructor
      · rintro ⟨n, lo, hi, he, ht⟩
        simp only [Option.some.injEq, Prod.mk.injEq] at he
        obtain ⟨rfl, rfl, rfl⟩ := he
        exact ⟨_, rfl, ht⟩
      · rintro ⟨st', he, ht⟩
        cases he
        exact ⟨0, _, _, rfl, ht⟩
    · rw [← utf8Byte_lead b hb kind]
      constructor
      · rintro ⟨n, lo, hi, he, ht⟩
        simp only [Option.map_eq_some_iff, Prod.mk.injEq] at he
        obtain ⟨st', he, rfl, rfl, rfl⟩ := he
        exact ⟨st', he, ht⟩
      · rintro ⟨st', he, ht⟩
        exact ⟨st'.need, st'.kind.lo, st'.kind.hi, by rw [he]; rfl, ht⟩
  | succ n =>
    rw [utf8Byte_tail]
    show (∃ b' r, b :: t = b' :: r ∧ _) ↔ _
    constructor
    · rintro ⟨b', r, he, h1, h2, ht⟩
      simp only [List.cons.injEq] at he
      obtain ⟨rfl, rfl⟩ := he
      exact ⟨_, if_pos ⟨h1, h2⟩, ht⟩
    · rintro ⟨st', he, ht⟩
      split_ifs at he with h12
      cases he
      exact ⟨b, t, rfl, h12.1, h12.2, ht⟩

theorem wsUtf8Feed_append (st : Utf8St) (p q : Bytes) :
    wsUtf8Feed st (p ++ q) = (wsUtf8Feed st p).bind fun st' => wsUtf8Feed st' q := by
  induction p generalizing st with
  | nil => rfl
  | cons b p ih =>
    simp only [List.cons_append, wsUtf8Feed]
    cases utf8Byte st b with
    | none => rfl
    | some st' => exact ih st'

/-- feeding `p` leaves exactly what may follow it -/
theorem wsUtf8Feed_denotes (st : Utf8St) (p t : Bytes) :
    st.Denotes (p ++ t) ↔ ∃ st', wsUtf8Feed st p = some st' ∧ st'.Denotes t := by
  induction p generalizing st with
  | nil => simp [wsUtf8Feed]
  | cons b p ih =>
    simp only [List.cons_append, utf8Byte_denotes, ih, wsUtf8Feed, Option.bind_eq_some_iff]
    constructor
    · rintro ⟨st1, h1, st2, h2, ht⟩
      exact ⟨st2, ⟨st1, h1, h2⟩, ht⟩
    · rintro ⟨st2, ⟨st1, h1, h2⟩, ht⟩
      exact ⟨st1, h1, st2, h2, ht⟩

theorem denotes_reset (t : Bytes) : wsUtf8Reset.Denotes t ↔ Utf8.WellFormed t := Iff.rfl

/-- nothing may follow exactly when no continuation byte is owed -/
theorem denotes_nil (st : Utf8St) : st.Denotes [] ↔ wsUtf8Done st = true := by
  obtain ⟨need, kind⟩ := st
  cases need with
  | zero => simp [wsUtf8Done, Utf8St.Denotes, Utf8.After, Utf8.wellFormed_nil]
  | succ n => simp [wsUtf8Done, Utf8St.Denotes, Utf8.After]

theorem denotes_nonempty (st : Utf8St) : ∃ t, st.Denotes t :=
  Utf8.After.nonempty _ _ _ (by cases st.kind <;> decide) (by cases st.kind <;> decide)

/-- **The validator accepts exactly the prefixes of well-formed strings.** -/
theorem wsUtf8Feed_viable (p : Bytes) : Utf8.Viable p ↔ (wsUtf8Feed wsUtf8Reset p).isSome = true := by
  unfold Utf8.Viable
  simp only [← denotes_reset, wsUtf8Feed_denotes, Option.isSome_iff_exists]
  constructor
  · rintro ⟨t, st, hst, -⟩
    exact ⟨st, hst⟩
  · rintro ⟨st, hst⟩
    obtain ⟨t, ht⟩ := denotes_nonempty st
    exact ⟨t, st, hst, ht⟩

/-- **It is done exactly on the well-formed ones.** -/
theorem wsUtf8Feed_wellFormed (p : Bytes) :
    Utf8.WellFormed p ↔ ∃ st, wsUtf8Feed wsUtf8Reset p = some st ∧ wsUtf8Done st = true := by
  have h := wsUtf8Feed_denotes wsUtf8Reset p []
  rw [List.append_nil, denotes_reset] at h
  simpa only [denotes_nil] using h

instance (p : Bytes) : Decidable (Utf8.Viable p) := decidable_of_iff _ (wsUtf8Feed_viable p).symm

instance (p : Bytes) : Decidable (Utf8.WellFormed p) :=
  decidable_of_iff (((wsUtf8Feed wsUtf8Reset p).map wsUtf8Done) = some true) (by
    rw [wsUtf8Feed_wellFormed, Option.map_eq_some_iff])

theorem Viable.of_append {p q : Bytes} (h : Utf8.Viable (p ++ q)) : Utf8.Viable p := by
  obtain ⟨t, ht⟩ := h
  exact ⟨q ++ t, by rwa [List.append_assoc] at ht⟩

end Ws

end WsServer
