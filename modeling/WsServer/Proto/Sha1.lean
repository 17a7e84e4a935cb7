/-
`src/sha1.c`: the digest of the opening handshake.

`Sha1` is `Sha1_t` without the stale part of its block buffer: `buf` holds the `bufLen` bytes that are not compressed
yet. Words are `UInt32`, so the additions and rotations wrap as in C.

- `sha1Update_totalLen`, `length_sha1Update_buf`: the byte count, and that less than a block stays behind.
- `length_sha1`: a digest has 20 bytes.
- `sha1Block_compress`: one block is compressed as FIPS 180 says (`Core/Fips180.lean`).
- `sha1_chunks`: exactly the blocks of the padded message are compressed, however it is cut into calls.
-/
import Mathlib
import WsServer.Core.Fips180
import WsServer.Proto.Ws

namespace WsServer

structure Sha1 where
  h : List UInt32
  totalLen : ℕ
  buf : Bytes
deriving DecidableEq, Repr

def rotl32 (x n : UInt32) : UInt32 := (x <<< n) ||| (x >>> (32 - n))

def sha1Init : Sha1 := ⟨[0x67452301, 0xEFCDAB89, 0x98BADCFE, 0x10325476, 0xC3D2E1F0], 0, []⟩

/-- the sixteen words of a block, first word first -/
def blockWords : Bytes → List UInt32
  | b0 :: b1 :: b2 :: b3 :: bs =>
    (b0.toUInt32 <<< 24 ||| b1.toUInt32 <<< 16 ||| b2.toUInt32 <<< 8 ||| b3.toUInt32) :: blockWords bs
  | _ => []

/-- `n` more words of the schedule; the words so far are held last word first -/
def extendWords : ℕ → List UInt32 → List UInt32
  | 0, ws => ws
  | n + 1, ws =>
    extendWords n (rotl32 (ws.getD 2 0 ^^^ ws.getD 7 0 ^^^ ws.getD 13 0 ^^^ ws.getD 15 0) 1 :: ws)

def schedule (block : Bytes) : List UInt32 := (extendWords 64 (blockWords block).reverse).reverse

/-- the function and the constant of round `i` -/
def roundFK (i : ℕ) (b c d : UInt32) : UInt32 × UInt32 :=
  if i < 20 then ((b &&& c) ||| (~~~b &&& d), 0x5A827999)
  else if i < 40 then (b ^^^ c ^^^ d, 0x6ED9EBA1)
  else if i < 60 then ((b &&& c) ||| (b &&& d) ||| (c &&& d), 0x8F1BBCDC)
  else (b ^^^ c ^^^ d, 0xCA62C1D6)

/-- the rounds from `i` on -/
def rounds : ℕ → List UInt32 → UInt32 × UInt32 × UInt32 × UInt32 × UInt32 → UInt32 × UInt32 × UInt32 × UInt32 × UInt32
  | _, [], v => v
  | i, w :: ws, (a, b, c, d, e) =>
    let fk := roundFK i b c d
    rounds (i + 1) ws (rotl32 a 5 + fk.1 + e + fk.2 + w, a, rotl32 b 30, c, d)

/-- `sha1Block` on the chaining words -/
def sha1Block (h : List UInt32) (block : Bytes) : List UInt32 :=
  match rounds 0 (schedule block) (h.getD 0 0, h.getD 1 0, h.getD 2 0, h.getD 3 0, h.getD 4 0) with
  | (a, b, c, d, e) => [h.getD 0 0 + a, h.getD 1 0 + b, h.getD 2 0 + c, h.getD 3 0 + d, h.getD 4 0 + e]

/-- `while (n >= 64)`: the whole blocks of `p`, and what is left of it -/
def sha1Blocks : ℕ → List UInt32 → Bytes → List UInt32 × Bytes
  | 0, h, p => (h, p)
  | fuel + 1, h, p => if 64 ≤ p.length then sha1Blocks fuel (sha1Block h (p.take 64)) (p.drop 64) else (h, p)

def sha1Update (c : Sha1) (data : Bytes) : Sha1 :=
  let total := c.totalLen + data.length
  if 0 < c.buf.length then
    let take := min data.length (64 - c.buf.length)
    let buf := c.buf ++ data.take take
    let p := data.drop take
    if buf.length = 64 then
      let r := sha1Blocks p.length (sha1Block c.h buf) p
      ⟨r.1, total, r.2⟩
    else ⟨c.h, total, buf⟩
  else
    let r := sha1Blocks data.length c.h data
    ⟨r.1, total, r.2⟩

/-- the last block or two: 0x80, zeros, the bit length -/
def sha1Final (c : Sha1) : Bytes :=
  let bitLen := c.totalLen * 8 % 2 ^ 64
  let lenBytes := (List.range 8).map fun i => UInt8.ofNat (bitLen >>> (56 - 8 * i))
  let buf := c.buf ++ [0x80]
  let h : List UInt32 :=
    if 56 < buf.length then
      sha1Block (sha1Block c.h (buf ++ List.replicate (64 - buf.length) 0)) (List.replicate 56 0 ++ lenBytes)
    else sha1Block c.h (buf ++ List.replicate (56 - buf.length) 0 ++ lenBytes)
  h.flatMap fun w : UInt32 => [(w >>> 24).toUInt8, (w >>> 16).toUInt8, (w >>> 8).toUInt8, w.toUInt8]

def sha1 (data : Bytes) : Bytes := sha1Final (sha1Update sha1Init data)

theorem length_sha1Block (h : List UInt32) (block : Bytes) : (sha1Block h block).length = 5 := by
  simp [sha1Block]

theorem length_sha1Blocks_rest (fuel : ℕ) (h : List UInt32) (p : Bytes) (hfuel : p.length ≤ fuel) :
    (sha1Blocks fuel h p).2.length < 64 := by
  induction fuel generalizing h p with
  | zero => simp [sha1Blocks]; omega
  | succ fuel ih =>
    unfold sha1Blocks
    split_ifs with hlen
    · exact ih _ _ (by simp; omega)
    · show p.length < 64
      omega

theorem sha1Update_totalLen (c : Sha1) (data : Bytes) : (sha1Update c data).totalLen = c.totalLen + data.length := by
  unfold sha1Update
  dsimp only
  split_ifs <;> rfl

/-- less than a block waits for the next call -/
theorem length_sha1Update_buf (c : Sha1) (data : Bytes) (hc : c.buf.length < 64) :
    (sha1Update c data).buf.length < 64 := by
  unfold sha1Update
  dsimp only
  split_ifs with h1 h2
  · exact length_sha1Blocks_rest _ _ _ le_rfl
  · simp only [List.length_append, List.length_take] at h2 ⊢
    omega
  · exact length_sha1Blocks_rest _ _ _ le_rfl

theorem length_sha1Final (c : Sha1) : (sha1Final c).length = 20 := by
  unfold sha1Final
  dsimp only
  rw [List.length_flatMap]
  simp only [List.length_cons, List.length_nil, List.map_const', List.sum_replicate]
  split_ifs <;> simp [length_sha1Block]

theorem length_sha1 (data : Bytes) : (sha1 data).length = 20 := length_sha1Final _

/-- the digest of "abc" -/
example : sha1 [0x61, 0x62, 0x63] = [0xA9, 0x99, 0x3E, 0x36, 0x47, 0x06, 0x81, 0x6A, 0xBA, 0x3E, 0x25, 0x71, 0x78,
    0x50, 0xC2, 0x6C, 0x9C, 0xD0, 0xD8, 0x9D] := by decide +kernel

/-! ## One block -/

/-- the chaining words as FIPS 180 names them -/
def wordsOf (h : List UInt32) : Fips180.Words := ⟨h.getD 0 0, h.getD 1 0, h.getD 2 0, h.getD 3 0, h.getD 4 0⟩

theorem or_eq_xor_ch (x y z : UInt32) : (x &&& y) ||| (~~~x &&& z) = Fips180.Ch x y z := by
  unfold Fips180.Ch
  apply UInt32.toBitVec_inj.1
  ext i hi
  simp only [UInt32.toBitVec_or, UInt32.toBitVec_and, UInt32.toBitVec_not, UInt32.toBitVec_xor, BitVec.getElem_or,
    BitVec.getElem_and, BitVec.getElem_not, BitVec.getElem_xor]
  cases x.toBitVec[i] <;> simp

theorem or_eq_xor_maj (x y z : UInt32) : (x &&& y) ||| (x &&& z) ||| (y &&& z) = Fips180.Maj x y z := by
  unfold Fips180.Maj
  apply UInt32.toBitVec_inj.1
  ext i hi
  simp only [UInt32.toBitVec_or, UInt32.toBitVec_and, UInt32.toBitVec_xor, BitVec.getElem_or,
    BitVec.getElem_and, BitVec.getElem_xor]
  cases x.toBitVec[i] <;> cases y.toBitVec[i] <;> cases z.toBitVec[i] <;> rfl

theorem roundFK_eq (i : ℕ) (b c d : UInt32) : roundFK i b c d = (Fips180.f i b c d, Fips180.K i) := by
  unfold roundFK Fips180.f Fips180.K
  split_ifs
  · rw [or_eq_xor_ch]
  · rfl
  · rw [or_eq_xor_maj]
  · rfl

/-- four bytes of a block as the code joins them -/
theorem word_eq (b0 b1 b2 b3 : UInt8) :
    b0.toUInt32 <<< 24 ||| b1.toUInt32 <<< 16 ||| b2.toUInt32 <<< 8 ||| b3.toUInt32 =
      UInt32.ofNat (BigEndian.value [b0, b1, b2, b3]) := by
  have h0 : b0.toNat < 256 := b0.toNat_lt
  have h1 : b1.toNat < 256 := b1.toNat_lt
  have h2 : b2.toNat < 256 := b2.toNat_lt
  have h3 : b3.toNat < 256 := b3.toNat_lt
  have hor : b0.toNat <<< 24 ||| b1.toNat <<< 16 ||| b2.toNat <<< 8 ||| b3.toNat =
      b0.toNat * 2 ^ 24 + b1.toNat * 2 ^ 16 + b2.toNat * 2 ^ 8 + b3.toNat := by
    rw [Nat.or_assoc, Nat.or_assoc, ← Nat.shiftLeft_add_eq_or_of_lt (show b3.toNat < 2 ^ 8 from h3),
      Nat.shiftLeft_eq b2.toNat, ← Nat.shiftLeft_add_eq_or_of_lt (show b2.toNat * 2 ^ 8 + b3.toNat < 2 ^ 16 by omega),
      Nat.shiftLeft_eq b1.toNat, ← Nat.shiftLeft_add_eq_or_of_lt
        (show b1.toNat * 2 ^ 16 + (b2.toNat * 2 ^ 8 + b3.toNat) < 2 ^ 24 by omega), Nat.shiftLeft_eq]
    omega
  have hval : BigEndian.value [b0, b1, b2, b3] =
      b0.toNat * 2 ^ 24 + b1.toNat * 2 ^ 16 + b2.toNat * 2 ^ 8 + b3.toNat := by
    simp only [BigEndian.value, List.foldl_cons, List.foldl_nil]
    omega
  have hshift : ∀ (b : UInt8) (k : ℕ), b.toNat < 256 → k ≤ 24 → b.toNat <<< k % 2 ^ 32 = b.toNat <<< k := by
    intro b k hb hk
    apply Nat.mod_eq_of_lt
    rw [Nat.shiftLeft_eq]
    calc b.toNat * 2 ^ k < 2 ^ 8 * 2 ^ k := Nat.mul_lt_mul_of_pos_right hb (Nat.two_pow_pos k)
      _ = 2 ^ (8 + k) := (pow_add 2 8 k).symm
      _ ≤ 2 ^ 32 := Nat.pow_le_pow_right (by norm_num) (by omega)
  rw [← UInt32.toNat_inj, UInt32.toNat_ofNat', hval]
  simp only [UInt32.toNat_or, UInt32.toNat_shiftLeft, UInt8.toNat_toUInt32]
  show b0.toNat <<< 24 % 2 ^ 32 ||| b1.toNat <<< 16 % 2 ^ 32 ||| b2.toNat <<< 8 % 2 ^ 32 ||| b3.toNat = _
  rw [hshift b0 24 h0 (by norm_num), hshift b1 16 h1 (by norm_num), hshift b2 8 h2 (by norm_num), hor, Nat.mod_eq_of_lt]
  omega

theorem blockWords_eq (n : ℕ) (block : Bytes) (h : block.length = 4 * n) :
    blockWords block = (List.range n).map (Fips180.M block) := by
  induction n generalizing block with
  | zero =>
    rw [List.length_eq_zero_iff.1 h]
    rfl
  | succ n ih =>
    match block, h with
    | b0 :: b1 :: b2 :: b3 :: bs, h =>
      have hbs : bs.length = 4 * n := by
        simp only [List.length_cons] at h
        omega
      rw [blockWords, word_eq, ih bs hbs, List.range_succ_eq_map, List.map_cons, List.map_map]
      rfl


/-- the words so far, last first, and `n` more of them -/
theorem extendWords_eq (block : Bytes) (n k : ℕ) (hk : 16 ≤ k) :
    extendWords n ((List.range k).map (Fips180.W block)).reverse =
      ((List.range (k + n)).map (Fips180.W block)).reverse := by
  induction n generalizing k with
  | zero => rfl
  | succ n ih =>
    have hget : ∀ j, j < k → (((List.range k).map (Fips180.W block)).reverse).getD j 0 = Fips180.W block (k - 1 - j) := by
      intro j hj
      rw [List.getD_eq_getElem _ _ (by simpa using hj), List.getElem_reverse, List.getElem_map, List.getElem_range]
      simp
    have hword : Fips180.W block k =
        rotl32 (Fips180.W block (k - 3) ^^^ Fips180.W block (k - 8) ^^^ Fips180.W block (k - 14) ^^^
          Fips180.W block (k - 16)) 1 := by
      rw [Fips180.W, if_neg (by omega)]
      rfl
    have hnext := ih (k + 1) (by omega)
    rw [List.range_succ, List.map_append, List.reverse_append, List.map_singleton, List.reverse_singleton,
      List.singleton_append] at hnext
    rw [extendWords, hget 2 (by omega), hget 7 (by omega), hget 13 (by omega), hget 15 (by omega)]
    rw [show k - 1 - 2 = k - 3 by omega, show k - 1 - 7 = k - 8 by omega, show k - 1 - 13 = k - 14 by omega,
      show k - 1 - 15 = k - 16 by omega, ← hword, hnext, Nat.add_right_comm k 1 n, Nat.add_assoc k n 1]

theorem schedule_eq {block : Bytes} (h : block.length = 64) :
    schedule block = (List.range 80).map (Fips180.W block) := by
  have hfirst : blockWords block = (List.range 16).map (Fips180.W block) := by
    rw [blockWords_eq 16 block h]
    apply List.map_congr_left
    intro t ht
    rw [Fips180.W, if_pos (List.mem_range.1 ht)]
  unfold schedule
  rw [hfirst, extendWords_eq block 64 16 le_rfl, List.reverse_reverse]

/-- the rounds one after the other -/
theorem rounds_eq (block : Bytes) (n i : ℕ) (v : Fips180.Words) :
    rounds i ((List.range' i n).map (Fips180.W block)) (v.a, v.b, v.c, v.d, v.e) =
      let r := (List.range' i n).foldl (Fips180.round block) v
      (r.a, r.b, r.c, r.d, r.e) := by
  induction n generalizing i v with
  | zero => rfl
  | succ n ih =>
    rw [List.range'_succ, List.map_cons, List.foldl_cons, rounds, roundFK_eq]
    exact ih (i + 1) (Fips180.round block v i)

/-- **One block of the code is one block of the standard.** -/
theorem sha1Block_compress (h : List UInt32) {block : Bytes} (hb : block.length = 64) :
    wordsOf (sha1Block h block) = Fips180.compress (wordsOf h) block := by
  have hr := rounds_eq block 80 0 (wordsOf h)
  rw [← List.range_eq_range', ← schedule_eq hb] at hr
  unfold sha1Block
  simp only [wordsOf] at hr ⊢
  rw [hr]
  simp only [Fips180.compress, UInt32.add_comm, List.getD_cons_zero, List.getD_cons_succ]

/-! ## Which blocks are compressed -/

/-- the blocks of `while (n >= 64)` -/
def loopBlocks : ℕ → Bytes → List Bytes
  | 0, _ => []
  | fuel + 1, p => if 64 ≤ p.length then p.take 64 :: loopBlocks fuel (p.drop 64) else []

/-- the calls of `sha1Block` in one `sha1Update`, by their blocks -/
def updateBlocks (c : Sha1) (data : Bytes) : List Bytes :=
  if 0 < c.buf.length then
    let take := min data.length (64 - c.buf.length)
    let buf := c.buf ++ data.take take
    let p := data.drop take
    if buf.length = 64 then buf :: loopBlocks p.length p else []
  else loopBlocks data.length data

/-- the calls of `sha1Block` in `sha1Final` -/
def finalBlocks (c : Sha1) : List Bytes :=
  let bitLen := c.totalLen * 8 % 2 ^ 64
  let lenBytes := (List.range 8).map fun i => UInt8.ofNat (bitLen >>> (56 - 8 * i))
  let buf := c.buf ++ [0x80]
  if 56 < buf.length then [buf ++ List.replicate (64 - buf.length) 0, List.replicate 56 0 ++ lenBytes]
  else [buf ++ List.replicate (56 - buf.length) 0 ++ lenBytes]

/-- the digest of the chaining words -/
def digestBytes (h : List UInt32) : Bytes :=
  h.flatMap fun w : UInt32 => [(w >>> 24).toUInt8, (w >>> 16).toUInt8, (w >>> 8).toUInt8, w.toUInt8]

theorem sha1Blocks_loop (fuel : ℕ) (h : List UInt32) (p : Bytes) :
    (sha1Blocks fuel h p).1 = (loopBlocks fuel p).foldl sha1Block h := by
  induction fuel generalizing h p with
  | zero => rfl
  | succ fuel ih =>
    unfold sha1Blocks loopBlocks
    split_ifs with hlen
    · exact ih _ _
    · rfl

theorem sha1Update_h (c : Sha1) (data : Bytes) : (sha1Update c data).h = (updateBlocks c data).foldl sha1Block c.h := by
  unfold sha1Update updateBlocks
  dsimp only
  split_ifs with hbuf hfull
  · exact sha1Blocks_loop _ _ _
  · rfl
  · exact sha1Blocks_loop _ _ _

theorem sha1Final_blocks (c : Sha1) : sha1Final c = digestBytes ((finalBlocks c).foldl sha1Block c.h) := by
  unfold sha1Final finalBlocks digestBytes
  dsimp only
  split_ifs <;> rfl

theorem loop_whole (fuel : ℕ) (h : List UInt32) (p : Bytes) (hfuel : p.length ≤ fuel) :
    loopBlocks fuel p = Blocks.whole 64 p ∧ (sha1Blocks fuel h p).2 = Blocks.rest 64 p := by
  induction fuel generalizing h p with
  | zero =>
    obtain rfl := List.length_eq_zero_iff.1 (Nat.le_zero.1 hfuel)
    exact ⟨rfl, rfl⟩
  | succ fuel ih =>
    unfold sha1Blocks loopBlocks
    split_ifs with hlen
    · have hb : (p.take 64).length = 64 := List.length_take_of_le hlen
      obtain ⟨h1, h2⟩ := ih (sha1Block h (p.take 64)) (p.drop 64) (by rw [List.length_drop]; omega)
      have hw := Blocks.whole_block (by norm_num) hb (p.drop 64)
      have hr := Blocks.rest_block (by norm_num) hb (p.drop 64)
      rw [List.take_append_drop] at hw hr
      rw [h1, h2, hw, hr]
      exact ⟨rfl, rfl⟩
    · rw [Blocks.whole_short (by omega), Blocks.rest_short (by omega)]
      exact ⟨rfl, rfl⟩

/-- **One call of `sha1Update`**: the whole blocks of what was left and what comes, and the rest is left. -/
theorem sha1Update_spec (c : Sha1) (data : Bytes) (hc : c.buf.length < 64) :
    updateBlocks c data = Blocks.whole 64 (c.buf ++ data) ∧ (sha1Update c data).buf = Blocks.rest 64 (c.buf ++ data) := by
  unfold updateBlocks sha1Update
  dsimp only
  split_ifs with hbuf hfull
  · obtain ⟨h1, h2⟩ := loop_whole (data.drop (min data.length (64 - c.buf.length))).length
      (sha1Block c.h (c.buf ++ data.take (min data.length (64 - c.buf.length)))) _ le_rfl
    have hsplit : c.buf ++ data = (c.buf ++ data.take (min data.length (64 - c.buf.length))) ++
        data.drop (min data.length (64 - c.buf.length)) := by
      rw [List.append_assoc, List.take_append_drop]
    rw [h1, h2, hsplit, Blocks.whole_block (by norm_num) hfull, Blocks.rest_block (by norm_num) hfull]
    exact ⟨rfl, rfl⟩
  · -- the data ends before the block is full
    have hshort : data.length ≤ 64 - c.buf.length := by
      by_contra hlong
      apply hfull
      rw [List.length_append, List.length_take]
      omega
    rw [Nat.min_eq_left hshort, List.take_length] at hfull ⊢
    rw [List.length_append] at hfull
    have hlt : (c.buf ++ data).length < 64 := by
      rw [List.length_append]
      omega
    rw [Blocks.whole_short hlt, Blocks.rest_short hlt]
    exact ⟨rfl, rfl⟩
  · obtain ⟨h1, h2⟩ := loop_whole data.length c.h data le_rfl
    rw [List.length_eq_zero_iff.1 (Nat.eq_zero_of_not_pos hbuf), List.nil_append]
    exact ⟨h1, h2⟩

/-- the blocks of a run of calls -/
def runBlocks : Sha1 → List Bytes → List Bytes
  | _, [] => []
  | c, data :: chunks => updateBlocks c data ++ runBlocks (sha1Update c data) chunks

/-- what `sha1Init`, `sha1Update` on every chunk and `sha1Final` compress -/
def compressedBlocks (chunks : List Bytes) : List Bytes :=
  runBlocks sha1Init chunks ++ finalBlocks (chunks.foldl sha1Update sha1Init)

/-- what holds between the calls: the blocks so far are those of the chunks put together -/
theorem sha1Update_run (chunks : List Bytes) (c : Sha1) (hc : c.buf.length < 64) :
    runBlocks c chunks = Blocks.whole 64 (c.buf ++ chunks.flatten) ∧
      (chunks.foldl sha1Update c).buf = Blocks.rest 64 (c.buf ++ chunks.flatten) ∧
      (chunks.foldl sha1Update c).h = (runBlocks c chunks).foldl sha1Block c.h ∧
      (chunks.foldl sha1Update c).totalLen = c.totalLen + chunks.flatten.length := by
  induction chunks generalizing c with
  | nil =>
    rw [List.flatten_nil, List.append_nil, Blocks.whole_short hc, Blocks.rest_short hc]
    exact ⟨rfl, rfl, rfl, rfl⟩
  | cons data chunks ih =>
    obtain ⟨hblocks, hbuf⟩ := sha1Update_spec c data hc
    obtain ⟨h1, h2, h3, h4⟩ := ih (sha1Update c data) (length_sha1Update_buf c data hc)
    rw [List.flatten_cons, ← List.append_assoc, Blocks.whole_append (by norm_num) (c.buf ++ data),
      Blocks.rest_append (by norm_num) (c.buf ++ data), ← hbuf, ← hblocks, List.foldl_cons, runBlocks, h1]
    refine ⟨rfl, h2, ?_, ?_⟩
    · rw [h3, h1, sha1Update_h, List.foldl_append]
    · rw [h4, sha1Update_totalLen, List.length_append, Nat.add_assoc]

/-- the length as the code writes it -/
theorem lenBytes_eq (n : ℕ) :
    (List.range 8).map (fun i => UInt8.ofNat (n >>> (56 - 8 * i))) = BigEndian.bytes 8 n := by
  simp only [BigEndian.bytes, List.range_succ, List.range_zero, List.nil_append, List.cons_append, List.map_cons,
    List.map_nil, Nat.shiftRight_eq_div_pow, Nat.div_div_eq_div_mul]
  norm_num

/-- **The end**: the rest of the message and the padding, in one block or two. -/
theorem finalBlocks_spec {c : Sha1} {m : Bytes} (hbuf : c.buf = Blocks.rest 64 m) (htotal : c.totalLen = m.length)
    (hlen : m.length < 2 ^ 61) : finalBlocks c = Blocks.whole 64 (c.buf ++ Fips180.padding m.length) := by
  have hrest : c.buf.length = m.length % 64 := by rw [hbuf, Blocks.length_rest]
  have hbits : c.totalLen * 8 % 2 ^ 64 = 8 * m.length := by
    rw [htotal]
    omega
  have hmod : m.length % 64 < 64 := Nat.mod_lt _ (by norm_num)
  unfold finalBlocks
  dsimp only
  rw [lenBytes_eq, hbits]
  unfold Fips180.padding Fips180.zeros
  rw [List.length_append, List.length_singleton, hrest]
  split_ifs with h56
  · have hzeros : (119 - m.length % 64) % 64 = (64 - (m.length % 64 + 1)) + 56 := by omega
    have hfirst : (c.buf ++ [0x80] ++ List.replicate (64 - (m.length % 64 + 1)) 0).length = 64 := by
      simp only [List.length_append, List.length_singleton, List.length_replicate, hrest]
      omega
    have hlast : (List.replicate 56 0 ++ BigEndian.bytes 8 (8 * m.length)).length = 64 := by simp
    have hsplit : c.buf ++ (0x80 :: List.replicate (64 - (m.length % 64 + 1) + 56) 0 ++
        BigEndian.bytes 8 (8 * m.length)) =
        (c.buf ++ [0x80] ++ List.replicate (64 - (m.length % 64 + 1)) 0) ++
          (List.replicate 56 0 ++ BigEndian.bytes 8 (8 * m.length) ++ []) := by
      rw [List.replicate_add]
      simp only [List.append_assoc, List.cons_append, List.nil_append, List.append_nil]
    rw [hzeros, hsplit, Blocks.whole_block (by norm_num) hfirst, Blocks.whole_block (by norm_num) hlast]
    rfl
  · have hzeros : (119 - m.length % 64) % 64 = 56 - (m.length % 64 + 1) := by omega
    have hfirst : (c.buf ++ [0x80] ++ List.replicate (56 - (m.length % 64 + 1)) 0 ++
        BigEndian.bytes 8 (8 * m.length)).length = 64 := by
      simp only [List.length_append, List.length_singleton, List.length_replicate, hrest, BigEndian.length_bytes]
      omega
    have hsplit : c.buf ++ (0x80 :: List.replicate (56 - (m.length % 64 + 1)) 0 ++ BigEndian.bytes 8 (8 * m.length)) =
        (c.buf ++ [0x80] ++ List.replicate (56 - (m.length % 64 + 1)) 0 ++ BigEndian.bytes 8 (8 * m.length)) ++ [] := by
      simp only [List.append_assoc, List.cons_append, List.nil_append, List.append_nil]
    rw [hzeros, hsplit, Blocks.whole_block (by norm_num) hfirst]
    rfl

/-- **Exactly the padded message is compressed**, however it was cut. -/
theorem compressedBlocks_eq {chunks : List Bytes} (hlen : chunks.flatten.length < 2 ^ 61) :
    compressedBlocks chunks = Blocks.whole 64 (Fips180.pad chunks.flatten) := by
  obtain ⟨hblocks, hbuf, -, htotal⟩ := sha1Update_run chunks sha1Init (by decide)
  have hnil : sha1Init.buf ++ chunks.flatten = chunks.flatten := List.nil_append _
  rw [hnil] at hblocks hbuf
  have hfinal := finalBlocks_spec hbuf (by rw [htotal]; exact Nat.zero_add _) hlen
  unfold compressedBlocks Fips180.pad
  rw [Blocks.whole_append (by norm_num), hfinal, hbuf, hblocks]

/-! ## The digest -/

theorem wordBytes_eq (w : UInt32) :
    [(w >>> 24).toUInt8, (w >>> 16).toUInt8, (w >>> 8).toUInt8, w.toUInt8] = BigEndian.bytes 4 w.toNat := by
  have hshift : ∀ k : UInt32, (w >>> k).toUInt8 = UInt8.ofNat (w.toNat / 2 ^ (k.toNat % 32)) := by
    intro k
    rw [← UInt8.toNat_inj, UInt32.toNat_toUInt8, UInt32.toNat_shiftRight, Nat.shiftRight_eq_div_pow, UInt8.toNat_ofNat']
  have hlast : w.toUInt8 = UInt8.ofNat w.toNat := by
    rw [← UInt8.toNat_inj, UInt32.toNat_toUInt8, UInt8.toNat_ofNat']
  rw [hshift 24, hshift 16, hshift 8, hlast]
  simp only [BigEndian.bytes, Nat.div_div_eq_div_mul, List.nil_append, List.cons_append]
  rfl

theorem digestBytes_eq {h : List UInt32} (hlen : h.length = 5) : digestBytes h = (wordsOf h).bytes := by
  match h, hlen with
  | [a, b, c, d, e], _ =>
    unfold digestBytes Fips180.Words.bytes
    simp only [wordBytes_eq]
    rfl

/-- block after block, from five words on -/
theorem foldl_compress (bs : List Bytes) (hbs : ∀ b ∈ bs, b.length = 64) (h : List UInt32) (hlen : h.length = 5) :
    wordsOf (bs.foldl sha1Block h) = bs.foldl Fips180.compress (wordsOf h) ∧ (bs.foldl sha1Block h).length = 5 := by
  induction bs generalizing h with
  | nil => exact ⟨rfl, hlen⟩
  | cons b bs ih =>
    rw [List.foldl_cons, List.foldl_cons, ← sha1Block_compress h (hbs b List.mem_cons_self)]
    exact ih (fun x hx => hbs x (List.mem_cons_of_mem b hx)) _ (length_sha1Block h b)

theorem digest_chunks {chunks : List Bytes} (hlen : chunks.flatten.length < 2 ^ 61) :
    sha1Final (chunks.foldl sha1Update sha1Init) = Fips180.sha1 chunks.flatten := by
  obtain ⟨-, -, hh, -⟩ := sha1Update_run chunks sha1Init (by decide)
  have hfold : (finalBlocks (chunks.foldl sha1Update sha1Init)).foldl sha1Block (chunks.foldl sha1Update sha1Init).h =
      (compressedBlocks chunks).foldl sha1Block sha1Init.h := by
    unfold compressedBlocks
    rw [hh, List.foldl_append]
  have hsize : ∀ b ∈ Blocks.whole 64 (Fips180.pad chunks.flatten), b.length = 64 := fun b => Blocks.length_of_mem_whole
  obtain ⟨hwords, hfive⟩ := foldl_compress _ hsize sha1Init.h rfl
  rw [sha1Final_blocks, hfold, compressedBlocks_eq hlen, digestBytes_eq hfive, hwords]
  rfl

theorem sha1_eq {data : Bytes} (hlen : data.length < 2 ^ 61) : sha1 data = Fips180.sha1 data := by
  have h := @digest_chunks [data] (by simpa using hlen)
  rwa [List.flatten_singleton] at h

/-- **SHA-1, however the message is cut.** `sha1Init`, `sha1Update` on every chunk and `sha1Final` compress exactly the
blocks of the padded message, and give its FIPS 180 digest. -/
theorem sha1_chunks (chunks : List Bytes) (hlen : chunks.flatten.length < 2 ^ 61) :
    compressedBlocks chunks = Blocks.whole 64 (Fips180.pad chunks.flatten) ∧
      sha1Final (chunks.foldl sha1Update sha1Init) = Fips180.sha1 chunks.flatten :=
  ⟨compressedBlocks_eq hlen, digest_chunks hlen⟩

theorem sha1_chunks_abc :
    compressedBlocks [[0x61], [], [0x62, 0x63]] = Blocks.whole 64 (Fips180.pad [0x61, 0x62, 0x63]) ∧
      sha1Final ([[0x61], [], [0x62, 0x63]].foldl sha1Update sha1Init) = Fips180.sha1 [0x61, 0x62, 0x63] :=
  sha1_chunks [[0x61], [], [0x62, 0x63]] (by decide)

end WsServer
