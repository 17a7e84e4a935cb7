/-
`src/base64.c`: base64 of handshake keys and digests.

Characters are bytes; the NUL that `base64Encode` writes behind its output is not part of the value.

- `length_base64Encode`: `base64EncodedLen` is the length of the output.
- `base64DecodedLen_base64Encode`: an encoding is accepted, and its decoded length is the length of the input.
- `base64_exact`: decoding undoes encoding; what is accepted is whole quads of the alphabet with at most two `'='` at the
  end, and is encoded back unless bits of its last character are lost.
-/
import Mathlib
import WsServer.Proto.Ws

namespace WsServer

open Ws

/-- a string literal of the source as bytes -/
def ascii (s : String) : Bytes := s.toList.map fun ch => UInt8.ofNat ch.toNat

def ENC_TABLE : Bytes := ascii "ABCDEFGHIJKLMNOPQRSTUVWXYZabcdefghijklmnopqrstuvwxyz0123456789+/"

/-- the character of the low six bits of `v` -/
def encChar (v : ℕ) : UInt8 := ENC_TABLE.getD (v &&& 0x3F) 0

/-- the value of a character, 64 for `'='`; `none` is -1 -/
def decodeChar (c : UInt8) : Option ℕ :=
  if 0x41 ≤ c ∧ c ≤ 0x5A then some (c.toNat - 0x41)
  else if 0x61 ≤ c ∧ c ≤ 0x7A then some (c.toNat - 0x61 + 26)
  else if 0x30 ≤ c ∧ c ≤ 0x39 then some (c.toNat - 0x30 + 52)
  else if c = 0x2B then some 62
  else if c = 0x2F then some 63
  else if c = 0x3D then some 64
  else none

def base64EncodedLen (n : ℕ) : ℕ := (n + 2) / 3 * 4

def base64Encode : Bytes → Bytes
  | x :: y :: z :: r =>
    let v := (x.toNat <<< 16) ||| (y.toNat <<< 8) ||| z.toNat
    encChar (v >>> 18) :: encChar (v >>> 12) :: encChar (v >>> 6) :: encChar v :: base64Encode r
  | [x, y] =>
    let v := (x.toNat <<< 16) ||| (y.toNat <<< 8)
    [encChar (v >>> 18), encChar (v >>> 12), encChar (v >>> 6), 0x3D]
  | [x] =>
    let v := x.toNat <<< 16
    [encChar (v >>> 18), encChar (v >>> 12), 0x3D, 0x3D]
  | [] => []

/-- the number of `'='` at the end, at most two -/
def padLen (s : Bytes) : ℕ :=
  if s.getD (s.length - 1) 0 = 0x3D then (if s.getD (s.length - 2) 0 = 0x3D then 2 else 1) else 0

/-- `checkedLen`: decoded length and padding; `none` is -1 -/
def checkedLen (s : Bytes) : Option (ℕ × ℕ) :=
  if s.length = 0 then some (0, 0)
  else if s.length % 4 ≠ 0 then none
  else if ((s.take (s.length - padLen s)).all fun c => (decodeChar c).any (· ≠ 64)) ∧
      ((s.drop (s.length - padLen s)).all (· = 0x3D)) then some (s.length / 4 * 3 - padLen s, padLen s)
  else none

def base64DecodedLen (s : Bytes) : Option ℕ := (checkedLen s).map Prod.fst

/-- the loop of `base64Decode`, four characters at a time -/
def decodeQuads : Bytes → Bytes
  | a :: b :: c :: d :: r =>
    let c0 := (decodeChar a).getD 0
    let c1 := (decodeChar b).getD 0
    let c2 := (decodeChar c).getD 0
    let c3 := (decodeChar d).getD 0
    let v := (c0 <<< 18) ||| (c1 <<< 12) ||| ((c2 &&& 0x3F) <<< 6) ||| (c3 &&& 0x3F)
    UInt8.ofNat (v >>> 16) :: ((if c2 ≠ 64 then [UInt8.ofNat (v >>> 8)] else []) ++
      (if c3 ≠ 64 then [UInt8.ofNat v] else []) ++ decodeQuads r)
  | _ => []

def base64Decode (s : Bytes) : Option Bytes := (checkedLen s).map fun _ => decodeQuads s

/-- a character of the alphabet that is not padding -/
def isEnc (c : UInt8) : Bool := (decodeChar c).any (· ≠ 64)

theorem and_63 (n : ℕ) : n &&& 0x3F = n % 64 := Nat.and_two_pow_sub_one_eq_mod n 6

/-- the table read backwards -/
theorem ENC_TABLE_decode : ENC_TABLE.map decodeChar = (List.range 64).map some := by decide

theorem length_ENC_TABLE : ENC_TABLE.length = 64 := by
  simpa using congrArg List.length ENC_TABLE_decode

theorem decodeChar_getD {i : ℕ} (h : i < 64) : decodeChar (ENC_TABLE.getD i 0) = some i := by
  have hi : i < ENC_TABLE.length := length_ENC_TABLE ▸ h
  have hdec : (ENC_TABLE.map decodeChar)[i]? = ((List.range 64).map some)[i]? := by rw [ENC_TABLE_decode]
  rw [List.getElem?_map, List.getElem?_eq_getElem hi, List.getElem?_map, List.getElem?_range h] at hdec
  rw [List.getD_eq_getElem _ _ hi]
  simpa using hdec

theorem isEnc_encChar (v : ℕ) : isEnc (encChar v) = true := by
  have hlt : v &&& 0x3F < 64 := Nat.lt_of_le_of_lt Nat.and_le_right (by decide)
  unfold isEnc encChar
  rw [decodeChar_getD hlt]
  exact decide_eq_true hlt.ne

theorem isEnc_ne_pad {c : UInt8} (h : isEnc c = true) : c ≠ 0x3D := by
  rintro rfl
  exact absurd h (by decide)

theorem length_base64Encode (x : Bytes) : (base64Encode x).length = base64EncodedLen x.length := by
  fun_induction base64Encode x with
  | case1 x y z r v ih => simp only [List.length_cons, ih, base64EncodedLen]; omega
  | case2 => simp [base64EncodedLen]
  | case3 => simp [base64EncodedLen]
  | case4 => simp [base64EncodedLen]

/-- an encoding is alphabet characters followed by the padding its length asks for -/
theorem base64Encode_shape (x : Bytes) : ∃ body : Bytes, ∃ pad : ℕ, base64Encode x = body ++ List.replicate pad 0x3D ∧
    (∀ c ∈ body, isEnc c = true) ∧ pad = (3 - x.length % 3) % 3 := by
  fun_induction base64Encode x with
  | case1 x y z r v ih =>
    obtain ⟨body, pad, he, hb, hp⟩ := ih
    refine ⟨encChar (v >>> 18) :: encChar (v >>> 12) :: encChar (v >>> 6) :: encChar v :: body, pad, ?_, ?_, ?_⟩
    · rw [he]; rfl
    · intro c hc
      simp only [List.mem_cons] at hc
      rcases hc with rfl | rfl | rfl | rfl | hc
      · exact isEnc_encChar _
      · exact isEnc_encChar _
      · exact isEnc_encChar _
      · exact isEnc_encChar _
      · exact hb c hc
    · simp only [List.length_cons]; omega
  | case2 x y v =>
    refine ⟨[encChar (v >>> 18), encChar (v >>> 12), encChar (v >>> 6)], 1, rfl, ?_, rfl⟩
    simp [isEnc_encChar]
  | case3 x v =>
    refine ⟨[encChar (v >>> 18), encChar (v >>> 12)], 2, rfl, ?_, rfl⟩
    simp [isEnc_encChar]
  | case4 => exact ⟨[], 0, rfl, by simp, rfl⟩

theorem getD_mem {l : Bytes} {i : ℕ} (h : i < l.length) : l.getD i 0 ∈ l := by
  rw [List.getD_eq_getElem _ _ h]; exact List.getElem_mem h

/-- the padding is read back when enough of the body stands before it -/
theorem padLen_append {body : Bytes} {pad : ℕ} (hb : ∀ c ∈ body, isEnc c = true) (h2 : 2 ≤ body.length)
    (hpad : pad ≤ 2) : padLen (body ++ List.replicate pad 0x3D) = pad := by
  have hlast : ∀ i, i < body.length → body.getD i 0 ≠ 0x3D := fun i hi => isEnc_ne_pad (hb _ (getD_mem hi))
  have hleft : ∀ i, i < body.length → (body ++ List.replicate pad 0x3D).getD i 0 = body.getD i 0 := fun i hi =>
    getD_append hi
  have hright : ∀ i, body.length ≤ i → i < body.length + pad →
      (body ++ List.replicate pad 0x3D).getD i 0 = 0x3D := by
    intro i hi hlt
    rw [List.getD_eq_getElem _ _ (by simpa using hlt), List.getElem_append_right hi, List.getElem_replicate]
  unfold padLen
  rw [List.length_append, List.length_replicate]
  interval_cases pad
  · rw [if_neg (by rw [hleft _ (by omega)]; exact hlast _ (by omega))]
  · rw [if_pos (hright _ (by omega) (by omega)), if_neg (by rw [hleft _ (by omega)]; exact hlast _ (by omega))]
  · rw [if_pos (hright _ (by omega) (by omega)), if_pos (hright _ (by omega) (by omega))]

/-- **An encoding is accepted**, with the length of the input. -/
theorem base64DecodedLen_base64Encode (x : Bytes) : base64DecodedLen (base64Encode x) = some x.length := by
  obtain ⟨body, pad, he, hb, hp⟩ := base64Encode_shape x
  have hlen := length_base64Encode x
  have htot : body.length + pad = base64EncodedLen x.length := by rw [← hlen, he]; simp
  unfold base64EncodedLen at htot hlen
  unfold base64DecodedLen checkedLen
  by_cases h0 : (base64Encode x).length = 0
  · rw [if_pos h0]
    simp only [Option.map_some, Option.some.injEq]
    omega
  rw [if_neg h0, if_neg (by omega)]
  have hpl : padLen (base64Encode x) = pad := by
    rw [he]; exact padLen_append hb (by omega) (by omega)
  have hcut : (base64Encode x).length - padLen (base64Encode x) = body.length := by rw [hpl, he]; simp
  rw [hcut, hpl]
  have hbody : (base64Encode x).take body.length = body := by rw [he]; exact List.take_left
  have htail : (base64Encode x).drop body.length = List.replicate pad 0x3D := by rw [he]; exact List.drop_left
  rw [hbody, htail, if_pos]
  · simp only [Option.map_some, Option.some.injEq, hlen]
    omega
  · constructor
    · rw [List.all_eq_true]; exact fun c hc => hb c hc
    · simp

/-! ## The two directions -/

/-- the number `base64Decode` returns, next to the bytes it writes; `none` is -1 -/
def base64DecodeRc (s : Bytes) : Option ℕ := (checkedLen s).map fun r => r.1

/-- characters of the alphabet, then at most two `'='`, whole quads in all -/
structure IsBase64 (s body : Bytes) (pad : ℕ) : Prop where
  split : s = body ++ List.replicate pad 0x3D
  body : ∀ c ∈ body, c ∈ ENC_TABLE
  pad : pad ≤ 2
  whole : s.length % 4 = 0

/-- the low bits of the last character that belong to no byte -/
def spareBits (body : Bytes) (pad : ℕ) : ℕ := ENC_TABLE.idxOf (body.getLastD 0x41) % 4 ^ pad

/-- letters, digits and two signs -/
theorem ENC_TABLE_eq : ENC_TABLE =
    (List.range' 0x41 26 ++ List.range' 0x61 26 ++ List.range' 0x30 10 ++ [0x2B, 0x2F]).map UInt8.ofNat := by
  decide

/-- a character stands at the place of its value -/
theorem decodeChar_enc {c : UInt8} (h : c ∈ ENC_TABLE) :
    decodeChar c = some (ENC_TABLE.idxOf c) ∧ ENC_TABLE.idxOf c < 64 ∧ encChar (ENC_TABLE.idxOf c) = c := by
  have hi := List.idxOf_lt_length_of_mem h
  have hlt : ENC_TABLE.idxOf c < 64 := length_ENC_TABLE ▸ hi
  have hat : ENC_TABLE.getD (ENC_TABLE.idxOf c) 0 = c := by
    rw [List.getD_eq_getElem _ _ hi]
    exact List.getElem_idxOf hi
  have hdec := decodeChar_getD hlt
  rw [hat] at hdec
  refine ⟨hdec, hlt, ?_⟩
  unfold encChar
  rw [and_63, Nat.mod_eq_of_lt hlt, hat]

theorem isEnc_iff (c : UInt8) : isEnc c = true ↔ c ∈ ENC_TABLE := by
  constructor
  · have hall : ∀ c : UInt8, isEnc c = true → (decodeChar c).getD 0 < 64 ∧ ENC_TABLE.getD ((decodeChar c).getD 0) 0 = c := by
      rw [ENC_TABLE_eq]
      apply forall_byte
      decide +kernel
    intro h
    obtain ⟨hlt, hat⟩ := hall c h
    rw [← hat]
    exact getD_mem (by rwa [ENC_TABLE_eq])
  · intro h
    obtain ⟨hdec, hlt, -⟩ := decodeChar_enc h
    unfold isEnc
    rw [hdec]
    simpa using hlt.ne

theorem encChar_mod (v : ℕ) : encChar v = encChar (v % 64) := by
  unfold encChar
  rw [and_63, and_63, Nat.mod_mod]

theorem decodeChar_encChar (v : ℕ) : decodeChar (encChar v) = some (v % 64) := by
  unfold encChar
  rw [and_63]
  exact decodeChar_getD (Nat.mod_lt v (by norm_num))

/-- four characters as one number -/
def quadValue (c0 c1 c2 c3 : ℕ) : ℕ := c0 * 2 ^ 18 + c1 * 2 ^ 12 + c2 * 2 ^ 6 + c3

theorem quadValue_or {c0 c1 c2 c3 : ℕ} (h1 : c1 < 64) (h2 : c2 < 64) (h3 : c3 < 64) :
    (c0 <<< 18) ||| (c1 <<< 12) ||| (c2 <<< 6) ||| c3 = quadValue c0 c1 c2 c3 := by
  have hlow : (c2 <<< 6) ||| c3 = c2 * 2 ^ 6 + c3 := by
    rw [← Nat.shiftLeft_add_eq_or_of_lt (show c3 < 2 ^ 6 by omega), Nat.shiftLeft_eq]
  have hmid : (c1 <<< 12) ||| (c2 * 2 ^ 6 + c3) = c1 * 2 ^ 12 + (c2 * 2 ^ 6 + c3) := by
    rw [← Nat.shiftLeft_add_eq_or_of_lt (show c2 * 2 ^ 6 + c3 < 2 ^ 12 by omega), Nat.shiftLeft_eq]
  rw [Nat.or_assoc, Nat.or_assoc, hlow, hmid,
    ← Nat.shiftLeft_add_eq_or_of_lt (show c1 * 2 ^ 12 + (c2 * 2 ^ 6 + c3) < 2 ^ 18 by omega), Nat.shiftLeft_eq]
  unfold quadValue
  omega

/-- three bytes as one number -/
def tripleValue (x y z : UInt8) : ℕ := x.toNat * 2 ^ 16 + y.toNat * 2 ^ 8 + z.toNat

theorem tripleValue_or (x y z : UInt8) :
    (x.toNat <<< 16) ||| (y.toNat <<< 8) ||| z.toNat = tripleValue x y z := by
  have hy : y.toNat < 256 := y.toNat_lt
  have hz : z.toNat < 256 := z.toNat_lt
  rw [Nat.or_assoc, ← Nat.shiftLeft_add_eq_or_of_lt (show z.toNat < 2 ^ 8 from hz), Nat.shiftLeft_eq y.toNat 8,
    ← Nat.shiftLeft_add_eq_or_of_lt (show y.toNat * 2 ^ 8 + z.toNat < 2 ^ 16 by omega), Nat.shiftLeft_eq]
  unfold tripleValue
  omega

section
variable {a b c d : UInt8} {c0 c1 c2 c3 : ℕ}

theorem decodeQuads_four (ha : decodeChar a = some c0) (hb : decodeChar b = some c1) (hc : decodeChar c = some c2) (hd : decodeChar d = some c3)
    (h1 : c1 < 64) (h2 : c2 < 64) (h3 : c3 < 64) (r : Bytes) :
    decodeQuads (a :: b :: c :: d :: r) = UInt8.ofNat (quadValue c0 c1 c2 c3 / 2 ^ 16) ::
      UInt8.ofNat (quadValue c0 c1 c2 c3 / 2 ^ 8) :: UInt8.ofNat (quadValue c0 c1 c2 c3) :: decodeQuads r := by
  simp only [decodeQuads, ha, hb, hc, hd, Option.getD_some, and_63, Nat.mod_eq_of_lt h2, Nat.mod_eq_of_lt h3,
    quadValue_or h1 h2 h3, Nat.shiftRight_eq_div_pow]
  rw [if_pos (by omega), if_pos (by omega)]
  rfl

theorem decodeQuads_three (ha : decodeChar a = some c0) (hb : decodeChar b = some c1) (hc : decodeChar c = some c2)
    (h1 : c1 < 64) (h2 : c2 < 64) :
    decodeQuads [a, b, c, 0x3D] =
      [UInt8.ofNat (quadValue c0 c1 c2 0 / 2 ^ 16), UInt8.ofNat (quadValue c0 c1 c2 0 / 2 ^ 8)] := by
  have hd : decodeChar 0x3D = some 64 := rfl
  simp only [decodeQuads, ha, hb, hc, hd, Option.getD_some, and_63, Nat.mod_eq_of_lt h2, Nat.mod_self,
    quadValue_or h1 h2 (show 0 < 64 by norm_num), Nat.shiftRight_eq_div_pow]
  rw [if_pos (by omega), if_neg (by simp)]
  rfl

theorem decodeQuads_two (ha : decodeChar a = some c0) (hb : decodeChar b = some c1) (h1 : c1 < 64) :
    decodeQuads [a, b, 0x3D, 0x3D] = [UInt8.ofNat (quadValue c0 c1 0 0 / 2 ^ 16)] := by
  have hd : decodeChar 0x3D = some 64 := rfl
  simp only [decodeQuads, ha, hb, hd, Option.getD_some, and_63, Nat.mod_self, Nat.shiftRight_eq_div_pow]
  rw [quadValue_or h1 (show 0 < 64 by norm_num) (show 0 < 64 by norm_num), if_neg (by simp)]
  rfl

end

theorem base64Encode_three (x y z : UInt8) (r : Bytes) :
    base64Encode (x :: y :: z :: r) = encChar (tripleValue x y z / 2 ^ 18) :: encChar (tripleValue x y z / 2 ^ 12) ::
      encChar (tripleValue x y z / 2 ^ 6) :: encChar (tripleValue x y z) :: base64Encode r := by
  simp only [base64Encode, tripleValue_or, Nat.shiftRight_eq_div_pow]

theorem base64Encode_two (x y : UInt8) :
    base64Encode [x, y] = [encChar (tripleValue x y 0 / 2 ^ 18), encChar (tripleValue x y 0 / 2 ^ 12),
      encChar (tripleValue x y 0 / 2 ^ 6), 0x3D] := by
  rw [← tripleValue_or]
  simp only [base64Encode, Nat.shiftRight_eq_div_pow, UInt8.toNat_zero, Nat.or_zero]

theorem base64Encode_one (x : UInt8) :
    base64Encode [x] = [encChar (tripleValue x 0 0 / 2 ^ 18), encChar (tripleValue x 0 0 / 2 ^ 12), 0x3D, 0x3D] := by
  rw [← tripleValue_or]
  simp only [base64Encode, Nat.shiftRight_eq_div_pow, UInt8.toNat_zero, Nat.zero_shiftLeft, Nat.or_zero]

theorem ofNat_eq {n : ℕ} {x : UInt8} (h : n % 256 = x.toNat) : UInt8.ofNat n = x := by
  rw [← UInt8.toNat_inj, UInt8.toNat_ofNat']
  exact h

/-- **What was encoded is decoded.** -/
theorem decodeQuads_base64Encode (x : Bytes) : decodeQuads (base64Encode x) = x := by
  have hlt : ∀ n, n % 64 < 64 := fun n => Nat.mod_lt _ (by norm_num)
  fun_induction base64Encode x with
  | case1 x y z r v ih =>
    have hx : x.toNat < 256 := x.toNat_lt
    have hy : y.toNat < 256 := y.toNat_lt
    have hz : z.toNat < 256 := z.toNat_lt
    have he := base64Encode_three x y z r
    rw [base64Encode] at he
    rw [he, decodeQuads_four (decodeChar_encChar _) (decodeChar_encChar _) (decodeChar_encChar _)
      (decodeChar_encChar _) (hlt _) (hlt _) (hlt _), ih]
    unfold quadValue tripleValue
    rw [ofNat_eq (x := x) (by omega), ofNat_eq (x := y) (by omega), ofNat_eq (x := z) (by omega)]
  | case2 x y v =>
    have hx : x.toNat < 256 := x.toNat_lt
    have hy : y.toNat < 256 := y.toNat_lt
    have he := base64Encode_two x y
    rw [base64Encode] at he
    rw [he, decodeQuads_three (decodeChar_encChar _) (decodeChar_encChar _) (decodeChar_encChar _) (hlt _) (hlt _)]
    unfold quadValue tripleValue
    rw [UInt8.toNat_zero, ofNat_eq (x := x) (by omega), ofNat_eq (x := y) (by omega)]
  | case3 x v =>
    have hx : x.toNat < 256 := x.toNat_lt
    have he := base64Encode_one x
    rw [base64Encode] at he
    rw [he, decodeQuads_two (decodeChar_encChar _) (decodeChar_encChar _) (hlt _)]
    unfold quadValue tripleValue
    rw [UInt8.toNat_zero, ofNat_eq (x := x) (by omega)]
  | case4 => rfl

/-! ## What is accepted -/

theorem padLen_le (s : Bytes) : padLen s ≤ 2 := by
  unfold padLen
  split_ifs <;> omega

/-- what `checkedLen` finds out about an accepted string -/
theorem checkedLen_some {s : Bytes} {len pad : ℕ} (h : checkedLen s = some (len, pad)) :
    IsBase64 s (s.take (s.length - pad)) pad ∧ len = s.length / 4 * 3 - pad := by
  unfold checkedLen at h
  split_ifs at h with h0 h4 hall
  · obtain ⟨rfl, rfl⟩ := Prod.mk.inj (Option.some.inj h)
    obtain rfl := List.length_eq_zero_iff.1 h0
    exact ⟨⟨rfl, by simp, by norm_num, rfl⟩, rfl⟩
  · obtain ⟨hlen, rfl⟩ := Prod.mk.inj (Option.some.inj h)
    obtain ⟨hbody, htail⟩ := hall
    rw [List.all_eq_true] at hbody htail
    have hpad := padLen_le s
    have hcut : s.drop (s.length - padLen s) = List.replicate (padLen s) 0x3D := by
      rw [List.eq_replicate_iff, List.length_drop]
      exact ⟨by omega, fun c hc => of_decide_eq_true (htail c hc)⟩
    refine ⟨⟨?_, fun c hc => (isEnc_iff c).1 (hbody c hc), hpad, by omega⟩, hlen.symm⟩
    rw [← hcut, List.take_append_drop]

/-- every string of the language is accepted -/
theorem IsBase64.checked {s body : Bytes} {pad : ℕ} (h : IsBase64 s body pad) :
    checkedLen s = some (s.length / 4 * 3 - pad, pad) := by
  have hlen : s.length = body.length + pad := by rw [h.split]; simp
  have hpad := h.pad
  have hwhole := h.whole
  have henc : ∀ c ∈ body, isEnc c = true := fun c hc => (isEnc_iff c).2 (h.body c hc)
  unfold checkedLen
  by_cases h0 : s.length = 0
  · obtain rfl : pad = 0 := by omega
    rw [if_pos h0, h0]
  · have hpl : padLen s = pad := by
      rw [h.split]
      exact padLen_append henc (by omega) hpad
    have hcut : s.length - pad = body.length := by omega
    have hbody : s.take body.length = body := by rw [h.split, List.take_left]
    have htail : s.drop body.length = List.replicate pad 0x3D := by rw [h.split, List.drop_left]
    rw [if_neg h0, if_neg (not_not.2 hwhole), hpl, hcut, hbody, htail, if_pos]
    rw [List.all_eq_true]
    exact ⟨henc, by simp⟩

/-- the quads of the language: the first is full, or it is the last -/
theorem IsBase64.quad {a b c d : UInt8} {r body : Bytes} {pad : ℕ} (h : IsBase64 (a :: b :: c :: d :: r) body pad) :
    (∃ body', body = a :: b :: c :: d :: body' ∧ IsBase64 r body' pad) ∨
      (r = [] ∧ pad = 1 ∧ body = [a, b, c] ∧ d = 0x3D) ∨
      (r = [] ∧ pad = 2 ∧ body = [a, b] ∧ c = 0x3D ∧ d = 0x3D) := by
  obtain ⟨hsplit, hbody, hpad, hwhole⟩ := h
  have hlen := congrArg List.length hsplit
  simp only [List.length_cons, List.length_append, List.length_replicate] at hlen hwhole
  match body, hsplit, hbody, hlen with
  | a' :: b' :: c' :: d' :: body', hsplit, hbody, _ =>
    simp only [List.cons_append, List.cons.injEq] at hsplit
    obtain ⟨rfl, rfl, rfl, rfl, hr⟩ := hsplit
    refine .inl ⟨body', rfl, hr, fun x hx => hbody x ?_, hpad, by omega⟩
    simp [hx]
  | [a', b', c'], hsplit, _, hlen =>
    obtain rfl : pad = 1 := by simp only [List.length_cons, List.length_nil] at hlen; omega
    simp only [List.cons_append, List.nil_append, List.replicate_one, List.cons.injEq] at hsplit
    obtain ⟨rfl, rfl, rfl, rfl, rfl⟩ := hsplit
    exact .inr (.inl ⟨rfl, rfl, rfl, rfl⟩)
  | [a', b'], hsplit, _, hlen =>
    obtain rfl : pad = 2 := by simp only [List.length_cons, List.length_nil] at hlen; omega
    simp only [List.cons_append, List.nil_append, List.replicate_succ, List.replicate_zero, List.cons.injEq] at hsplit
    obtain ⟨rfl, rfl, rfl, rfl, rfl⟩ := hsplit
    exact .inr (.inr ⟨rfl, rfl, rfl, rfl, rfl⟩)
  | [_], _, _, hlen => simp only [List.length_cons, List.length_nil] at hlen; omega
  | [], _, _, hlen => simp only [List.length_nil] at hlen; omega

/-- the language quad by quad: full ones, and a last one that may be padded -/
inductive Quads : Bytes → Bytes → ℕ → Prop where
  | nil : Quads [] [] 0
  | four {a b c d : UInt8} {r body : Bytes} {pad : ℕ} : a ∈ ENC_TABLE → b ∈ ENC_TABLE → c ∈ ENC_TABLE → d ∈ ENC_TABLE →
      Quads r body pad → Quads (a :: b :: c :: d :: r) (a :: b :: c :: d :: body) pad
  | three {a b c : UInt8} : a ∈ ENC_TABLE → b ∈ ENC_TABLE → c ∈ ENC_TABLE → Quads [a, b, c, 0x3D] [a, b, c] 1
  | two {a b : UInt8} : a ∈ ENC_TABLE → b ∈ ENC_TABLE → Quads [a, b, 0x3D, 0x3D] [a, b] 2

theorem IsBase64.quads {s body : Bytes} {pad : ℕ} (h : IsBase64 s body pad) : Quads s body pad := by
  induction hn : s.length using Nat.strong_induction_on generalizing s body with
  | _ n ih =>
    subst hn
    have hwhole := h.whole
    match s, h, hwhole with
    | [], h, _ =>
      obtain ⟨rfl, hpad⟩ := List.append_eq_nil_iff.1 h.split.symm
      obtain rfl := (List.replicate_eq_nil_iff _).1 hpad
      exact .nil
    | [_], _, hw => simp at hw
    | [_, _], _, hw => simp at hw
    | [_, _, _], _, hw => simp at hw
    | a :: b :: c :: d :: r, h, _ =>
      have hmem := h.body
      rcases h.quad with ⟨body', rfl, hr⟩ | ⟨rfl, rfl, rfl, rfl⟩ | ⟨rfl, rfl, rfl, rfl, rfl⟩
      · simp only [List.forall_mem_cons] at hmem
        exact .four hmem.1 hmem.2.1 hmem.2.2.1 hmem.2.2.2.1 (ih _ (by simp only [List.length_cons]; omega) hr rfl)
      · simp only [List.forall_mem_cons] at hmem
        exact .three hmem.1 hmem.2.1 hmem.2.2.1
      · simp only [List.forall_mem_cons] at hmem
        exact .two hmem.1 hmem.2.1

/-- as many bytes are written as `checkedLen` announces -/
theorem Quads.length_decodeQuads {s body : Bytes} {pad : ℕ} (h : Quads s body pad) :
    (decodeQuads s).length + pad = s.length / 4 * 3 := by
  induction h with
  | nil => rfl
  | four ha hb hc hd hr ih =>
    obtain ⟨ha, -, -⟩ := decodeChar_enc ha
    obtain ⟨hb, hb', -⟩ := decodeChar_enc hb
    obtain ⟨hc, hc', -⟩ := decodeChar_enc hc
    obtain ⟨hd, hd', -⟩ := decodeChar_enc hd
    rw [decodeQuads_four ha hb hc hd hb' hc' hd']
    simp only [List.length_cons]
    omega
  | three ha hb hc =>
    obtain ⟨ha, -, -⟩ := decodeChar_enc ha
    obtain ⟨hb, hb', -⟩ := decodeChar_enc hb
    obtain ⟨hc, hc', -⟩ := decodeChar_enc hc
    rw [decodeQuads_three ha hb hc hb' hc']
    norm_num
  | two ha hb =>
    obtain ⟨ha, -, -⟩ := decodeChar_enc ha
    obtain ⟨hb, hb', -⟩ := decodeChar_enc hb
    rw [decodeQuads_two ha hb hb']
    norm_num

theorem encChar_of_mod {v k : ℕ} (h : v % 64 = k) : encChar v = encChar k := by
  rw [encChar_mod, h]

/-- **A string without spare bits is encoded back.** -/
theorem Quads.encode_decode {s body : Bytes} {pad : ℕ} (h : Quads s body pad) (hspare : spareBits body pad = 0) :
    base64Encode (decodeQuads s) = s := by
  induction h with
  | nil => rfl
  | @four a b c d r body pad ha hb hc hd hr ih =>
    obtain ⟨ha, ha', hea⟩ := decodeChar_enc ha
    obtain ⟨hb, hb', heb⟩ := decodeChar_enc hb
    obtain ⟨hc, hc', hec⟩ := decodeChar_enc hc
    obtain ⟨hd, hd', hed⟩ := decodeChar_enc hd
    have hrest : spareBits body pad = 0 := by
      cases hr with
      | nil => rfl
      | four => exact hspare
      | three => exact hspare
      | two => exact hspare
    rw [decodeQuads_four ha hb hc hd hb' hc' hd', base64Encode_three, ih hrest]
    unfold quadValue tripleValue
    simp only [UInt8.toNat_ofNat']
    rw [encChar_of_mod (k := ENC_TABLE.idxOf a) (by omega), hea, encChar_of_mod (k := ENC_TABLE.idxOf b) (by omega), heb,
      encChar_of_mod (k := ENC_TABLE.idxOf c) (by omega), hec, encChar_of_mod (k := ENC_TABLE.idxOf d) (by omega), hed]
  | @three a b c ha hb hc =>
    obtain ⟨ha, ha', hea⟩ := decodeChar_enc ha
    obtain ⟨hb, hb', heb⟩ := decodeChar_enc hb
    obtain ⟨hc, hc', hec⟩ := decodeChar_enc hc
    have hlow : ENC_TABLE.idxOf c % 4 = 0 := hspare
    rw [decodeQuads_three ha hb hc hb' hc', base64Encode_two]
    unfold quadValue tripleValue
    simp only [UInt8.toNat_ofNat', UInt8.toNat_zero]
    rw [encChar_of_mod (k := ENC_TABLE.idxOf a) (by omega), hea, encChar_of_mod (k := ENC_TABLE.idxOf b) (by omega), heb,
      encChar_of_mod (k := ENC_TABLE.idxOf c) (by omega), hec]
  | @two a b ha hb =>
    obtain ⟨ha, ha', hea⟩ := decodeChar_enc ha
    obtain ⟨hb, hb', heb⟩ := decodeChar_enc hb
    have hlow : ENC_TABLE.idxOf b % 16 = 0 := hspare
    rw [decodeQuads_two ha hb hb', base64Encode_one]
    unfold quadValue tripleValue
    simp only [UInt8.toNat_ofNat', UInt8.toNat_zero]
    rw [encChar_of_mod (k := ENC_TABLE.idxOf a) (by omega), hea, encChar_of_mod (k := ENC_TABLE.idxOf b) (by omega), heb]

theorem base64Decode_eq_some {s out : Bytes} : base64Decode s = some out ↔
    (∃ body pad, IsBase64 s body pad) ∧ out = decodeQuads s := by
  unfold base64Decode
  rw [Option.map_eq_some_iff]
  constructor
  · rintro ⟨⟨len, pad⟩, h, rfl⟩
    exact ⟨⟨_, pad, (checkedLen_some h).1⟩, rfl⟩
  · rintro ⟨⟨body, pad, h⟩, rfl⟩
    exact ⟨_, h.checked, rfl⟩

/-- the padding of a string of the language is what `checkedLen` counts -/
theorem IsBase64.length_eq {s body : Bytes} {pad : ℕ} (h : IsBase64 s body pad) :
    checkedLen s = some ((decodeQuads s).length, pad) := by
  have hlen := h.quads.length_decodeQuads
  rw [h.checked, ← hlen, Nat.add_sub_cancel]

/-- the length announced is that of the bytes written -/
theorem base64DecodedLen_eq (s : Bytes) : base64DecodedLen s = (base64Decode s).map List.length := by
  unfold base64DecodedLen base64Decode
  cases hc : checkedLen s with
  | none => rfl
  | some r =>
    obtain ⟨len, pad⟩ := r
    have h := (checkedLen_some hc).1.length_eq
    rw [hc] at h
    rw [h]
    rfl

/-- **Base64, both ways.** What was encoded is decoded, with the lengths announced. A string is accepted exactly when it
is whole quads of the alphabet with at most two `'='` at the end; then as many bytes are written as are returned, and
they are encoded back to the string when its last character has no spare bits. -/
theorem base64_exact :
    (∀ x, base64Decode (base64Encode x) = some x ∧ (base64Encode x).length = base64EncodedLen x.length ∧
        base64DecodedLen (base64Encode x) = some x.length) ∧
      ∀ s, ((base64Decode s).isSome = true ↔ ∃ body pad, IsBase64 s body pad) ∧
        ∀ body pad out, IsBase64 s body pad → base64Decode s = some out →
          base64DecodeRc s = some out.length ∧ base64DecodedLen s = some out.length ∧
            (spareBits body pad = 0 → base64Encode out = s) := by
  constructor
  · intro x
    have hlen := base64DecodedLen_base64Encode x
    refine ⟨?_, length_base64Encode x, hlen⟩
    obtain ⟨⟨len, pad⟩, hc, -⟩ := Option.map_eq_some_iff.1 hlen
    exact base64Decode_eq_some.2 ⟨⟨_, pad, (checkedLen_some hc).1⟩, (decodeQuads_base64Encode x).symm⟩
  · intro s
    constructor
    · rw [Option.isSome_iff_exists]
      constructor
      · rintro ⟨out, h⟩
        exact (base64Decode_eq_some.1 h).1
      · intro h
        exact ⟨_, base64Decode_eq_some.2 ⟨h, rfl⟩⟩
    · intro body pad out h hout
      obtain rfl := (base64Decode_eq_some.1 hout).2
      refine ⟨?_, ?_, fun hspare => h.quads.encode_decode hspare⟩
      · unfold base64DecodeRc
        rw [h.length_eq]
        rfl
      · unfold base64DecodedLen
        rw [h.length_eq]
        rfl

end WsServer
