/-
Frame headers as RFC 6455, section 5.2, lays them out, and what `wsParseHeader` and `wsEncodeHeader` make of them.

`WsFrameHdr.encoding` writes a header down field by field, and `WsFrameHdr.Sound` says which headers a peer may send;
neither names the parser or the encoder.

- `wsParseHeader_exact`: the parser accepts exactly the strings that start with a sound header, wants more exactly
  where a header may still come of it, and keeps its verdict.
- `frames_read_back`: frames put one after the other are read back, and an accepted plain header is what the encoder
  writes.
-/
import Mathlib
import WsServer.Core.BigEndian
import WsServer.Proto.Ws

namespace WsServer

namespace Ws

/-! ## The layout -/

/-- the seven bits in the second byte and the extended length, in the shortest form -/
def lenField (len : ℕ) : ℕ × Bytes :=
  if len ≤ 125 then (len, [])
  else if len < 2 ^ 16 then (126, BigEndian.bytes 2 len)
  else (127, BigEndian.bytes 8 len)

/-- FIN, three zero bits and the opcode; MASK and the length; the extended length; the key -/
def WsFrameHdr.encoding (h : WsFrameHdr) : Bytes :=
  UInt8.ofNat (128 * h.fin.toNat + h.opcode) :: UInt8.ofNat (128 * h.masked.toNat + (lenField h.payloadLen).1) ::
    (lenField h.payloadLen).2 ++ h.maskKey

/-- the bytes of the mask key -/
def keySize (masked : Bool) : ℕ := if masked then 4 else 0

structure WsFrameHdr.Sound (h : WsFrameHdr) : Prop where
  opcode : h.opcode ∈ [0, 1, 2, 8, 9, 10]
  len_lt : h.payloadLen < 2 ^ 63
  control : 8 ≤ h.opcode → h.fin = true ∧ h.payloadLen ≤ 125
  key : h.maskKey.length = keySize h.masked
  size : h.headerLen = h.encoding.length

theorem beNat_eq_value (bs : Bytes) : beNat bs = BigEndian.value bs := by
  unfold beNat BigEndian.value
  simp only [shift_or]

theorem IsOpcode.of_mem {op : ℕ} (h : op ∈ [0, 1, 2, 8, 9, 10]) : IsOpcode op := by
  simpa [IsOpcode] using h

theorem IsOpcode.mem {op : ℕ} (h : IsOpcode op) : op ∈ [0, 1, 2, 8, 9, 10] := by
  simpa [IsOpcode] using h

/-- the control opcodes are those with bit 3 set -/
theorem IsOpcode.control_iff {op : ℕ} (h : IsOpcode op) : op &&& 0x8 ≠ 0 ↔ 8 ≤ op := by
  rcases h with rfl | rfl | rfl | rfl | rfl | rfl <;> decide

theorem IsOpcode.first {op : ℕ} (h : IsOpcode op) (fin : Bool) :
    UInt8.ofNat (128 * fin.toNat + op) = firstByte fin op := by
  rcases h with rfl | rfl | rfl | rfl | rfl | rfl <;> cases fin <;> rfl

/-- the mask bit and seven more -/
theorem second_or (masked : Bool) {v : ℕ} (hv : v < 128) :
    UInt8.ofNat (128 * masked.toNat + v) = UInt8.ofNat ((if masked then 0x80 else 0) ||| v) := by
  cases masked <;> interval_cases v <;> rfl

/-- the bytes the encoders of the source write -/
theorem lenField_encodeLen (masked : Bool) (len : ℕ) :
    UInt8.ofNat (128 * masked.toNat + (lenField len).1) :: (lenField len).2 =
      encodeLen (if masked then 0x80 else 0) len := by
  unfold lenField encodeLen
  by_cases h1 : len ≤ 125
  · rw [if_pos h1, if_pos h1, second_or masked (show len < 128 by omega)]
  by_cases h2 : len < 2 ^ 16
  · rw [if_neg h1, if_neg h1, if_pos h2, if_pos (show len ≤ 0xFFFF by omega), second_or masked (show 126 < 128 by decide)]
    rw [show len >>> 8 = len / 256 from Nat.shiftRight_eq_div_pow len 8]
    rfl
  · rw [if_neg h1, if_neg h1, if_neg h2, if_neg (show ¬ len ≤ 0xFFFF by omega), second_or masked (show 127 < 128 by decide)]
    simp only [BigEndian.bytes, List.range_succ, List.range_zero, List.nil_append, List.cons_append, List.map_cons,
      List.map_nil, Nat.shiftRight_eq_div_pow, Nat.div_div_eq_div_mul]
    norm_num

theorem WsFrameHdr.encoding_eq {h : WsFrameHdr} (hop : IsOpcode h.opcode) :
    h.encoding = firstByte h.fin h.opcode :: encodeLen (if h.masked then 0x80 else 0) h.payloadLen ++ h.maskKey := by
  unfold WsFrameHdr.encoding
  rw [hop.first, ← lenField_encodeLen, List.cons_append]

/-! ## What is accepted -/

/-- a sound header is read, whatever follows it -/
theorem WsFrameHdr.Sound.parsed {h : WsFrameHdr} (hs : h.Sound) (t : Bytes) : wsParseHeader (h.encoding ++ t) = .ok h := by
  obtain ⟨fin, op, masked, len, key, size⟩ := h
  have hop := IsOpcode.of_mem hs.opcode
  have hsize := hs.size
  have hkey := hs.key
  have hctl : ControlOk fin op len := fun hc => hs.control (hop.control_iff.1 hc)
  have hm : (if masked then 0x80 else 0) = 0 ∨ (if masked then 0x80 else 0) = 0x80 := by cases masked <;> simp
  have hmask : decide ((if masked then 0x80 else 0) = 0x80) = masked := by cases masked <;> rfl
  rw [WsFrameHdr.encoding_eq hop] at hsize ⊢
  dsimp only at hsize hkey ⊢
  rw [List.append_assoc, wsParseHeader_shape fin hop hm hs.len_lt, hmask]
  generalize hb : firstByte fin op :: encodeLen (if masked then 0x80 else 0) len = b at hsize ⊢
  have hlen : 1 + (encodeLen (if masked then 0x80 else 0) len).length = b.length := by
    rw [← hb, List.length_cons, Nat.add_comm]
  unfold wsParseTail
  rw [hlen, if_neg hctl.not_err]
  cases masked with
  | false =>
    obtain rfl : key = [] := List.length_eq_zero_iff.1 hkey
    rw [List.append_nil] at hsize
    rw [if_neg (by simp), hsize]
    rfl
  | true =>
    have hkey4 : key.length = 4 := hkey
    have hroom : ¬ (b ++ (key ++ t)).length < b.length + 4 := by
      simp only [List.length_append]
      omega
    rw [List.length_append, hkey4] at hsize
    rw [if_neg (fun hc => hroom hc.2), List.drop_left, List.take_left' hkey4, hsize]
    rfl

theorem rsv_firstByte {b : UInt8} (h : rsvBits b = 0) : UInt8.ofNat (128 * (finBit b).toNat + opcodeBits b) = b := by
  have hall : ∀ b : UInt8, rsvBits b = 0 → UInt8.ofNat (128 * (finBit b).toNat + opcodeBits b) = b := by
    apply forall_byte
    decide +kernel
  exact hall b h

theorem secondByte_bits (b : UInt8) : UInt8.ofNat (128 * (maskBit b).toNat + lenBits b) = b ∧ lenBits b < 128 := by
  have hall : ∀ b : UInt8, UInt8.ofNat (128 * (maskBit b).toNat + lenBits b) = b ∧ lenBits b < 128 := by
    apply forall_byte
    decide +kernel
  exact hall b

/-- an accepted length stands in its field -/
theorem wsParseLen_field {b : Bytes} {len7 len need : ℕ} (h : wsParseLen b len7 = .ok len need) (hb : 2 ≤ b.length)
    (h7 : len7 < 128) : lenField len = (len7, (b.drop 2).take (need - 2)) ∧ 2 ≤ need ∧ need ≤ b.length := by
  obtain ⟨hfits, htwo, -, -⟩ := wsParseLen_ok h hb h7
  refine ⟨?_, htwo, hfits⟩
  unfold wsParseLen at h
  unfold lenField
  split_ifs at h with h126 hshort hmin h127 hshort hbit hmin
  · simp only [LenRc.ok.injEq] at h
    obtain ⟨rfl, rfl⟩ := h
    have htwo : ((b.drop 2).take 2).length = 2 := by simp; omega
    have hlt := BigEndian.value_lt ((b.drop 2).take 2)
    have hround := BigEndian.bytes_value ((b.drop 2).take 2)
    rw [htwo] at hlt hround
    rw [beNat_eq_value] at hmin ⊢
    rw [if_neg (by omega), if_pos (by omega), hround, h126]
  · simp only [LenRc.ok.injEq] at h
    obtain ⟨rfl, rfl⟩ := h
    have height : ((b.drop 2).take 8).length = 8 := by simp; omega
    have hround := BigEndian.bytes_value ((b.drop 2).take 8)
    rw [height] at hround
    rw [beNat_eq_value] at hmin ⊢
    rw [if_neg (by omega), if_neg (by omega), hround, h127]
  · simp only [LenRc.ok.injEq] at h
    obtain ⟨rfl, rfl⟩ := h
    rw [if_pos (by omega)]
    simp

/-- the key stands behind the length -/
theorem wsParseTail_ok {b : Bytes} {fin masked : Bool} {op len need : ℕ} {h : WsFrameHdr}
    (hp : wsParseTail b fin op masked len need = .ok h) (hneed : need ≤ b.length) :
    need + keySize masked ≤ b.length ∧
      h = ⟨fin, op, masked, len, (b.drop need).take (keySize masked), need + keySize masked⟩ := by
  unfold wsParseTail at hp
  by_cases hshort : masked = true ∧ b.length < need + 4
  · rw [if_pos hshort] at hp
    cases hp
  by_cases hctl : op &&& 0x8 ≠ 0 ∧ (fin = false ∨ 125 < len)
  · rw [if_neg hshort, if_pos hctl] at hp
    cases hp
  rw [if_neg hshort, if_neg hctl] at hp
  obtain rfl := WsRc.ok.inj hp
  cases masked with
  | false => exact ⟨hneed, rfl⟩
  | true => exact ⟨not_lt.1 fun hlt => hshort ⟨rfl, hlt⟩, rfl⟩

/-- what is accepted starts with a sound header -/
theorem parsed_sound {b : Bytes} {h : WsFrameHdr} (hp : wsParseHeader b = .ok h) : h.Sound ∧ h.encoding <+: b := by
  have hgood := wsParseHeader_good hp
  unfold wsParseHeader at hp
  split_ifs at hp with hshort hrsv hop
  obtain ⟨b0, b1, rest, rfl⟩ : ∃ b0 b1 rest, b = b0 :: b1 :: rest := by
    match b, hshort with
    | b0 :: b1 :: rest, _ => exact ⟨b0, b1, rest, rfl⟩
    | [], h => exact absurd (by decide) h
    | [_], h => exact absurd (by simp) h
  have hfirst := rsv_firstByte (not_not.1 hrsv)
  obtain ⟨hsecond, h7⟩ := secondByte_bits b1
  simp only [List.getD_cons_zero, List.getD_cons_succ] at hp hfirst
  split at hp
  · cases hp
  · cases hp
  · rename_i len need hlen
    obtain ⟨hfield, hneed, hfits⟩ := wsParseLen_field hlen (by simp) h7
    obtain ⟨hroom, rfl⟩ := wsParseTail_ok hp hfits
    have hdrop : (b0 :: b1 :: rest).drop need = rest.drop (need - 2) := by
      obtain ⟨k, rfl⟩ := Nat.exists_eq_add_of_le' hneed
      rfl
    simp only [List.length_cons] at hroom
    rw [List.drop_succ_cons, List.drop_succ_cons, List.drop_zero] at hfield
    have henc : WsFrameHdr.encoding ⟨finBit b0, opcodeBits b0, maskBit b1, len,
        (rest.drop (need - 2)).take (keySize (maskBit b1)), need + keySize (maskBit b1)⟩ =
        b0 :: b1 :: rest.take (need - 2 + keySize (maskBit b1)) := by
      unfold WsFrameHdr.encoding
      dsimp only
      rw [hfield, hfirst, hsecond, List.take_add]
      rfl
    have hop6 : IsOpcode (opcodeBits b0) := hgood.opcode
    rw [hdrop] at hgood ⊢
    constructor
    · constructor
      · exact hop6.mem
      · exact hgood.len_lt
      · exact fun h8 => hgood.control (hop6.control_iff.2 h8)
      · rw [List.length_take, List.length_drop]
        show _ = keySize (maskBit b1)
        omega
      · rw [henc, List.length_cons, List.length_cons, List.length_take]
        dsimp only
        omega
    · rw [henc]
      exact ⟨rest.drop (need - 2 + keySize (maskBit b1)), by rw [List.cons_append, List.cons_append, List.take_append_drop]⟩

/-- **Exactly the sound headers are accepted.** -/
theorem wsParseHeader_ok_iff {b : Bytes} {h : WsFrameHdr} : wsParseHeader b = .ok h ↔ h.Sound ∧ h.encoding <+: b := by
  constructor
  · intro hp
    exact parsed_sound hp
  · rintro ⟨hs, t, rfl⟩
    exact hs.parsed t

/-- **The parser, exactly.** It accepts the strings that start with a sound header, and returns that header; a part of
a sound header that is not all of it is not enough; a verdict is not changed by more bytes. -/
theorem wsParseHeader_exact (b : Bytes) :
    (∀ h, wsParseHeader b = .ok h ↔ h.Sound ∧ h.encoding <+: b) ∧
      (∀ h : WsFrameHdr, h.Sound → b <+: h.encoding → b ≠ h.encoding → wsParseHeader b = .needMore) ∧
      (wsParseHeader b ≠ .needMore → ∀ t, wsParseHeader (b ++ t) = wsParseHeader b) := by
  refine ⟨fun h => wsParseHeader_ok_iff, ?_, fun h t => wsParseHeader_append t h⟩
  intro h hs hpre hne
  by_contra hverdict
  obtain ⟨t, ht⟩ := hpre
  have hwhole : wsParseHeader h.encoding = .ok h := by
    have := hs.parsed []
    rwa [List.append_nil] at this
  have hkept := wsParseHeader_append t hverdict
  rw [ht, hwhole] at hkept
  -- the same header would have to fit into `b` already
  have hfits := (wsParseHeader_good hkept.symm).fits
  rw [hs.size, ← ht, List.length_append] at hfits
  obtain rfl : t = [] := List.length_eq_zero_iff.1 (by omega)
  rw [List.append_nil] at ht
  exact hne ht

/-! ## Frames read back -/

/-- the header of a frame of the server -/
def frameHdr (op len : ℕ) : WsFrameHdr := ⟨true, op, false, len, [], (wsEncodeHeader op len).length⟩

/-- headers and payloads, one frame after the other, and what is left where no whole frame follows -/
def readFrames : ℕ → Bytes → List (WsFrameHdr × Bytes) × Bytes
  | 0, b => ([], b)
  | fuel + 1, b =>
    match wsParseHeader b with
    | .ok h =>
      if b.length < h.headerLen + h.payloadLen then ([], b)
      else
        let r := readFrames fuel (b.drop (h.headerLen + h.payloadLen))
        ((h, (b.drop h.headerLen).take h.payloadLen) :: r.1, r.2)
    | _ => ([], b)

/-- a frame has two bytes at least, so the length is fuel enough -/
def readAllFrames (b : Bytes) : List (WsFrameHdr × Bytes) × Bytes := readFrames b.length b

theorem wsEncodeHeader_encoding {h : WsFrameHdr} (hop : IsOpcode h.opcode) (hfin : h.fin = true) (hm : h.masked = false)
    (hkey : h.maskKey = []) : h.encoding = wsEncodeHeader h.opcode h.payloadLen := by
  rw [WsFrameHdr.encoding_eq hop, hfin, hm, hkey, List.append_nil]
  unfold wsEncodeHeader firstByte
  rcases hop with hop | hop | hop | hop | hop | hop <;> rw [hop] <;> rfl

theorem frameHdr_sound {op len : ℕ} (hop : IsOpcode op) (hlen : len < 2 ^ 63) (hctl : ControlOk true op len) :
    (frameHdr op len).Sound ∧ (frameHdr op len).encoding = wsEncodeHeader op len := by
  have henc : (frameHdr op len).encoding = wsEncodeHeader op len :=
    wsEncodeHeader_encoding (h := frameHdr op len) hop rfl rfl rfl
  exact ⟨⟨hop.mem, hlen, fun h8 => hctl (hop.control_iff.2 h8), rfl, by rw [henc]; rfl⟩, henc⟩

theorem readFrames_frameNew (fs : List (ℕ × Bytes)) (hfs : ∀ f ∈ fs, SendOk f) (fuel : ℕ) (hfuel : fs.length ≤ fuel) :
    readFrames fuel (fs.flatMap fun f => frameNew f.1 f.2) = (fs.map fun f => (frameHdr f.1 f.2.length, f.2), []) := by
  induction fs generalizing fuel with
  | nil => cases fuel <;> rfl
  | cons f fs ih =>
    cases fuel with
    | zero => simp at hfuel
    | succ fuel =>
      obtain ⟨hop, hlen, hctl⟩ := hfs f List.mem_cons_self
      obtain ⟨hsound, henc⟩ := frameHdr_sound hop hlen hctl
      have hp := hsound.parsed (f.2 ++ fs.flatMap fun f => frameNew f.1 f.2)
      rw [henc] at hp
      have hrest := ih (fun g hg => hfs g (List.mem_cons_of_mem _ hg)) fuel (by simpa using hfuel)
      rw [List.flatMap_cons, frameNew, List.append_assoc, readFrames, hp]
      dsimp only [frameHdr]
      rw [if_neg (by simp only [List.length_append]; omega), ← List.drop_drop, List.drop_left, List.take_left,
        List.drop_left, hrest]
      rfl

theorem length_le_frames (fs : List (ℕ × Bytes)) : fs.length ≤ (fs.flatMap fun f => frameNew f.1 f.2).length := by
  induction fs with
  | nil => exact le_rfl
  | cons f fs ih =>
    rw [List.flatMap_cons, List.length_append, List.length_cons]
    have hone : 1 ≤ (frameNew f.1 f.2).length := by simp [frameNew, wsEncodeHeader]
    omega

/-- **Frames are read back**, every byte of them; and an accepted header of a final plain frame is the one the encoder
writes. -/
theorem frames_read_back :
    (∀ fs : List (ℕ × Bytes), (∀ f ∈ fs, SendOk f) →
      readAllFrames (fs.flatMap fun f => frameNew f.1 f.2) =
        (fs.map fun f => (⟨true, f.1, false, f.2.length, [], (wsEncodeHeader f.1 f.2.length).length⟩, f.2), [])) ∧
      ∀ (b : Bytes) (h : WsFrameHdr), wsParseHeader b = .ok h → h.fin = true → h.masked = false →
        wsEncodeHeader h.opcode h.payloadLen = b.take h.headerLen := by
  constructor
  · intro fs hfs
    exact readFrames_frameNew fs hfs _ (length_le_frames fs)
  · intro b h hp hfin hm
    obtain ⟨hs, t, rfl⟩ := parsed_sound hp
    have hkey : h.maskKey = [] := by
      have := hs.key
      rw [hm] at this
      exact List.length_eq_zero_iff.1 this
    rw [hs.size, List.take_left, wsEncodeHeader_encoding (IsOpcode.of_mem hs.opcode) hfin hm hkey]

end Ws

end WsServer
