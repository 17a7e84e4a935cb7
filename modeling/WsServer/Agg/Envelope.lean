/-
What the frame of a message says: `aggOnMessage` read back.

- `frame_decodes`: a BIN message is the payload of one BIN frame; a TEXT message is the member `data` of a JSON object in
  one TEXT frame, beside its source, a sequence number and its time.
-/
import Mathlib
import WsServer.Core.Json
import WsServer.Proto.Decimal
import WsServer.Proto.Forms
import WsServer.Agg.Numbering

namespace WsServer

open Ws

/-! ## Numbers -/

theorem isDigit_iff (c : UInt8) : Json.isDigit c = true ↔ IsDigit c := by
  unfold Json.isDigit IsDigit
  rw [decide_eq_true_eq]
  rfl

theorem decimal_isDigit (n : ℕ) : ∀ c ∈ decimal n, Json.isDigit c = true :=
  fun c hc => (isDigit_iff c).2 (decimal_digits n c hc)

/-- a number starts with 0 only if it is 0 -/
theorem decimal_head {n : ℕ} (hn : 0 < n) : (decimal n).head? ≠ some 0x30 := by
  induction n using Nat.strong_induction_on with
  | _ n ih =>
    rw [decimal_step]
    split_ifs with h
    · intro hhead
      have hb : UInt8.ofNat (0x30 + n) = 0x30 := Option.some.inj hhead
      have := congrArg UInt8.toNat hb
      rw [digit_toNat h] at this
      simp at this
      omega
    · rw [List.head?_append_of_ne_nil _ (decimal_ne_nil _)]
      exact ih (n / 10) (by omega) (by omega)

theorem decimal_natural (n : ℕ) : Json.Natural (decimal n) where
  ne := decimal_ne_nil n
  digits := decimal_isDigit n
  lead := by
    intro h
    rcases Nat.eq_zero_or_pos n with rfl | hn
    · rfl
    · exact absurd h (decimal_head hn)

theorem ofDigits_map (ds : Bytes) (sofar : ℕ) : Json.ofDigits (ds.map Json.digitVal) sofar = digitsValue ds sofar := by
  unfold Json.ofDigits digitsValue
  rw [List.foldl_map]
  rfl

theorem ofDigits_decimal (n : ℕ) : Json.ofDigits ((decimal n).map Json.digitVal) 0 = n := by
  rw [ofDigits_map, digitsValue_decimal]

theorem decimal6_isDigit (n : ℕ) : ∀ c ∈ decimal6 n, Json.isDigit c = true := by
  intro c hc
  rcases List.mem_append.1 hc with h | h
  · rw [List.eq_of_mem_replicate h]
    rfl
  · exact decimal_isDigit n c h

theorem length_decimal6 {n : ℕ} (h : n < 10 ^ 6) : (decimal6 n).length = 6 := by
  have := length_decimal_le (show 0 < 6 by norm_num) h
  unfold decimal6
  rw [List.length_append, List.length_replicate]
  omega

/-- the padding adds nothing -/
theorem ofDigits_decimal6 (n : ℕ) : Json.ofDigits ((decimal6 n).map Json.digitVal) 0 = n := by
  have hzeros : ∀ k, Json.ofDigits ((List.replicate k (0x30 : UInt8)).map Json.digitVal) 0 = 0 := by
    intro k
    induction k with
    | zero => rfl
    | succ k ih => exact ih
  unfold decimal6
  rw [List.map_append, Json.ofDigits, List.foldl_append]
  have hz := hzeros (6 - (decimal n).length)
  unfold Json.ofDigits at hz
  rw [hz]
  exact ofDigits_decimal n

/-! ## Escapes -/

theorem length_escapeByte (c : UInt8) : 1 ≤ (escapeByte c).length ∧ (escapeByte c).length ≤ 6 := by
  unfold escapeByte
  split_ifs
  -- the bytes of an escape play no part in its length
  all_goals exact ⟨by simp [ascii], by simp [ascii]⟩

theorem length_escapes (data : Bytes) :
    data.length ≤ (data.flatMap escapeByte).length ∧ (data.flatMap escapeByte).length ≤ data.length * 6 := by
  induction data with
  | nil => exact ⟨le_refl 0, le_refl 0⟩
  | cons c r ih =>
    have := length_escapeByte c
    rw [List.flatMap_cons, List.length_append, List.length_cons]
    omega

/-- the escape of a control character is the code point of that character -/
theorem hex4_control : ∀ n < 32, Json.hex4 0x30 0x30 (hexDigit (n / 16)) (hexDigit (n % 16)) = some n := by decide

/-- **Every byte is read back from its escape.** -/
theorem escapeByte_spells (c : UInt8) : Json.Spells (escapeByte c) [c] := by
  unfold escapeByte
  split_ifs with h1 h2 h3 h4 h5 h6
  · rw [h1]
    exact Json.spells_letter (by decide) rfl
  · rw [h2]
    exact Json.spells_letter (by decide) rfl
  · rw [h3]
    exact Json.spells_letter (by decide) rfl
  · rw [h4]
    exact Json.spells_letter (by decide) rfl
  · rw [h5]
    exact Json.spells_letter (by decide) rfl
  · have hc : c.toNat < 32 := h6
    have hs := Json.spells_unicode (hex4_control c.toNat hc) (by omega)
    rw [Utf8.encode, if_pos (by omega), List.map_singleton, UInt8.ofNat_toNat] at hs
    exact hs
  · exact Json.spells_self ⟨h1, h2, h6⟩

/-- with room for six bytes for each nothing is cut off -/
theorem jsonEscapeInto_all (data : Bytes) (cap : ℕ) (h : data.length * 6 ≤ cap) :
    jsonEscapeInto cap data = data.flatMap escapeByte := by
  induction data generalizing cap with
  | nil => rfl
  | cons c r ih =>
    have hlen := (length_escapeByte c).2
    rw [List.length_cons] at h
    unfold jsonEscapeInto
    rw [if_neg (by omega), ih _ (by omega), List.flatMap_cons]

/-! ## The text -/

variable {m : Msg} {seq : ℕ}

/-- the members of the object, one behind the other -/
theorem envelope_members (srcId seq : ℕ) (ts : Timespec) (esc : Bytes) :
    envelopeHead srcId seq ts ++ esc ++ ascii "\"\x7d" =
      0x7B :: Json.member (ascii "src") (decimal srcId ++ 0x2C :: Json.member (ascii "seq") (decimal seq ++ 0x2C ::
        Json.member (ascii "t") (decimal ts.sec ++ 0x2E :: (decimal6 (ts.nsec / 1000) ++ 0x2C ::
          Json.member (ascii "data") (0x22 :: (esc ++ 0x22 :: [0x7D])))))) := by
  unfold envelopeHead Json.member
  simp only [List.append_assoc]
  rfl

/-- the head and the two closing bytes stay within the 128 bytes set apart for them -/
theorem length_envelopeHead (hsrc : m.srcId < 2 ^ 64) (hseq : seq < 2 ^ 64) (hsec : m.ts.sec < 2 ^ 63)
    (hnsec : m.ts.nsec < 10 ^ 9) : (envelopeHead m.srcId seq m.ts).length + 3 ≤ 128 := by
  have h1 := length_decimal_le (show 0 < 20 by norm_num) (show m.srcId < 10 ^ 20 by omega)
  have h2 := length_decimal_le (show 0 < 20 by norm_num) (show seq < 10 ^ 20 by omega)
  have h3 := length_decimal_le (show 0 < 19 by norm_num) (show m.ts.sec < 10 ^ 19 by omega)
  have h4 := length_decimal6 (show m.ts.nsec / 1000 < 10 ^ 6 by omega)
  have hfix : (ascii "\x7b\"src\":").length = 7 ∧ (ascii ",\"seq\":").length = 7 ∧ (ascii ",\"t\":").length = 5 ∧
      (ascii ".").length = 1 ∧ (ascii ",\"data\":\"").length = 9 := by decide
  unfold envelopeHead
  simp only [List.length_append]
  omega

/-- the payload of a TEXT frame: no byte of the data is left out -/
theorem encodeMsg_text (hop : m.opcode = opText) (hsrc : m.srcId < 2 ^ 64) (hseq : seq < 2 ^ 64)
    (hsec : m.ts.sec < 2 ^ 63) (hnsec : m.ts.nsec < 10 ^ 9) :
    encodeMsg seq m =
      (opText, envelopeHead m.srcId seq m.ts ++ m.data.flatMap escapeByte ++ ascii "\"\x7d") := by
  have hroom := length_envelopeHead hsrc hseq hsec hnsec
  unfold encodeMsg
  rw [if_neg (by rw [hop]; decide)]
  dsimp only
  rw [jsonEscapeInto_all m.data _ (by omega)]

/-- what the text says -/
theorem parse_envelope (m : Msg) (seq : ℕ) :
    Json.parse (envelopeHead m.srcId seq m.ts ++ m.data.flatMap escapeByte ++ ascii "\"\x7d") =
      some (.obj [(ascii "src", .num ⟨false, m.srcId, [], 0⟩), (ascii "seq", .num ⟨false, seq, [], 0⟩),
        (ascii "t", .num ⟨false, m.ts.sec, (decimal6 (m.ts.nsec / 1000)).map Json.digitVal, 0⟩),
        (ascii "data", .str m.data)]) := by
  have hnat : ∀ (n fuel : ℕ) (t : Bytes), Json.readValue (fuel + 1) (decimal n ++ 0x2C :: t) =
      some (.num ⟨false, n, [], 0⟩, 0x2C :: t) := by
    intro n fuel t
    rw [Json.readValue_num (decimal_natural n), Json.readNum_nat (decimal_natural n) (by decide), ofDigits_decimal]
    rfl
  have htime : ∀ (fuel : ℕ) (t : Bytes),
      Json.readValue (fuel + 1) (decimal m.ts.sec ++ 0x2E :: (decimal6 (m.ts.nsec / 1000) ++ 0x2C :: t)) =
        some (.num ⟨false, m.ts.sec, (decimal6 (m.ts.nsec / 1000)).map Json.digitVal, 0⟩, 0x2C :: t) := by
    intro fuel t
    have hne : decimal6 (m.ts.nsec / 1000) ≠ [] :=
      fun h => decimal_ne_nil _ (List.append_eq_nil_iff.1 h).2
    rw [Json.readValue_num (decimal_natural _),
      Json.readNum_point (decimal_natural _) hne (decimal6_isDigit _) (by decide), ofDigits_decimal]
    rfl
  have hdata : ∀ fuel : ℕ, Json.readValue (fuel + 1) (0x22 :: (m.data.flatMap escapeByte ++ 0x22 :: [0x7D])) =
      some (.str m.data, [0x7D]) := by
    intro fuel
    have hfuel : m.data.length < (m.data.flatMap escapeByte ++ 0x22 :: [0x7D]).length + 1 := by
      have := (length_escapes m.data).1
      rw [List.length_append]
      omega
    rw [Json.readValue_str, Json.readString_flatMap (fun c _ => escapeByte_spells c) _ hfuel]
    rfl
  rw [envelope_members, Json.parse, List.length_cons, Json.readValue_obj]
  generalize ht : Json.member (ascii "src") _ = t
  -- four members need as many bytes at least
  obtain ⟨n, hn⟩ : ∃ n, t.length = n + 3 := by
    refine ⟨t.length - 3, ?_⟩
    rw [← ht, Json.member, List.length_cons, List.length_append, List.length_cons, List.length_cons]
    omega
  rw [hn, ← ht, Json.readMembers_next (Json.plain_of_all (by decide)) (hnat _ _ _),
    Json.readMembers_next (Json.plain_of_all (by decide)) (hnat _ _ _),
    Json.readMembers_next (Json.plain_of_all (by decide)) (htime _ _),
    Json.readMembers_last (Json.plain_of_all (by decide)) (hdata _)]
  rfl

theorem ascii_of_all {s : Bytes} (h : s.all (fun b => b.toNat < 0x80) = true) : ∀ b ∈ s, b.toNat < 0x80 := by
  intro b hb
  exact of_decide_eq_true (List.all_eq_true.1 h b hb)

/-- the bytes around the data are ASCII -/
theorem envelopeHead_ascii (srcId seq : ℕ) (ts : Timespec) : ∀ b ∈ envelopeHead srcId seq ts, b.toNat < 0x80 := by
  have hdec : ∀ n, ∀ b ∈ decimal n, b.toNat < 0x80 := by
    intro n b hb
    have := (decimal_digits n b hb).2
    omega
  have hdec6 : ∀ n, ∀ b ∈ decimal6 n, b.toNat < 0x80 := by
    intro n b hb
    have := ((isDigit_iff b).1 (decimal6_isDigit n b hb)).2
    omega
  have hfix : ∀ b ∈ ascii "\x7b\"src\":" ++ ascii ",\"seq\":" ++ ascii ",\"t\":" ++ ascii "." ++ ascii ",\"data\":\"",
      b.toNat < 0x80 := ascii_of_all (by decide)
  unfold envelopeHead
  simp only [List.forall_mem_append] at hfix ⊢
  exact ⟨⟨⟨⟨⟨⟨⟨⟨hfix.1.1.1.1, hdec _⟩, hfix.1.1.1.2⟩, hdec _⟩, hfix.1.1.2⟩, hdec _⟩, hfix.1.2⟩, hdec6 _⟩, hfix.2⟩

theorem hexDigit_ascii {n : ℕ} (h : n < 16) : (hexDigit n).toNat < 0x80 := by
  have hall : ∀ n < 16, (hexDigit n).toNat < 0x80 := by decide
  exact hall n h

/-- escapes are ASCII -/
theorem escapeByte_ascii {c : UInt8} (h : c.toNat < 0x80) : ∀ b ∈ escapeByte c, b.toNat < 0x80 := by
  unfold escapeByte
  split_ifs with h1 h2 h3 h4 h5 h6
  · exact ascii_of_all (by decide)
  · exact ascii_of_all (by decide)
  · exact ascii_of_all (by decide)
  · exact ascii_of_all (by decide)
  · exact ascii_of_all (by decide)
  · have hc : c.toNat < 32 := h6
    rw [List.forall_mem_append, List.forall_mem_cons, List.forall_mem_singleton]
    exact ⟨ascii_of_all (by decide), hexDigit_ascii (by omega), hexDigit_ascii (by omega)⟩
  · intro b hb
    rwa [List.mem_singleton.1 hb]

theorem escapeByte_high {c : UInt8} (h : 0x80 ≤ c.toNat) : escapeByte c = [c] := by
  have hne : ∀ d : UInt8, d.toNat < 0x80 → c ≠ d := by
    rintro d hd rfl
    omega
  have hlow : ¬ c < 0x20 := fun hlt => by
    have hc : c.toNat < 32 := hlt
    omega
  unfold escapeByte
  rw [if_neg (hne _ (by decide)), if_neg (hne _ (by decide)), if_neg (hne _ (by decide)), if_neg (hne _ (by decide)),
    if_neg (hne _ (by decide)), if_neg hlow]

/-- the text is well-formed when the data is -/
theorem envelope_wellFormed (hdata : Utf8.WellFormed m.data) (seq : ℕ) :
    Utf8.WellFormed (envelopeHead m.srcId seq m.ts ++ m.data.flatMap escapeByte ++ ascii "\"\x7d") := by
  have hhead := Utf8.wellFormed_ascii (envelopeHead_ascii m.srcId seq m.ts)
  have hesc : Utf8.WellFormed (m.data.flatMap escapeByte) :=
    hdata.flatMap (fun b hb => Utf8.wellFormed_ascii (escapeByte_ascii hb)) fun b hb => escapeByte_high hb
  exact (hhead.append hesc).append (Utf8.wellFormed_ascii (ascii_of_all (by decide)))

/-! ## The frame -/

/-- a frame of the server read back: one frame, final, without a mask, nothing behind it -/
theorem readFrame_frameNew {op : ℕ} {payload : Bytes} (hsend : SendOk (op, payload)) {lim : Rules.Limits}
    (hm : lim.masked = false) (hmax : payload.length ≤ lim.maxFrame) :
    Rules.readFrame lim (frameNew op payload) = .frame true op payload [] := by
  obtain ⟨hop, hlen, hctl⟩ := hsend
  have hparse := wsParseHeader_plainFrame hop hlen hctl []
  have hhead : (firstByte true op :: encodeLen 0 payload.length).length = 1 + (encodeLen 0 payload.length).length := by
    rw [List.length_cons, Nat.add_comm]
  have hall : (plainFrame true op payload).length = 1 + (encodeLen 0 payload.length).length + payload.length := by
    rw [plainFrame, List.length_append, hhead]
  rw [List.append_nil] at hparse
  rw [frameNew_eq hop, Rules.readFrame, hparse]
  dsimp only
  rw [if_neg (by rw [hm]; decide), if_neg (by omega), if_neg (by omega), List.drop_of_length_le (by omega)]
  unfold Rules.payloadOf
  dsimp only
  rw [if_neg Bool.false_ne_true, plainFrame, ← hhead, List.drop_left, List.take_length]

theorem sendOk_data {op : ℕ} (hop : op = opText ∨ op = opBin) {payload : Bytes} (hlen : payload.length < 2 ^ 63) :
    SendOk (op, payload) := by
  refine ⟨?_, hlen, ?_⟩
  · rcases hop with rfl | rfl
    · exact .inr (.inl rfl)
    · exact .inr (.inr (.inl rfl))
  · intro hctl
    have hzero : op &&& 0x8 = 0 := by rcases hop with rfl | rfl <;> rfl
    exact absurd hzero hctl

/-- the number is the next count of an entry, or a first one, or none -/
theorem seqOf_lt {src : List AggSrc} {bound : ℕ} (hbound : 1 < bound) (h : ∀ a ∈ src, a.msgCount + 1 < bound) (m : Msg) :
    seqOf src m < bound := by
  unfold seqOf countMessage findOrCreateSrc
  split
  · next i _ =>
    dsimp only
    rw [Option.bind_some, List.getElem?_modify]
    cases ha : src[i]? with
    | none => exact Nat.zero_lt_of_lt hbound
    | some a => simpa using h a (List.mem_of_getElem? ha)
  · split_ifs
    · exact Nat.zero_lt_of_lt hbound
    · dsimp only
      rw [Option.bind_some, List.getElem?_modify, List.getElem?_append_right (le_refl _), Nat.sub_self]
      simpa using hbound

/-- **The frame of a message says the message.** A BIN message is the payload of one final unmasked BIN frame. A TEXT
message is the string `data` of a JSON object with four members in one final unmasked TEXT frame; the others are its
source, a number, and its time in seconds down to the microsecond. The numbers are within the types of the source, and
the buffer for the text is one that can be allocated. -/
theorem frame_decodes (s : AggSys) (m : Msg) (hsrc : m.srcId < 2 ^ 64) (hsec : m.ts.sec < 2 ^ 63)
    (hnsec : m.ts.nsec < 10 ^ 9) (hcount : ∀ a ∈ s.agg.src, a.msgCount + 1 < 2 ^ 64)
    (halloc : m.data.length * 6 + 128 < 2 ^ 63) :
    (m.opcode = opBin → ∀ lim : Rules.Limits, lim.masked = false → m.data.length ≤ lim.maxFrame →
      Rules.readFrame lim (aggOnMessage s m).1.body = .frame true opBin m.data []) ∧
    (m.opcode = opText → Utf8.WellFormed m.data → ∃ payload,
      (∀ lim : Rules.Limits, lim.masked = false → payload.length ≤ lim.maxFrame →
        Rules.readFrame lim (aggOnMessage s m).1.body = .frame true opText payload []) ∧
      Utf8.WellFormed payload ∧ ∃ src seq t : Json.Num,
        Json.parse payload = some (.obj [(ascii "src", .num src), (ascii "seq", .num seq), (ascii "t", .num t),
          (ascii "data", .str m.data)]) ∧
        src.value = m.srcId ∧ t.value = m.ts.sec + (m.ts.nsec / 1000 : ℕ) / 10 ^ 6) := by
  have hseq := seqOf_lt (by norm_num) hcount m
  rw [aggOnMessage_body]
  constructor
  · intro hop lim hm hmax
    unfold encodeMsg
    rw [if_pos hop]
    exact readFrame_frameNew (sendOk_data (.inr rfl) (show m.data.length < 2 ^ 63 by omega)) hm hmax
  · intro hop hdata
    rw [encodeMsg_text hop hsrc hseq hsec hnsec]
    refine ⟨_, fun lim hm hmax => readFrame_frameNew (sendOk_data (.inl rfl) ?_) hm hmax, envelope_wellFormed hdata _,
      _, _, _, parse_envelope m _, ?_, ?_⟩
    · have hhead := length_envelopeHead hsrc hseq hsec hnsec
      have hesc := (length_escapes m.data).2
      have hend : (ascii "\"\x7d").length = 2 := by decide
      rw [List.length_append, List.length_append]
      omega
    · simp [Json.Num.value, Json.ofDigits]
    · unfold Json.Num.value
      dsimp only
      rw [ofDigits_decimal6, List.length_map, length_decimal6 (by omega)]
      simp

/-- a quote, a backslash, a NUL and a letter of two bytes -/
def oddMsg : Msg := msgNewData 3 opText ⟨12, 5000⟩ [0x22, 0x5C, 0x00, 0xC3, 0xA9]

theorem frame_decodes_odd : ∃ payload, (∀ lim : Rules.Limits, lim.masked = false → payload.length ≤ lim.maxFrame →
      Rules.readFrame lim (aggOnMessage threeStart oddMsg).1.body = .frame true opText payload []) ∧
    Utf8.WellFormed payload ∧ ∃ src seq t : Json.Num,
      Json.parse payload = some (.obj [(ascii "src", .num src), (ascii "seq", .num seq), (ascii "t", .num t),
        (ascii "data", .str [0x22, 0x5C, 0x00, 0xC3, 0xA9])]) ∧
      src.value = 3 ∧ t.value = 12 + 5 / 10 ^ 6 := by
  have hdata : Utf8.WellFormed oddMsg.data := by
    refine ⟨[0x22, 0x5C, 0, 0xE9], ?_, by decide⟩
    simp [Utf8.IsScalar]
  obtain ⟨payload, hframe, hwf, src, seq, t, hparse, hs, ht⟩ :=
    (frame_decodes threeStart oddMsg (by decide) (by decide) (by decide) nofun (by decide)).2 rfl hdata
  refine ⟨payload, hframe, hwf, src, seq, t, hparse, hs, ?_⟩
  rw [ht]
  norm_num [oddMsg, msgNewData]

end WsServer
