/-
Frames with any header: every combination of FIN, RSV bits, opcode and length form, written with a mask or without.

`AnyFrame` is the content of a frame as a peer may put it on the wire, legal or not. What a reader makes of it does not
depend on the mask (`readFrame_masked`, `readFrame_plain`), so the passes over both encodings of one sequence go
through the same frames (`pass_encoded`).
-/
import Mathlib
import WsServer.Proto.Rules

namespace WsServer.Rules

open Ws

/-! ## A frame and its two encodings -/

/-- how the length is written: in the second byte, in two more, in eight more -/
inductive LenForm where
  | seven | two | eight
deriving DecidableEq, Repr

/-- the lengths a form can hold -/
def LenForm.Holds : LenForm → ℕ → Prop
  | .seven, len => len ≤ 125
  | .two, len => len < 2 ^ 16
  | .eight, len => len < 2 ^ 64

/-- the lengths a form may be used for -/
def LenForm.Minimal : LenForm → ℕ → Prop
  | .seven, _ => True
  | .two, len => 126 ≤ len
  | .eight, len => 2 ^ 16 ≤ len ∧ len < 2 ^ 63

instance (form : LenForm) (len : ℕ) : Decidable (form.Holds len) := by
  cases form <;> unfold LenForm.Holds <;> infer_instance

instance (form : LenForm) (len : ℕ) : Decidable (form.Minimal len) := by
  cases form <;> unfold LenForm.Minimal <;> infer_instance

/-- the length field behind the first byte; `m` is the mask bit -/
def LenForm.bytes (m : ℕ) : LenForm → ℕ → Bytes
  | .seven, len => [UInt8.ofNat (m ||| len)]
  | .two, len => [UInt8.ofNat (m ||| 126), UInt8.ofNat (len >>> 8), UInt8.ofNat len]
  | .eight, len => UInt8.ofNat (m ||| 127) :: (List.range 8).map fun i => UInt8.ofNat (len >>> (8 * (7 - i)))

structure AnyFrame where
  fin : Bool
  rsv : Fin 8
  op : Fin 16
  form : LenForm
  payload : Bytes
  holds : form.Holds payload.length

theorem LenForm.holds_short (form : LenForm) (payload : Bytes) : form.Holds (payload.take 125).length := by
  have hle : (payload.take 125).length ≤ 125 := List.length_take_le 125 payload
  cases form with
  | seven => exact hle
  | two => exact hle.trans_lt (by norm_num)
  | eight => exact hle.trans_lt (by norm_num)

/-- a frame without reserved bits and with 125 bytes at most -/
def AnyFrame.short (fin : Bool) (op : ℕ) (form : LenForm) (payload : Bytes) : AnyFrame :=
  ⟨fin, 0, Fin.ofNat 16 op, form, payload.take 125, form.holds_short payload⟩

def maskKey (a b c d : UInt8) : { key : Bytes // key.length = 4 } := ⟨[a, b, c, d], rfl⟩

def AnyFrame.first (f : AnyFrame) : UInt8 :=
  UInt8.ofNat ((if f.fin then 0x80 else 0) ||| (f.rsv.1 <<< 4) ||| f.op.1)

def AnyFrame.masked (f : AnyFrame) (key : Bytes) : Bytes :=
  f.first :: f.form.bytes 0x80 f.payload.length ++ key ++ wsUnmask f.payload key

def AnyFrame.plain (f : AnyFrame) : Bytes := f.first :: f.form.bytes 0 f.payload.length ++ f.payload

/-- what a reader makes of the frame, with `t` behind it -/
def AnyFrame.verdict (f : AnyFrame) (maxFrame : ℕ) (t : Bytes) : Read :=
  if f.rsv ≠ 0 ∨ reservedOp f.op ∨ ¬ f.form.Minimal f.payload.length ∨ ¬ ControlOk f.fin f.op f.payload.length then
    .bad 1002
  else if maxFrame < f.payload.length then .bad 1009
  else .frame f.fin f.op f.payload t

/-! ## Reading it -/

theorem AnyFrame.first_bits (f : AnyFrame) :
    finBit f.first = f.fin ∧ (rsvBits f.first = 0 ↔ f.rsv = 0) ∧ opcodeBits f.first = f.op := by
  have h : ∀ (fin : Bool) (rsv : Fin 8) (op : Fin 16),
      finBit (UInt8.ofNat ((if fin then 0x80 else 0) ||| (rsv.1 <<< 4) ||| op.1)) = fin ∧
        (rsvBits (UInt8.ofNat ((if fin then 0x80 else 0) ||| (rsv.1 <<< 4) ||| op.1)) = 0 ↔ rsv = 0) ∧
        opcodeBits (UInt8.ofNat ((if fin then 0x80 else 0) ||| (rsv.1 <<< 4) ||| op.1)) = op := by decide
  exact h f.fin f.rsv f.op

theorem length_formBytes (m : ℕ) (form : LenForm) (len : ℕ) :
    1 ≤ (form.bytes m len).length ∧ (form.bytes m len).length ≤ 9 := by
  cases form <;> simp [LenForm.bytes]

/-- the length comes back if the form is the shortest one, and is refused otherwise -/
theorem wsParseLen_form {m len : ℕ} {form : LenForm} (hm : m = 0 ∨ m = 0x80) (hh : form.Holds len) (b0 : UInt8)
    (t : Bytes) :
    maskBit ((b0 :: form.bytes m len ++ t).getD 1 0) = decide (m = 0x80) ∧
      wsParseLen (b0 :: form.bytes m len ++ t) (lenBits ((b0 :: form.bytes m len ++ t).getD 1 0)) =
        if form.Minimal len then .ok len (1 + (form.bytes m len).length) else .errProto := by
  cases form with
  | seven =>
    have hle : len ≤ 125 := hh
    obtain ⟨e1, e2⟩ := secondByte hm (show len < 128 by omega)
    refine ⟨e1, ?_⟩
    show wsParseLen _ (lenBits (UInt8.ofNat (m ||| len))) = _
    rw [e2, if_pos (show LenForm.seven.Minimal len from trivial)]
    unfold wsParseLen
    rw [if_neg (by omega), if_neg (by omega)]
    rfl
  | two =>
    have hlt : len < 2 ^ 16 := hh
    obtain ⟨e1, e2⟩ := secondByte hm (show 126 < 128 by omega)
    refine ⟨e1, ?_⟩
    show wsParseLen _ (lenBits (UInt8.ofNat (m ||| 126))) = _
    have hb : beNat [UInt8.ofNat (len >>> 8), UInt8.ofNat len] = len := beNat_two len hlt
    rw [e2]
    simp only [wsParseLen, LenForm.bytes, if_true, List.cons_append, List.nil_append, List.drop_succ_cons,
      List.drop_zero, List.take_succ_cons, List.take_zero, hb, List.length_cons]
    rw [if_neg (by omega)]
    by_cases hmin : LenForm.two.Minimal len
    · have hle : 126 ≤ len := hmin
      rw [if_neg (by omega), if_pos hmin]
      rfl
    · have hlt' : len < 126 := not_le.1 hmin
      rw [if_pos hlt', if_neg hmin]
  | eight =>
    have hlt : len < 2 ^ 64 := hh
    obtain ⟨e1, e2⟩ := secondByte hm (show 127 < 128 by omega)
    refine ⟨e1, ?_⟩
    show wsParseLen _ (lenBits (UInt8.ofNat (m ||| 127))) = _
    have hb := beNat_eight len hlt
    have htake : ((((List.range 8).map fun i => UInt8.ofNat (len >>> (8 * (7 - i)))) ++ t)).take 8 =
        (List.range 8).map fun i => UInt8.ofNat (len >>> (8 * (7 - i))) := by
      rw [List.take_append_of_le_length (by simp), List.take_of_length_le (by simp)]
    have h63 := and_bit63 hlt
    rw [e2]
    simp only [wsParseLen, LenForm.bytes, List.cons_append, List.drop_succ_cons, List.drop_zero, htake, hb,
      List.length_cons, List.length_append, List.length_map, List.length_range]
    rw [if_neg (by omega), if_pos trivial, if_neg (by omega)]
    by_cases hmin : LenForm.eight.Minimal len
    · obtain ⟨h16, hbig⟩ := hmin
      rw [if_neg (not_not.2 (h63.2 hbig)), if_neg (by omega), if_pos ⟨h16, hbig⟩]
    · rw [if_neg hmin]
      by_cases hbig : len < 2 ^ 63
      · have hsmall : ¬ 2 ^ 16 ≤ len := fun h => hmin ⟨h, hbig⟩
        rw [if_neg (not_not.2 (h63.2 hbig)), if_pos (by omega)]
      · rw [if_pos (fun h => hbig (h63.1 h))]

/-- the header of any frame: refused for its bits, or read up to its length -/
theorem wsParseHeader_form (f : AnyFrame) {m : ℕ} (hm : m = 0 ∨ m = 0x80) (t : Bytes) :
    wsParseHeader (f.first :: f.form.bytes m f.payload.length ++ t) =
      if f.rsv ≠ 0 ∨ reservedOp f.op ∨ ¬ f.form.Minimal f.payload.length then .errProto
      else
        wsParseTail (f.first :: f.form.bytes m f.payload.length ++ t) f.fin f.op (decide (m = 0x80)) f.payload.length
          (1 + (f.form.bytes m f.payload.length).length) := by
  obtain ⟨hf, hr, ho⟩ := f.first_bits
  obtain ⟨hmb, hpl⟩ := wsParseLen_form hm f.holds f.first t
  have hel := length_formBytes m f.form f.payload.length
  have h0 : (f.first :: f.form.bytes m f.payload.length ++ t).getD 0 0 = f.first := rfl
  have h2 : ¬ (f.first :: f.form.bytes m f.payload.length ++ t).length < 2 := by
    rw [List.length_append, List.length_cons]; omega
  unfold wsParseHeader
  rw [if_neg h2, h0, hmb, hpl, ho, hf]
  by_cases hrsv : f.rsv = 0
  · rw [if_neg (not_not.2 (hr.2 hrsv))]
    by_cases hres : reservedOp f.op
    · rw [if_pos hres, if_pos (Or.inr (Or.inl hres))]
    · rw [if_neg hres]
      by_cases hmin : f.form.Minimal f.payload.length
      · have hok : ¬ (f.rsv ≠ 0 ∨ reservedOp f.op ∨ ¬ f.form.Minimal f.payload.length) := by
          rintro (h | h | h)
          · exact h hrsv
          · exact hres h
          · exact h hmin
        rw [if_pos hmin, if_neg hok]
      · rw [if_neg hmin, if_pos (Or.inr (Or.inr hmin))]
  · rw [if_pos (fun h => hrsv (hr.1 h)), if_pos (Or.inl hrsv)]

theorem controlOk_iff {fin : Bool} {op len : ℕ} :
    ControlOk fin op len ↔ ¬ (op &&& 0x8 ≠ 0 ∧ (fin = false ∨ 125 < len)) := by
  constructor
  · exact ControlOk.not_err
  · intro h hc
    cases fin with
    | false => exact absurd ⟨hc, Or.inl rfl⟩ h
    | true => exact ⟨rfl, by by_contra hl; exact h ⟨hc, Or.inr (by omega)⟩⟩

/-- refused by every reader for its header -/
def AnyFrame.Bad (f : AnyFrame) : Prop :=
  f.rsv ≠ 0 ∨ reservedOp f.op ∨ ¬ f.form.Minimal f.payload.length ∨ ¬ ControlOk f.fin f.op f.payload.length

instance (f : AnyFrame) : Decidable f.Bad := by unfold AnyFrame.Bad; infer_instance

/-- the header and the key of any frame: refused, or read up to the payload -/
theorem wsParseHeader_any (f : AnyFrame) {m : ℕ} (hm : m = 0 ∨ m = 0x80) {key : Bytes}
    (hkey : key.length = if m = 0x80 then 4 else 0) (t : Bytes) :
    wsParseHeader (f.first :: f.form.bytes m f.payload.length ++ key ++ t) =
      if f.Bad then .errProto
      else .ok {
        fin := f.fin
        opcode := f.op
        masked := decide (m = 0x80)
        payloadLen := f.payload.length
        maskKey := key
        headerLen := (f.first :: f.form.bytes m f.payload.length ++ key).length } := by
  have hhead : (f.first :: f.form.bytes m f.payload.length).length = 1 + (f.form.bytes m f.payload.length).length := by
    simp [Nat.add_comm]
  rw [List.append_assoc, wsParseHeader_form f hm]
  by_cases hbad : f.rsv ≠ 0 ∨ reservedOp f.op ∨ ¬ f.form.Minimal f.payload.length
  · have hb : f.Bad := by
      rcases hbad with h | h | h
      · exact .inl h
      · exact .inr (.inl h)
      · exact .inr (.inr (.inl h))
    rw [if_pos hbad, if_pos hb]
  rw [if_neg hbad]
  unfold wsParseTail
  have hfull : ¬ (decide (m = 0x80) = true ∧
      (f.first :: f.form.bytes m f.payload.length ++ (key ++ t)).length <
        1 + (f.form.bytes m f.payload.length).length + 4) := by
    rintro ⟨h1, h2⟩
    rw [decide_eq_true_eq] at h1
    rw [if_pos h1] at hkey
    rw [List.length_append, hhead, List.length_append] at h2
    omega
  rw [if_neg hfull]
  by_cases hctl : ControlOk f.fin f.op f.payload.length
  swap
  · rw [if_pos (not_not.1 (fun h => hctl (controlOk_iff.2 h))), if_pos (.inr (.inr (.inr hctl)))]
  have hgood : ¬ f.Bad := by
    rintro (h | h | h | h)
    · exact hbad (.inl h)
    · exact hbad (.inr (.inl h))
    · exact hbad (.inr (.inr h))
    · exact h hctl
  -- the header ends where the payload starts
  have hhl : (if decide (m = 0x80) = true then 1 + (f.form.bytes m f.payload.length).length + 4
      else 1 + (f.form.bytes m f.payload.length).length) =
        (f.first :: f.form.bytes m f.payload.length ++ key).length := by
    rw [List.length_append, hhead, hkey]
    by_cases h : m = 0x80 <;> simp [h]
  have hk : (if decide (m = 0x80) = true then
      ((f.first :: f.form.bytes m f.payload.length ++ (key ++ t)).drop
        (1 + (f.form.bytes m f.payload.length).length)).take 4 else []) = key := by
    by_cases h : m = 0x80
    · rw [if_pos h] at hkey
      rw [if_pos (by simp [h]), ← hhead, List.drop_left, List.take_append_of_le_length (by omega),
        List.take_of_length_le (by omega)]
    · rw [if_neg h] at hkey
      rw [if_neg (by simp [h]), List.eq_nil_of_length_eq_zero hkey]
  rw [if_neg (controlOk_iff.1 hctl), if_neg hgood, hhl, hk]

/-- what the first four bytes behind the length and the rest come to, for both encodings -/
theorem readFrame_form (lim : Limits) (f : AnyFrame) {m : ℕ} (hm : m = 0 ∨ m = 0x80) (hmask : lim.masked = decide (m = 0x80))
    {key body : Bytes} (hkey : key.length = if m = 0x80 then 4 else 0) (hbody : body.length = f.payload.length)
    (hpay : (if m = 0x80 then wsUnmask body key else body) = f.payload) (t : Bytes) :
    readFrame lim (f.first :: f.form.bytes m f.payload.length ++ key ++ body ++ t) = f.verdict lim.maxFrame t := by
  unfold AnyFrame.verdict readFrame
  rw [List.append_assoc _ body t, wsParseHeader_any f hm hkey]
  by_cases hbad : f.Bad
  · rw [if_pos hbad, if_pos (show f.rsv ≠ 0 ∨ _ from hbad)]
  rw [if_neg hbad, if_neg (show ¬ (f.rsv ≠ 0 ∨ _) from hbad)]
  dsimp only
  rw [if_neg (not_not.2 hmask.symm)]
  by_cases hbig : lim.maxFrame < f.payload.length
  · rw [if_pos hbig, if_pos hbig]
  rw [if_neg hbig, if_neg hbig, if_neg (by simp only [List.length_append] at hbody ⊢; omega)]
  have hdrop : (f.first :: f.form.bytes m f.payload.length ++ key ++ (body ++ t)).drop
      ((f.first :: f.form.bytes m f.payload.length ++ key).length + f.payload.length) = t := by
    rw [← List.drop_drop, List.drop_left, ← hbody, List.drop_left]
  have htake : (body ++ t).take f.payload.length = body := by
    rw [← hbody, List.take_left]
  rw [hdrop]
  unfold payloadOf
  dsimp only
  rw [List.drop_left, htake]
  by_cases h : m = 0x80
  · rw [if_pos h] at hpay
    rw [if_pos (by simp [h]), hpay]
  · rw [if_neg h] at hpay
    rw [if_neg (by simp [h]), hpay]

theorem readFrame_masked {lim : Limits} (hm : lim.masked = true) (f : AnyFrame) {key : Bytes} (hk : key.length = 4)
    (t : Bytes) : readFrame lim (f.masked key ++ t) = f.verdict lim.maxFrame t :=
  readFrame_form lim f (Or.inr rfl) (by simpa using hm) (by simpa using hk) (length_wsUnmask _ _) (by simp) t

theorem readFrame_plain {lim : Limits} (hm : lim.masked = false) (f : AnyFrame) (t : Bytes) :
    readFrame lim (f.plain ++ t) = f.verdict lim.maxFrame t := by
  have h := @readFrame_form lim f 0 (Or.inl rfl) (by simpa using hm) [] f.payload rfl rfl (by simp) t
  rwa [List.append_nil] at h

/-! ## A sequence of frames -/

/-- frame after frame: what the frames are worth, how the sequence ends, and how many frames were taken before -/
def goThrough (lim : Limits) : Assembly → List AnyFrame → List Event × Option Stop × ℕ
  | _, [] => ([], none, 0)
  | asm, f :: fs =>
    match f.verdict lim.maxFrame [] with
    | .more => ([], none, 0)
    | .bad code => ([], some (.violation code), 0)
    | .frame fin op payload _ =>
      match judge lim asm fin op payload with
      | .stop s => ([], some s, 0)
      | .go asm' events =>
        let r := goThrough lim asm' fs
        (events ++ r.1, r.2.1, r.2.2 + 1)

/-- the mask plays no part in it -/
theorem goThrough_masked (m m' : Bool) (maxFrame maxMessage : ℕ) (asm : Assembly) (fs : List AnyFrame) :
    goThrough ⟨m, maxFrame, maxMessage⟩ asm fs = goThrough ⟨m', maxFrame, maxMessage⟩ asm fs := by
  induction fs generalizing asm with
  | nil => rfl
  | cons f fs ih =>
    have hj : ∀ fin op payload, judge ⟨m, maxFrame, maxMessage⟩ asm fin op payload =
        judge ⟨m', maxFrame, maxMessage⟩ asm fin op payload := fun _ _ _ => rfl
    unfold goThrough
    dsimp only
    cases f.verdict maxFrame [] with
    | more => rfl
    | bad code => rfl
    | frame fin op payload rest =>
      dsimp only
      rw [hj]
      cases judge ⟨m', maxFrame, maxMessage⟩ asm fin op payload with
      | stop s => rfl
      | go asm' events =>
        dsimp only
        rw [ih asm']

/-- the verdict on a frame, with what is behind it put back -/
theorem verdict_rest (f : AnyFrame) (maxFrame : ℕ) (t : Bytes) :
    f.verdict maxFrame t = match f.verdict maxFrame [] with
      | .frame fin op payload _ => .frame fin op payload t
      | r => r := by
  unfold AnyFrame.verdict
  split_ifs <;> rfl

/-- **The pass over an encoded sequence goes through its frames**, in whatever encoding the reader takes them. -/
theorem pass_encoded {α : Type} (lim : Limits) (enc : α → Bytes) (frame : α → AnyFrame)
    (henc : ∀ a t, readFrame lim (enc a ++ t) = (frame a).verdict lim.maxFrame t) (as : List α) (asm : Assembly) :
    (pass lim asm (as.flatMap enc)).events = (goThrough lim asm (as.map frame)).1 ∧
      (pass lim asm (as.flatMap enc)).stop = (goThrough lim asm (as.map frame)).2.1 ∧
      (pass lim asm (as.flatMap enc)).rest = (as.drop (goThrough lim asm (as.map frame)).2.2).flatMap enc := by
  induction as generalizing asm with
  | nil =>
    have h : move lim asm [] = .more := rfl
    rw [List.flatMap_nil, pass_more h]
    exact ⟨rfl, rfl, rfl⟩
  | cons a as ih =>
    have hr := henc a (as.flatMap enc)
    rw [verdict_rest] at hr
    rw [List.flatMap_cons, List.map_cons, goThrough]
    cases hv : (frame a).verdict lim.maxFrame [] with
    | more =>
      rw [hv] at hr
      have hm : move lim asm (enc a ++ as.flatMap enc) = .more := by
        unfold move; rw [hr]
      rw [pass_more hm]
      exact ⟨rfl, rfl, by simp⟩
    | bad code =>
      rw [hv] at hr
      have hm : move lim asm (enc a ++ as.flatMap enc) = .stop (.violation code) := by
        unfold move; rw [hr]
      rw [pass_stop hm]
      exact ⟨rfl, rfl, by simp⟩
    | frame fin op payload rest =>
      rw [hv] at hr
      dsimp only at hr ⊢
      cases hj : judge lim asm fin op payload with
      | stop s =>
        have hm : move lim asm (enc a ++ as.flatMap enc) = .stop s := by
          unfold move; rw [hr]; dsimp only; rw [hj]; rfl
        rw [pass_stop hm]
        exact ⟨rfl, rfl, by simp⟩
      | go asm' events =>
        have hm : move lim asm (enc a ++ as.flatMap enc) = .go asm' events (as.flatMap enc) := by
          unfold move; rw [hr]; dsimp only; rw [hj]; rfl
        obtain ⟨h1, h2, h3⟩ := ih asm'
        rw [pass_go hm]
        exact ⟨by rw [Pass.after, h1], h2, by rw [Pass.after, h3]; rfl⟩

/-- a sequence without a CLOSE does not end in one -/
theorem goThrough_noClose (lim : Limits) (asm : Assembly) (fs : List AnyFrame) (h : ∀ f ∈ fs, f.op.1 ≠ opClose)
    (payload : Bytes) : (goThrough lim asm fs).2.1 ≠ some (.closed payload) := by
  induction fs generalizing asm with
  | nil => simp [goThrough]
  | cons f fs ih =>
    have hop : ∀ fin op p rest, f.verdict lim.maxFrame [] = .frame fin op p rest → op = f.op := by
      intro fin op p rest hv
      unfold AnyFrame.verdict at hv
      split_ifs at hv
      simp only [Read.frame.injEq] at hv
      exact hv.2.1.symm
    unfold goThrough
    cases hv : f.verdict lim.maxFrame [] with
    | more => simp
    | bad code => simp
    | frame fin op p rest =>
      dsimp only
      cases hj : judge lim asm fin op p with
      | stop s =>
        intro he
        rw [Option.some.injEq] at he
        subst he
        have hne := h f List.mem_cons_self
        rw [← hop fin op p rest hv] at hne
        unfold judge at hj
        rw [if_neg hne] at hj
        split_ifs at hj
        · split at hj
          · cases hj
          · unfold judgeFragment at hj
            split_ifs at hj <;> cases hj
      | go asm' events => exact ih asm' fun g hg => h g (List.mem_cons_of_mem _ hg)

end WsServer.Rules
