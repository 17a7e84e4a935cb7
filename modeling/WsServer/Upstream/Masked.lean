/-
The two client encoders of `src/ws_client.c`: `queueMaskedFrame` puts a frame into tx, `sendMaskedFrame` hands it to the
kernel at once. For one mask they produce the same bytes, and the server's side reads the frame back out of them.

`sendMaskedBytes` is `sendMaskedFrame` down to its `send` calls; `Upstream/Blocking.lean` has it as one call that
succeeds or fails. `sendAll_spec` and `sendAll_enough` say what any calls send, and which calls send everything.
-/
import Mathlib
import WsServer.Proto.Header
import WsServer.Upstream.Blocking

namespace WsServer

open Ws

/-! ## Sending on a blocking socket -/

/-- the result of one `send`: more than nothing was taken, EINTR, or an error -/
inductive SendCall where
  | took (n : ℕ)
  | interrupted
  | failed
deriving DecidableEq, Repr

/-- `sendAll`: whether it returns 0, what the kernel took, and the results left; with no result left it still blocks -/
def sendAll : List SendCall → Bytes → Bool × Bytes × List SendCall
  | calls, [] => (true, [], calls)
  | [], _ => (false, [], [])
  | .took n :: calls, b :: data =>
    let r := sendAll calls (data.drop (n - 1))
    (r.1, (b :: data.take (n - 1)) ++ r.2.1, r.2.2)
  | .interrupted :: calls, data => sendAll calls data
  | .failed :: calls, _ => (false, [], calls)

/-- `sendMaskedFrame` behind `randomBytes`: whether it returns 0, and what the kernel took -/
def sendMaskedBytes (calls : List SendCall) (mask : Random 4) (opcode : ℕ) (payload : Bytes) : Bool × Bytes :=
  let header := UInt8.ofNat (0x80 ||| (opcode &&& 0x0F)) :: encodeLen 0x80 payload.length ++ mask.1
  let masked := wsUnmask payload mask.1
  let r := sendAll calls header
  if ¬ r.1 then (false, r.2.1)
  else if 0 < payload.length then
    let r' := sendAll r.2.2 masked
    (r'.1, r.2.1 ++ r'.2.1)
  else (true, r.2.1)

/-- all of the data was taken, or a part from its front -/
theorem sendAll_spec (calls : List SendCall) (data : Bytes) :
    (sendAll calls data).2.1 <+: data ∧ ((sendAll calls data).1 = true → (sendAll calls data).2.1 = data) := by
  fun_induction sendAll calls data with
  | case1 => exact ⟨List.prefix_rfl, fun _ => rfl⟩
  | case2 => exact ⟨List.nil_prefix, fun h => by cases h⟩
  | case3 n calls b data r ih =>
    have hcut : data.take (n - 1) ++ data.drop (n - 1) = data := List.take_append_drop _ _
    constructor
    · obtain ⟨t, ht⟩ := ih.1
      refine ⟨t, ?_⟩
      rw [List.append_assoc, ht, List.cons_append, hcut]
    · intro hall
      rw [show r.2.1 = data.drop (n - 1) from ih.2 hall, List.cons_append, hcut]
  | case4 data calls hne ih => exact ih
  | case5 => exact ⟨List.nil_prefix, fun h => by cases h⟩

/-- the call took at least one byte -/
def SendCall.takes : SendCall → Bool
  | .took _ => true
  | _ => false

/-- with at least one such call for every byte all of the data is taken, and the other calls are left -/
theorem sendAll_enough (calls : List SendCall) (data : Bytes) (hno : .failed ∉ calls)
    (hlen : data.length ≤ calls.countP SendCall.takes) :
    sendAll calls data = (true, data, (sendAll calls data).2.2) ∧ (sendAll calls data).2.2 ⊆ calls ∧
      calls.countP SendCall.takes ≤ (sendAll calls data).2.2.countP SendCall.takes + data.length := by
  fun_induction sendAll calls data with
  | case1 => exact ⟨rfl, List.Subset.refl _, Nat.le_add_right _ _⟩
  | case2 data hne => exact absurd (List.length_eq_zero_iff.1 (Nat.le_zero.1 hlen)) hne
  | case3 n calls b data r ih =>
    have hcount : (SendCall.took n :: calls).countP SendCall.takes = calls.countP SendCall.takes + 1 :=
      List.countP_cons_of_pos rfl
    have hcut : data.take (n - 1) ++ data.drop (n - 1) = data := List.take_append_drop _ _
    have hdrop : (data.drop (n - 1)).length ≤ data.length := by rw [List.length_drop]; omega
    rw [hcount, List.length_cons] at hlen
    obtain ⟨hr, hsub, hleft⟩ := ih (fun h => hno (List.mem_cons_of_mem _ h)) (by omega)
    refine ⟨?_, fun x hx => List.mem_cons_of_mem _ (hsub hx), ?_⟩
    · rw [show r = (true, data.drop (n - 1), r.2.2) from hr, List.cons_append, hcut]
    · change calls.countP SendCall.takes ≤ r.2.2.countP SendCall.takes + _ at hleft
      change (SendCall.took n :: calls).countP SendCall.takes ≤ r.2.2.countP SendCall.takes + _
      rw [hcount, List.length_cons]
      omega
  | case4 calls data hne ih =>
    have hcount : (SendCall.interrupted :: calls).countP SendCall.takes = calls.countP SendCall.takes :=
      List.countP_cons_of_neg (by decide)
    rw [hcount] at hlen ⊢
    obtain ⟨hr, hsub, hleft⟩ := ih (fun h => hno (List.mem_cons_of_mem _ h)) hlen
    exact ⟨hr, fun x hx => List.mem_cons_of_mem _ (hsub hx), hleft⟩
  | case5 => exact absurd List.mem_cons_self hno

/-! ## The same bytes -/

/-- the frame both functions write -/
def maskedBytes (mask : Random 4) (opcode : ℕ) (payload : Bytes) : Bytes :=
  UInt8.ofNat (0x80 ||| (opcode &&& 0x0F)) :: encodeLen 0x80 payload.length ++ mask.1 ++ wsUnmask payload mask.1

theorem queueMaskedFrame_tx {e : UpEnv} {mask : Random 4} (hm : e.mask = some mask) (c : UpstreamClient) (opcode : ℕ)
    (payload : Bytes) :
    bufData (queueMaskedFrame e c opcode payload).2.tx = bufData c.tx ++ maskedBytes mask opcode payload := by
  have hadd : bufData (c.addFrame opcode payload mask).tx = bufData c.tx ++ maskedBytes mask opcode payload := by
    unfold UpstreamClient.addFrame maskedBytes
    dsimp only
    rw [bufAppend_data, bufAppend_data, List.append_assoc]
  unfold queueMaskedFrame
  rw [hm]
  dsimp only
  rcases updateEvents_cases e (c.addFrame opcode payload mask) with h | h
  · rw [h]
    exact hadd
  · rw [h]
    exact hadd

theorem sendMaskedBytes_spec (calls : List SendCall) (mask : Random 4) (opcode : ℕ) (payload : Bytes) :
    (sendMaskedBytes calls mask opcode payload).2 <+: maskedBytes mask opcode payload ∧
      ((sendMaskedBytes calls mask opcode payload).1 = true →
        (sendMaskedBytes calls mask opcode payload).2 = maskedBytes mask opcode payload) := by
  unfold sendMaskedBytes maskedBytes
  dsimp only
  generalize hh : UInt8.ofNat (0x80 ||| (opcode &&& 0x0F)) :: encodeLen 0x80 payload.length ++ mask.1 = header
  obtain ⟨hpart, hall⟩ := sendAll_spec calls header
  by_cases hok : (sendAll calls header).1 = true
  · rw [if_neg (not_not.2 hok), hall hok]
    obtain ⟨hpart', hall'⟩ := sendAll_spec (sendAll calls header).2.2 (wsUnmask payload mask.1)
    by_cases hlen : 0 < payload.length
    · rw [if_pos hlen]
      exact ⟨(List.prefix_append_right_inj header).2 hpart', fun h => congrArg (header ++ ·) (hall' h)⟩
    · obtain rfl : payload = [] := List.length_eq_zero_iff.1 (Nat.eq_zero_of_not_pos hlen)
      rw [if_neg hlen]
      exact ⟨List.prefix_append _ _, fun _ => (List.append_nil header).symm⟩
  · rw [if_pos hok]
    exact ⟨hpart.trans (List.prefix_append _ _), fun h => by cases h⟩

/-- no send fails, and there is at least one that takes something for every byte: then the frame is sent -/
theorem sendMaskedBytes_enough {calls : List SendCall} {mask : Random 4} {opcode : ℕ} {payload : Bytes}
    (hno : .failed ∉ calls) (hlen : (maskedBytes mask opcode payload).length ≤ calls.countP SendCall.takes) :
    sendMaskedBytes calls mask opcode payload = (true, maskedBytes mask opcode payload) := by
  unfold sendMaskedBytes
  unfold maskedBytes at hlen ⊢
  dsimp only
  generalize UInt8.ofNat (0x80 ||| (opcode &&& 0x0F)) :: encodeLen 0x80 payload.length ++ mask.1 = header at hlen ⊢
  rw [List.length_append, length_wsUnmask] at hlen
  obtain ⟨hhead, hsub, hleft⟩ := sendAll_enough calls header hno (by omega)
  obtain ⟨hbody, -⟩ := sendAll_enough (sendAll calls header).2.2 (wsUnmask payload mask.1) (fun h => hno (hsub h))
    (by rw [length_wsUnmask]; omega)
  rw [hhead, if_neg (not_not.2 rfl)]
  by_cases hpay : 0 < payload.length
  · rw [if_pos hpay, hbody]
  · obtain rfl : payload = [] := List.length_eq_zero_iff.1 (Nat.eq_zero_of_not_pos hpay)
    rw [if_neg hpay]
    exact congrArg (true, ·) (List.append_nil header).symm

/-- what a peer makes of the frame -/
def ReadsBack (bytes : Bytes) (opcode : ℕ) (payload : Bytes) : Prop :=
  ∀ t, ∃ h, wsParseHeader (bytes ++ t) = .ok h ∧ h.fin = true ∧ h.masked = true ∧ h.opcode = opcode ∧
    h.headerLen + h.payloadLen = bytes.length ∧
    wsUnmask (((bytes ++ t).drop h.headerLen).take h.payloadLen) h.maskKey = payload

theorem maskedBytes_eq {opcode : ℕ} (hop : IsOpcode opcode) (mask : Random 4) (payload : Bytes) :
    maskedBytes mask opcode payload = maskedFrame true opcode payload mask.1 := by
  unfold maskedBytes maskedFrame firstByte
  rcases hop with rfl | rfl | rfl | rfl | rfl | rfl <;> rfl

theorem maskedBytes_readsBack {opcode : ℕ} (hop : IsOpcode opcode) (mask : Random 4) {payload : Bytes}
    (hlen : payload.length < 2 ^ 63) (hctl : ControlOk true opcode payload.length) :
    ReadsBack (maskedBytes mask opcode payload) opcode payload := by
  intro t
  rw [maskedBytes_eq hop]
  refine ⟨_, wsParseHeader_maskedFrame hop mask.2 hlen hctl t, rfl, rfl, rfl, ?_, ?_⟩
  · simp only [maskedFrame, List.length_append, List.length_cons, length_wsUnmask, mask.2]
    omega
  · dsimp only
    have hshape : maskedFrame true opcode payload mask.1 ++ t =
        (firstByte true opcode :: encodeLen 0x80 payload.length ++ mask.1) ++ (wsUnmask payload mask.1 ++ t) := by
      unfold maskedFrame
      rw [List.append_assoc]
    have hhead : 5 + (encodeLen 0x80 payload.length).length =
        (firstByte true opcode :: encodeLen 0x80 payload.length ++ mask.1).length := by
      simp only [List.length_append, List.length_cons, mask.2]
      omega
    rw [hshape, hhead, List.drop_left, List.take_left' (length_wsUnmask payload mask.1), wsUnmask_wsUnmask]

/-- **One frame, two encoders.** With one mask, what `queueMaskedFrame` appends to tx is what `sendMaskedFrame` sends, and
the frame reads back as it was meant, whatever follows it. Whatever its `send` calls do, `sendMaskedFrame` sends nothing but
a front part of these bytes; it returns 0 only with all of them sent, and it does so as soon as no call fails and enough of
them take something. A C object is smaller than 2^63 bytes. -/
theorem masked_frames_agree (opcode : ℕ) (payload : Bytes) (mask : Random 4) (hop : opcode ∈ [0, 1, 2, 8, 9, 10])
    (hlen : payload.length < 2 ^ 63) (hctl : 8 ≤ opcode → payload.length ≤ 125) :
    let bytes := maskedBytes mask opcode payload
    (∀ (e : UpEnv) (c : UpstreamClient), e.mask = some mask →
      bufData (queueMaskedFrame e c opcode payload).2.tx = bufData c.tx ++ bytes) ∧
    (∀ calls, (sendMaskedBytes calls mask opcode payload).2 <+: bytes) ∧
    (∀ calls, (sendMaskedBytes calls mask opcode payload).1 = true →
      (sendMaskedBytes calls mask opcode payload).2 = bytes) ∧
    (∀ calls, .failed ∉ calls → bytes.length ≤ calls.countP SendCall.takes →
      sendMaskedBytes calls mask opcode payload = (true, bytes)) ∧
    ReadsBack bytes opcode payload := by
  have hop6 : IsOpcode opcode := IsOpcode.of_mem hop
  have hctl' : ControlOk true opcode payload.length := fun hc => ⟨rfl, hctl (hop6.control_iff.1 hc)⟩
  refine ⟨fun e c hm => queueMaskedFrame_tx hm c opcode payload, fun calls => ?_, fun calls hok => ?_, fun calls hno hall => ?_,
    maskedBytes_readsBack hop6 mask hlen hctl'⟩
  · exact (sendMaskedBytes_spec calls mask opcode payload).1
  · exact (sendMaskedBytes_spec calls mask opcode payload).2 hok
  · exact sendMaskedBytes_enough hno hall

/-- a PING of two bytes goes out in eight calls, one of them behind an EINTR -/
theorem masked_frames_agree_ping :
    let mask : Random 4 := ⟨[1, 2, 3, 4], rfl⟩
    let frame : Bytes := [0x89, 0x82, 1, 2, 3, 4, 0x69, 0x6b]
    (∀ (e : UpEnv) (c : UpstreamClient), e.mask = some mask →
      bufData (queueMaskedFrame e c opPing [0x68, 0x69]).2.tx = bufData c.tx ++ frame) ∧
    sendMaskedBytes (.took 4 :: .interrupted :: List.replicate 7 (.took 1)) mask opPing [0x68, 0x69] = (true, frame) ∧
    ReadsBack frame opPing [0x68, 0x69] := by
  obtain ⟨hqueue, -, -, hsend, hback⟩ := masked_frames_agree opPing [0x68, 0x69] ⟨[1, 2, 3, 4], rfl⟩ (by decide) (by decide)
    (by decide)
  exact ⟨hqueue, hsend _ (by decide) (by decide), hback⟩

end WsServer
