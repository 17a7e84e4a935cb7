/-
Numbers in decimal, as `%d`, `%llu` and `%06ld` write them: digits, length, and the value read back.
-/
import Mathlib
import WsServer.Proto.Http

namespace WsServer

open Ws

def IsDigit (c : UInt8) : Prop := 0x30 ≤ c.toNat ∧ c.toNat ≤ 0x39

instance (c : UInt8) : Decidable (IsDigit c) := by unfold IsDigit; infer_instance

/-- the value of a digit string, behind what was read already -/
def digitsValue (ds : Bytes) (sofar : ℕ) : ℕ := ds.foldl (fun n c => n * 10 + (c.toNat - 0x30)) sofar

/-- the last digit stands behind the others -/
theorem decimal_step (n : ℕ) :
    decimal n = if n < 10 then [UInt8.ofNat (0x30 + n)] else decimal (n / 10) ++ [UInt8.ofNat (0x30 + n % 10)] := by
  unfold decimal
  split_ifs with h
  · rw [Nat.toDigits_of_lt_base h, List.map_singleton, Nat.toNat_digitChar_of_lt_ten h]
  · rw [Nat.toDigits_of_base_le (by norm_num) (not_lt.1 h), List.map_append, List.map_singleton,
      Nat.toNat_digitChar_of_lt_ten (Nat.mod_lt _ (by norm_num))]

theorem digit_toNat {d : ℕ} (h : d < 10) : (UInt8.ofNat (0x30 + d)).toNat = 0x30 + d := by
  rw [UInt8.toNat_ofNat']
  omega

theorem decimal_digits (n : ℕ) : ∀ c ∈ decimal n, IsDigit c := by
  induction n using Nat.strong_induction_on with
  | _ n ih =>
    intro c hc
    rw [decimal_step] at hc
    unfold IsDigit
    split_ifs at hc with h
    · rw [List.mem_singleton.1 hc, digit_toNat h]
      omega
    · rcases List.mem_append.1 hc with hc | hc
      · exact ih (n / 10) (by omega) c hc
      · rw [List.mem_singleton.1 hc, digit_toNat (Nat.mod_lt _ (by norm_num))]
        omega

theorem decimal_ne_nil (n : ℕ) : decimal n ≠ [] := by
  rw [decimal_step]
  split_ifs <;> simp

/-- a number below `10 ^ k` has at most `k` digits -/
theorem length_decimal_le {n k : ℕ} (hk : 0 < k) (h : n < 10 ^ k) : (decimal n).length ≤ k := by
  unfold decimal
  rw [List.length_map]
  exact (Nat.length_toDigits_le_iff (by norm_num) hk).2 h

/-- **The value is read back.** -/
theorem digitsValue_decimal (n : ℕ) : digitsValue (decimal n) 0 = n := by
  induction n using Nat.strong_induction_on with
  | _ n ih =>
    rw [decimal_step]
    split_ifs with h
    · simp only [digitsValue, List.foldl_cons, List.foldl_nil, digit_toNat h]
      omega
    · have hr := ih (n / 10) (by omega)
      unfold digitsValue at hr ⊢
      rw [List.foldl_append, hr]
      simp only [List.foldl_cons, List.foldl_nil, digit_toNat (Nat.mod_lt n (show 0 < 10 by norm_num))]
      omega

end WsServer
