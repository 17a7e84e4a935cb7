/-
The role of a connection: source or sink, by the target of its request.

`httpParseHandshake` copies the target into a C string, and `handleHandshakeRead` compares it with `--sink-path` by
`strcmp`. The target is cut out of a binary buffer by its length, so it may contain any byte but a space; `strcmp` sees
it up to the first NUL.

- `role_follows_target`: an accepted request gets the role its whole target asks for, unless the target has a NUL and
  the part before it is the sink path.
- `longer_target_is_sink`: a target that is not the sink path, and a sink.
-/
import Mathlib
import WsServer.Worker.Worker

namespace WsServer

open Ws

/-- all bytes between `"GET "` and the next space -/
def requestTarget (block : Bytes) : Bytes := (block.drop 4).takeWhile (· ≠ 0x20)

/-- the call reads a whole header, `block`, and accepts it -/
def HsAccepts (conf : ServerConfig) (sizes : List ℕ) (c : Conn) (block : Bytes) : Prop :=
  let r := bufRecv sizes c.sock c.rx 4096 conf.handshakeMax
  (r.1 = 1 ∨ r.1 = 2) ∧ ∃ i, httpFindHeaderEnd (bufData r.2.1) = some i ∧ block = (bufData r.2.1).take (i + 4) ∧
    (httpParseHandshake block).status = .HS_OK

/-- a sink exactly for the sink path, a source for every other target -/
def RoleByTarget (conf : ServerConfig) (block : Bytes) (v : Conn) : Prop :=
  (v.role = .ROLE_SINK ↔ requestTarget block = conf.sinkPath) ∧
    (requestTarget block ≠ conf.sinkPath → v.role = .ROLE_SOURCE)

theorem cstr_of_notMem {s : Bytes} (h : 0 ∉ s) : cstr s = s := by
  unfold cstr
  rw [List.takeWhile_eq_self_iff]
  intro b hb
  rw [decide_eq_true_eq]
  rintro rfl
  exact h hb

/-- equal for `strcmp`: equal, or equal up to a NUL -/
theorem cstr_eq_iff {s path : Bytes} (hpath : 0 ∉ path) : cstr s = path ↔ s = path ∨ (0 ∈ s ∧ cstr s = path) := by
  by_cases h : 0 ∈ s
  · constructor
    · intro hs
      exact .inr ⟨h, hs⟩
    · rintro (rfl | hs)
      · exact absurd h hpath
      · exact hs.2
  · rw [cstr_of_notMem h]
    constructor
    · exact .inl
    · rintro (hs | hs)
      · exact hs
      · exact absurd hs.1 h

/-- the path of an accepted request is its whole target -/
theorem accepted_path {block : Bytes} (h : (httpParseHandshake block).status = .HS_OK) :
    (httpParseHandshake block).path = requestTarget block := by
  unfold httpParseHandshake at h ⊢
  dsimp only at h ⊢
  split_ifs at h ⊢
  split at h
  · cases h
  · rfl

/-- an accepted request goes on with the role `strcmp` gives it -/
theorem hsAccepts_role {conf : ServerConfig} {sizes : List ℕ} {c : Conn} {block : Bytes} (h : HsAccepts conf sizes c block) :
    ∃ v, handleHandshakeRead conf sizes c = .send v ∧
      v.role = if cstr (requestTarget block) = conf.sinkPath then .ROLE_SINK else .ROLE_SOURCE := by
  obtain ⟨hrc, i, hend, rfl, hok⟩ := h
  have hpath := accepted_path hok
  have h1 : (bufRecv sizes c.sock c.rx 4096 conf.handshakeMax).1 ≠ -1 := by omega
  have h2 : (bufRecv sizes c.sock c.rx 4096 conf.handshakeMax).1 ≠ -2 := by omega
  have h0 : (bufRecv sizes c.sock c.rx 4096 conf.handshakeMax).1 ≠ 0 := by omega
  unfold handleHandshakeRead
  simp only [if_neg h1, if_neg h2, if_neg h0, hend, hok]
  refine ⟨_, rfl, ?_⟩
  rw [hpath]

/-- **The role follows the target.** An accepted request makes the connection a sink if and only if its whole target is
the sink path, and a source otherwise, exactly when the target has no NUL behind the sink path. -/
theorem role_follows_target (conf : ServerConfig) (hpath : 0 ∉ conf.sinkPath) (sizes : List ℕ) (c : Conn) (block : Bytes)
    (h : HsAccepts conf sizes c block) :
    ∃ v, handleHandshakeRead conf sizes c = .send v ∧
      (RoleByTarget conf block v ↔ ¬ (0 ∈ requestTarget block ∧ cstr (requestTarget block) = conf.sinkPath)) := by
  obtain ⟨v, hv, hrole⟩ := hsAccepts_role h
  refine ⟨v, hv, ?_⟩
  unfold RoleByTarget
  by_cases hs : cstr (requestTarget block) = conf.sinkPath
  · rw [if_pos hs] at hrole
    constructor
    · rintro ⟨hiff, -⟩ ⟨hnul, -⟩
      rw [hiff.1 hrole] at hnul
      exact hpath hnul
    · intro hno
      have htarget : requestTarget block = conf.sinkPath :=
        ((cstr_eq_iff hpath).1 hs).resolve_right hno
      exact ⟨⟨fun _ => htarget, fun _ => hrole⟩, fun hne => absurd htarget hne⟩
  · rw [if_neg hs] at hrole
    have hne : requestTarget block ≠ conf.sinkPath := fun he => hs ((cstr_eq_iff hpath).2 (.inl he))
    constructor
    · rintro - ⟨-, he⟩
      exact hs he
    · intro _
      refine ⟨⟨fun hsink => ?_, fun he => absurd he hne⟩, fun _ => hrole⟩
      rw [hrole] at hsink
      cases hsink

/-- a correct request for a target -/
def requestFor (target : Bytes) : Bytes :=
  ascii "GET " ++ target ++ ascii " HTTP/1.1\r\nUpgrade: websocket\r\nConnection: Upgrade\r\n" ++
    ascii "Sec-WebSocket-Key: dGhlIHNhbXBsZSBub25jZQ==\r\nSec-WebSocket-Version: 13\r\n\r\n"

/-- a new connection whose request for the target has arrived -/
def asking (target : Bytes) : Conn := { connNew 1 with sock := ⟨requestFor target, .open⟩ }

theorem asking_accepted : HsAccepts smallConf [] (asking (ascii "/feed")) (requestFor (ascii "/feed")) ∧
    HsAccepts smallConf [] (asking (ascii "/feed\x00/b")) (requestFor (ascii "/feed\x00/b")) := by
  refine ⟨⟨by decide +kernel, 131, ?_, ?_, ?_⟩, ⟨by decide +kernel, 134, ?_, ?_, ?_⟩⟩ <;> decide +kernel

theorem role_follows_target_sink :
    ∃ v, handleHandshakeRead smallConf [] (asking (ascii "/feed")) = .send v ∧ v.role = .ROLE_SINK := by
  obtain ⟨v, hv, hrole⟩ := role_follows_target smallConf (by decide) [] _ _ asking_accepted.1
  refine ⟨v, hv, ((hrole.2 ?_).1).2 ?_⟩ <;> decide +kernel

/-- **A longer target becomes the sink**: `/feed`, a NUL and more. -/
theorem longer_target_is_sink : ∃ (c v : Conn) (block : Bytes), HsAccepts smallConf [] c block ∧
    handleHandshakeRead smallConf [] c = .send v ∧ requestTarget block ≠ smallConf.sinkPath ∧ v.role = .ROLE_SINK ∧
    ¬ RoleByTarget smallConf block v := by
  obtain ⟨v, hv, hrole⟩ := hsAccepts_role asking_accepted.2
  have hne : requestTarget (requestFor (ascii "/feed\x00/b")) ≠ smallConf.sinkPath := by decide +kernel
  rw [if_pos (by decide +kernel)] at hrole
  exact ⟨_, v, _, asking_accepted.2, hv, hne, hrole, fun h => hne (h.1.1 hrole)⟩

end WsServer
