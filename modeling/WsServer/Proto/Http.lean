/-
`src/http.c` and `wsComputeAccept` of `src/ws.c`: the HTTP/1.1 part of the opening handshake.

A position the C code returns as a pointer is an index, a value it returns as pointer and length is the bytes
themselves, and NULL is `none`. The scans run over lists; their fuel is the number of bytes left, which every step
makes smaller.

- `httpFindHeaderEnd_some`: an index found is the start of CRLFCRLF inside the buffer.
- `wsComputeAccept_isSome`: the accept key exists exactly for keys of 24 characters that decode to 16 bytes, and has
  28 characters (`length_wsComputeAccept`).
-/
import Mathlib
import WsServer.Proto.Base64
import WsServer.Proto.Sha1

namespace WsServer

open Ws

/-! ## The accept key -/

def MAGIC : Bytes := ascii "258EAFA5-E914-47DA-95CA-C5AB0DC85B11"

/-- `wsComputeAccept`; `none` is -1 -/
def wsComputeAccept (key : Bytes) : Option Bytes :=
  if key.length ≠ 24 ∨ base64DecodedLen key ≠ some 16 then none
  else some (base64Encode (sha1 (key ++ MAGIC)))

theorem wsComputeAccept_isSome (key : Bytes) :
    (wsComputeAccept key).isSome = true ↔ key.length = 24 ∧ base64DecodedLen key = some 16 := by
  unfold wsComputeAccept
  split_ifs with h
  · simp only [Option.isSome_none, Bool.false_eq_true, false_iff]
    rintro ⟨h1, h2⟩
    exact h.elim (· h1) (· h2)
  · simpa using h

theorem length_wsComputeAccept {key accept : Bytes} (h : wsComputeAccept key = some accept) : accept.length = 28 := by
  unfold wsComputeAccept at h
  split_ifs at h
  rw [Option.some.injEq] at h
  subst h
  rw [length_base64Encode, length_sha1]
  rfl

/-! ## Lines and headers -/

/-- index of the first CRLF -/
def findCRLF : Bytes → Option ℕ
  | a :: b :: r => if a = 0x0D ∧ b = 0x0A then some 0 else (findCRLF (b :: r)).map (· + 1)
  | _ => none

/-- index of the first CRLFCRLF -/
def httpFindHeaderEnd : Bytes → Option ℕ
  | a :: b :: c :: d :: r =>
    if a = 0x0D ∧ b = 0x0A ∧ c = 0x0D ∧ d = 0x0A then some 0 else (httpFindHeaderEnd (b :: c :: d :: r)).map (· + 1)
  | _ => none

/-- `tolower` in the C locale -/
def lower (c : UInt8) : UInt8 := if 0x41 ≤ c ∧ c ≤ 0x5A then c + 0x20 else c

/-- `strncasecmp(a, b, n) == 0` on byte strings of length `n` without NUL in `b` -/
def caseEq (a b : Bytes) : Bool := a.map lower = b.map lower

/-- the spaces at both ends go -/
def trimSpaces (v : Bytes) : Bytes := ((v.dropWhile (· = 0x20)).reverse.dropWhile (· = 0x20)).reverse

/-- the loop of `httpFindHeader` over the lines of `p` -/
def findHeaderLine (name : Bytes) : ℕ → Bytes → Option Bytes
  | 0, _ => none
  | fuel + 1, p =>
    if p = [] then none
    else
      let nl := findCRLF p
      let lineLen := nl.getD p.length
      if lineLen = 0 then none
      else
        let line := p.take lineLen
        if name.length < lineLen ∧ line.getD name.length 0 = 0x3A ∧ caseEq (line.take name.length) name then
          some (trimSpaces (line.drop (name.length + 1)))
        else if nl = none then none
        else findHeaderLine name fuel (p.drop (lineLen + 2))

/-- `httpFindHeader`: the value of the first line after the request line that carries the name -/
def httpFindHeader (buf name : Bytes) : Option Bytes :=
  (findCRLF buf).bind fun nl => findHeaderLine name buf.length (buf.drop (nl + 2))

/-- the loop of `httpHeaderHasToken`, one list element at a time -/
def hasToken (token : Bytes) : ℕ → Bytes → Bool
  | 0, _ => false
  | fuel + 1, val =>
    if val = [] then false
    else
      let v := val.dropWhile fun c => c = 0x20 ∨ c = 0x2C
      let elem := ((v.takeWhile (· ≠ 0x2C)).reverse.dropWhile (· = 0x20)).reverse
      if elem ≠ [] ∧ elem.length = token.length ∧ caseEq elem token then true
      else hasToken token fuel (v.dropWhile (· ≠ 0x2C))

def httpHeaderHasToken (val token : Bytes) : Bool := hasToken token (val.length + 1) val

/-! ## The request -/

inductive HandshakeStatus where
  | HS_OK | HS_NOT_UPGRADE | HS_BAD_VERSION | HS_BAD_REQUEST
deriving DecidableEq, Repr

structure HandshakeResult where
  status : HandshakeStatus
  path : Bytes
  acceptKey : Bytes
deriving DecidableEq, Repr

/-- `httpParseHandshake` on a whole header block -/
def httpParseHandshake (buf : Bytes) : HandshakeResult :=
  if buf.length < 5 ∨ buf.take 4 ≠ ascii "GET " then ⟨.HS_BAD_REQUEST, [], []⟩
  else
    let target := buf.drop 4
    let path := target.takeWhile (· ≠ 0x20)
    if path.length = target.length then ⟨.HS_BAD_REQUEST, [], []⟩
    else if path.length = 0 ∨ 256 ≤ path.length then ⟨.HS_BAD_REQUEST, [], []⟩
    else if ¬ ((httpFindHeader buf (ascii "Upgrade")).any (httpHeaderHasToken · (ascii "websocket")) ∧
        (httpFindHeader buf (ascii "Connection")).any (httpHeaderHasToken · (ascii "Upgrade"))) then
      ⟨.HS_NOT_UPGRADE, path, []⟩
    else if httpFindHeader buf (ascii "Sec-WebSocket-Version") ≠ some (ascii "13") then ⟨.HS_BAD_VERSION, path, []⟩
    else
      match (httpFindHeader buf (ascii "Sec-WebSocket-Key")).bind wsComputeAccept with
      | none => ⟨.HS_BAD_REQUEST, path, []⟩
      | some accept => ⟨.HS_OK, path, accept⟩

/-- what `strcmp` sees of a byte string -/
def cstr (s : Bytes) : Bytes := s.takeWhile (· ≠ 0)

/-! ## The responses -/

/-- `%d` -/
def decimal (n : ℕ) : Bytes := (Nat.toDigits 10 n).map fun ch => UInt8.ofNat ch.toNat

/-- what `httpBuildUpgradeResponse` appends to tx -/
def httpBuildUpgradeResponse (acceptKey : Bytes) : Bytes :=
  ascii "HTTP/1.1 101 Switching Protocols\r\nUpgrade: websocket\r\nConnection: Upgrade\r\nSec-WebSocket-Accept: " ++
    acceptKey ++ ascii "\r\n\r\n"

/-- what `httpBuildError` appends to tx -/
def httpBuildError (code : ℕ) (reason extraHeader : String) : Bytes :=
  ascii "HTTP/1.1 " ++ decimal code ++ ascii " " ++ ascii reason ++ ascii "\r\n" ++ ascii extraHeader ++
    ascii "Content-Length: 0\r\nConnection: close\r\n\r\n"

theorem httpFindHeaderEnd_some {buf : Bytes} {i : ℕ} (h : httpFindHeaderEnd buf = some i) :
    i + 4 ≤ buf.length ∧ (buf.drop i).take 4 = ascii "\r\n\r\n" := by
  induction buf generalizing i with
  | nil => simp [httpFindHeaderEnd] at h
  | cons a t ih =>
    rcases t with _ | ⟨b, _ | ⟨c, _ | ⟨d, r⟩⟩⟩
    · simp [httpFindHeaderEnd] at h
    · simp [httpFindHeaderEnd] at h
    · simp [httpFindHeaderEnd] at h
    · unfold httpFindHeaderEnd at h
      split_ifs at h with heq
      · rw [Option.some.injEq] at h
        subst h
        obtain ⟨rfl, rfl, rfl, rfl⟩ := heq
        exact ⟨by simp, rfl⟩
      · rw [Option.map_eq_some_iff] at h
        obtain ⟨j, hj, rfl⟩ := h
        obtain ⟨h1, h2⟩ := ih hj
        exact ⟨by simp only [List.length_cons] at h1 ⊢; omega, by simpa using h2⟩

end WsServer
