/-
The two halves of the opening handshake fit together: the request of the upstream reactor is one the server accepts,
and the server's response is one the reactor accepts.

Both texts are header blocks (`handshakeRequest_block`, `upgradeResponse_block`), so what each parser looks up in them
is read off their lines.
-/
import Mathlib
import WsServer.Proto.Block
import WsServer.Proto.Decimal
import WsServer.Upstream.Client

namespace WsServer

open Ws

/-! ## The texts as blocks -/

def requestLines (host : Bytes) (port : ℕ) (key : Bytes) : List HeaderLine :=
  [⟨ascii "Host", host ++ ascii ":" ++ decimal port⟩, ⟨ascii "Upgrade", ascii "websocket"⟩,
    ⟨ascii "Connection", ascii "Upgrade"⟩, ⟨ascii "Sec-WebSocket-Key", key⟩,
    ⟨ascii "Sec-WebSocket-Version", ascii "13"⟩]

def responseLines (accept : Bytes) : List HeaderLine :=
  [⟨ascii "Upgrade", ascii "websocket"⟩, ⟨ascii "Connection", ascii "Upgrade"⟩,
    ⟨ascii "Sec-WebSocket-Accept", accept⟩]

theorem handshakeRequest_block (host : Bytes) (port : ℕ) (path key : Bytes) :
    handshakeRequest host port path key =
      headerBlock (ascii "GET " ++ path ++ ascii " HTTP/1.1") (requestLines host port key) := by
  have h1 : ascii " HTTP/1.1\r\nHost: " = ascii " HTTP/1.1" ++ crlf ++ ascii "Host" ++ [0x3A, 0x20] := by decide
  have h2 : ascii "\r\nUpgrade: websocket\r\nConnection: Upgrade\r\nSec-WebSocket-Key: " =
      crlf ++ ascii "Upgrade" ++ [0x3A, 0x20] ++ ascii "websocket" ++ crlf ++ ascii "Connection" ++ [0x3A, 0x20] ++
        ascii "Upgrade" ++ crlf ++ ascii "Sec-WebSocket-Key" ++ [0x3A, 0x20] := by decide
  have h3 : ascii "\r\nSec-WebSocket-Version: 13\r\n\r\n" =
      crlf ++ ascii "Sec-WebSocket-Version" ++ [0x3A, 0x20] ++ ascii "13" ++ crlf ++ crlf := by decide
  unfold handshakeRequest headerBlock headerLines requestLines HeaderLine.text
  rw [h1, h2, h3]
  simp only [List.flatMap_cons, List.flatMap_nil, List.append_assoc, List.cons_append, List.nil_append]

theorem upgradeResponse_block (accept : Bytes) :
    httpBuildUpgradeResponse accept = headerBlock (ascii "HTTP/1.1 101 Switching Protocols") (responseLines accept) := by
  have h1 : ascii "HTTP/1.1 101 Switching Protocols\r\nUpgrade: websocket\r\nConnection: Upgrade\r\nSec-WebSocket-Accept: " =
      ascii "HTTP/1.1 101 Switching Protocols" ++ crlf ++ ascii "Upgrade" ++ [0x3A, 0x20] ++ ascii "websocket" ++ crlf ++
        ascii "Connection" ++ [0x3A, 0x20] ++ ascii "Upgrade" ++ crlf ++ ascii "Sec-WebSocket-Accept" ++ [0x3A, 0x20] := by
    decide
  have h2 : ascii "\r\n\r\n" = crlf ++ crlf := by decide
  unfold httpBuildUpgradeResponse headerBlock headerLines responseLines HeaderLine.text
  rw [h1, h2]
  simp only [List.flatMap_cons, List.flatMap_nil, List.append_assoc, List.cons_append, List.nil_append]

/-! ## What stands in them -/

/-- the characters of base64 are none of those that delimit -/
theorem base64Encode_chars (x : Bytes) : ∀ c ∈ base64Encode x, c ≠ 0x0D ∧ c ≠ 0x20 := by
  obtain ⟨body, pad, he, hb, -⟩ := base64Encode_shape x
  intro c hc
  rw [he] at hc
  rcases List.mem_append.1 hc with hc | hc
  · have henc := hb c hc
    constructor <;> rintro rfl <;> exact absurd henc (by decide)
  · rw [List.eq_of_mem_replicate hc]
    decide

/-- the key of a nonce has an accept value -/
theorem wsComputeAccept_nonce (nonce : Random 16) :
    wsComputeAccept (base64Encode nonce.1) = some (base64Encode (sha1 (base64Encode nonce.1 ++ MAGIC))) := by
  have hlen : (base64Encode nonce.1).length = 24 := by
    rw [length_base64Encode, nonce.2]; rfl
  have hdec : base64DecodedLen (base64Encode nonce.1) = some 16 := by
    rw [base64DecodedLen_base64Encode, nonce.2]
  unfold wsComputeAccept
  rw [if_neg]
  rintro (h | h)
  · exact h hlen
  · exact h hdec

/-- no character that would end a line or a word -/
def Plain (bs : Bytes) : Prop := ∀ c ∈ bs, c ≠ 0x0D ∧ c ≠ 0x0A ∧ c ≠ 0

theorem Plain.cr {bs : Bytes} (h : Plain bs) : 0x0D ∉ bs := fun hm => (h _ hm).1 rfl

theorem HeaderLine.valid_of {name value : Bytes} (hn : 0x3A ∉ name ∧ 0x0D ∉ name) (hv : 0x0D ∉ value) :
    (⟨name, value⟩ : HeaderLine).Valid := ⟨hn.1, hn.2, hv⟩

theorem requestLines_valid {host key : Bytes} (hh : Plain host) (port : ℕ) (hk : 0x0D ∉ key) :
    ∀ h ∈ requestLines host port key, h.Valid := by
  have hport : 0x0D ∉ decimal port := fun hm => absurd (decimal_digits port _ hm) (by decide)
  intro h hmem
  simp only [requestLines, List.mem_cons, List.not_mem_nil, or_false] at hmem
  rcases hmem with rfl | rfl | rfl | rfl | rfl
  · refine HeaderLine.valid_of (by decide) ?_
    simp only [List.mem_append, not_or]
    exact ⟨⟨hh.cr, by decide⟩, hport⟩
  · exact HeaderLine.valid_of (by decide) (by decide)
  · exact HeaderLine.valid_of (by decide) (by decide)
  · exact HeaderLine.valid_of (by decide) hk
  · exact HeaderLine.valid_of (by decide) (by decide)

theorem responseLines_valid {accept : Bytes} (ha : 0x0D ∉ accept) : ∀ h ∈ responseLines accept, h.Valid := by
  intro h hmem
  simp only [responseLines, List.mem_cons, List.not_mem_nil, or_false] at hmem
  rcases hmem with rfl | rfl | rfl
  · exact HeaderLine.valid_of (by decide) (by decide)
  · exact HeaderLine.valid_of (by decide) (by decide)
  · exact HeaderLine.valid_of (by decide) ha

/-- what the server looks up in a request -/
theorem request_lookups {first host key : Bytes} (hf : 0x0D ∉ first) (hh : Plain host) (port : ℕ)
    (hk : ∀ c ∈ key, c ≠ 0x0D ∧ c ≠ 0x20) :
    let block := headerBlock first (requestLines host port key)
    httpFindHeader block (ascii "Upgrade") = some (ascii "websocket") ∧
      httpFindHeader block (ascii "Connection") = some (ascii "Upgrade") ∧
      httpFindHeader block (ascii "Sec-WebSocket-Version") = some (ascii "13") ∧
      httpFindHeader block (ascii "Sec-WebSocket-Key") = some key := by
  have hv := requestLines_valid hh port (fun hm => (hk _ hm).1 rfl)
  have hkey : HeaderLine.found ⟨ascii "Sec-WebSocket-Key", key⟩ = key :=
    HeaderLine.found_eq fun hm => (hk _ hm).2 rfl
  dsimp only
  rw [httpFindHeader_block hf (by decide) hv, httpFindHeader_block hf (by decide) hv,
    httpFindHeader_block hf (by decide) hv, httpFindHeader_block hf (by decide) hv]
  refine ⟨rfl, rfl, rfl, ?_⟩
  exact (show _ = some (HeaderLine.found ⟨ascii "Sec-WebSocket-Key", key⟩) from rfl).trans (congrArg some hkey)

/-- what the reactor looks up in a response, whatever lines stand behind the server's own -/
theorem response_lookups {first accept : Bytes} (hf : 0x0D ∉ first) (ha : ∀ c ∈ accept, c ≠ 0x0D ∧ c ≠ 0x20)
    {more : List HeaderLine} (hmore : ∀ h ∈ more, h.Valid) :
    let block := headerBlock first (responseLines accept ++ more)
    httpFindHeader block (ascii "Upgrade") = some (ascii "websocket") ∧
      httpFindHeader block (ascii "Connection") = some (ascii "Upgrade") ∧
      httpFindHeader block (ascii "Sec-WebSocket-Accept") = some accept := by
  have hv : ∀ h ∈ responseLines accept ++ more, h.Valid := by
    intro h hh
    rcases List.mem_append.1 hh with hh | hh
    · exact responseLines_valid (fun hm => (ha _ hm).1 rfl) h hh
    · exact hmore h hh
  have hacc : HeaderLine.found ⟨ascii "Sec-WebSocket-Accept", accept⟩ = accept :=
    HeaderLine.found_eq fun hm => (ha _ hm).2 rfl
  dsimp only
  rw [httpFindHeader_block hf (by decide) hv, httpFindHeader_block hf (by decide) hv,
    httpFindHeader_block hf (by decide) hv]
  refine ⟨rfl, rfl, ?_⟩
  exact (show _ = some (HeaderLine.found ⟨ascii "Sec-WebSocket-Accept", accept⟩) from rfl).trans (congrArg some hacc)

/-- a block of 101 with these lines passes the checks -/
theorem responseOk_block {accept : Bytes} (ha : ∀ c ∈ accept, c ≠ 0x0D ∧ c ≠ 0x20) (hlen : accept.length = 28)
    {more : List HeaderLine} (hmore : ∀ h ∈ more, h.Valid) :
    responseOk accept (headerBlock (ascii "HTTP/1.1 101 Switching Protocols") (responseLines accept ++ more)) = true := by
  obtain ⟨h1, h2, h3⟩ := @response_lookups (ascii "HTTP/1.1 101 Switching Protocols") accept (by decide) ha more hmore
  have hfirst : (ascii "HTTP/1.1 101 Switching Protocols").length = 32 := by decide
  have hlong : ¬ (headerBlock (ascii "HTTP/1.1 101 Switching Protocols") (responseLines accept ++ more)).length < 12 := by
    unfold headerBlock
    simp only [List.length_append, hfirst]
    omega
  have hstart : (headerBlock (ascii "HTTP/1.1 101 Switching Protocols") (responseLines accept ++ more)).take 12 =
      ascii "HTTP/1.1 101" := by
    unfold headerBlock
    rw [List.append_assoc, List.append_assoc, List.take_append_of_le_length (by rw [hfirst]; omega)]
    decide
  have htok : (some (ascii "websocket")).any (httpHeaderHasToken · (ascii "websocket")) = true ∧
      (some (ascii "Upgrade")).any (httpHeaderHasToken · (ascii "Upgrade")) = true := by decide
  unfold responseOk
  rw [h1, h2, h3, hstart, htok.1, htok.2]
  simp [hlen, List.take_of_length_le, hlong]

/-! ## The round trip -/

/-- the request a client sends with the key `key` -/
theorem httpParseHandshake_request {host path key accept : Bytes} (hh : Plain host) (port : ℕ) (hp : 0x20 ∉ path)
    (hpcr : 0x0D ∉ path) (hne : path ≠ []) (hlen : path.length ≤ 255) (hk : ∀ c ∈ key, c ≠ 0x0D ∧ c ≠ 0x20)
    (ha : wsComputeAccept key = some accept) :
    httpParseHandshake (handshakeRequest host port path key) = ⟨.HS_OK, path, accept⟩ := by
  have hfirst : 0x0D ∉ ascii "GET " ++ path ++ ascii " HTTP/1.1" := by
    simp only [List.mem_append, not_or]
    exact ⟨⟨by decide, hpcr⟩, by decide⟩
  obtain ⟨h1, h2, h3, h4⟩ := request_lookups hfirst hh port hk
  rw [handshakeRequest_block]
  generalize hb : headerBlock (ascii "GET " ++ path ++ ascii " HTTP/1.1") (requestLines host port key) = block at *
  obtain ⟨tail, htail⟩ : ∃ tail, block = ascii "GET " ++ (path ++ 0x20 :: tail) := by
    refine ⟨ascii "HTTP/1.1" ++ crlf ++ headerLines (requestLines host port key) ++ crlf, ?_⟩
    rw [← hb, headerBlock, show ascii " HTTP/1.1" = 0x20 :: ascii "HTTP/1.1" by decide]
    simp only [List.append_assoc, List.cons_append]
  have hpos := List.length_pos_of_ne_nil hne
  have hshort : ¬ (block.length < 5 ∨ block.take 4 ≠ ascii "GET ") := by
    rw [htail]
    rintro (h | h)
    · simp only [List.length_append, List.length_cons, show (ascii "GET ").length = 4 from rfl] at h; omega
    · exact h rfl
  have htarget : block.drop 4 = path ++ 0x20 :: tail := by rw [htail]; rfl
  have hall : ∀ c ∈ path, decide (c ≠ 0x20) = true := by
    intro c hc
    exact decide_eq_true fun he => hp (he ▸ hc)
  have hword : (path ++ 0x20 :: tail).takeWhile (· ≠ 0x20) = path := by
    rw [List.takeWhile_append_of_pos hall,
      List.takeWhile_cons_of_neg (by simp), List.append_nil]
  unfold httpParseHandshake
  rw [if_neg hshort]
  dsimp only
  rw [htarget, hword, if_neg (by simp), if_neg (by omega), h1, h2, h3, h4]
  have htok : (some (ascii "websocket")).any (httpHeaderHasToken · (ascii "websocket")) = true ∧
      (some (ascii "Upgrade")).any (httpHeaderHasToken · (ascii "Upgrade")) = true := by decide
  rw [if_neg (not_not.2 htok), if_neg (not_not.2 rfl), Option.bind_some, ha]

/-- the response to it is accepted -/
theorem processHandshakeResponse_upgrade (conf : ServerConfig) (e : UpEnv) {d : UpstreamClient} {accept t : Bytes}
    (ha : ∀ c ∈ accept, c ≠ 0x0D ∧ c ≠ 0x20) (hlen : accept.length = 28) (hexp : d.expectedAccept = accept)
    (hfd : d.fd ≠ none) (hrx : bufData d.rx = httpBuildUpgradeResponse accept ++ t) :
    (processHandshakeResponse conf e d).1 = e.ctl ∧ bufData (processHandshakeResponse conf e d).2.rx = t ∧
      (processHandshakeResponse conf e d).2.state = .UPSTREAM_OPEN := by
  have hfirst : 0x0D ∉ ascii "HTTP/1.1 101 Switching Protocols" := by decide
  have hend := httpFindHeaderEnd_block hfirst (responseLines_valid (fun hm => (ha _ hm).1 rfl)) t
  have hok := @responseOk_block accept ha hlen [] nofun
  have hlong : 12 ≤ (httpBuildUpgradeResponse accept).length := by
    unfold httpBuildUpgradeResponse
    rw [List.length_append, List.length_append]
    exact le_trans (by decide) (Nat.le_add_right _ _ |>.trans (Nat.le_add_right _ _))
  rw [List.append_nil, ← upgradeResponse_block] at hok
  rw [← upgradeResponse_block] at hend
  have hcut : (httpBuildUpgradeResponse accept).length - 4 + 4 = (httpBuildUpgradeResponse accept).length := by omega
  unfold processHandshakeResponse
  rw [hrx, hend]
  dsimp only
  rw [hcut, List.take_left, hexp, if_pos hok]
  have hfd' : ({ d with
      rx := bufConsume d.rx (httpBuildUpgradeResponse accept).length
      state := .UPSTREAM_OPEN
      reconnectAttempt := 0 } : UpstreamClient).fd ≠ none := hfd
  unfold updateEvents
  rw [if_neg hfd']
  have hdata : bufData (bufConsume d.rx (httpBuildUpgradeResponse accept).length) = t := by
    rw [bufConsume_data, hrx, List.drop_left]
  split_ifs with hctl
  · exact ⟨hctl.symm, hdata, rfl⟩
  · exact ⟨(Bool.not_eq_true _ ▸ hctl).symm, hdata, rfl⟩

/-- the request fits into its array -/
theorem length_handshakeRequest {host path : Bytes} {port : ℕ} (nonce : Random 16) (hh : host.length ≤ 255)
    (hp : path.length ≤ 255) (hport : port ≤ 65535) :
    (handshakeRequest host port path (base64Encode nonce.1)).length < 1024 := by
  have hd := length_decimal_le (show 0 < 5 by norm_num) (show port < 10 ^ 5 by omega)
  have hk : (base64Encode nonce.1).length = 24 := by
    rw [length_base64Encode, nonce.2]; rfl
  have h1 : (ascii "GET ").length = 4 := by decide
  have h2 : (ascii " HTTP/1.1\r\nHost: ").length = 17 := by decide
  have h3 : (ascii ":").length = 1 := by decide
  have h4 : (ascii "\r\nUpgrade: websocket\r\nConnection: Upgrade\r\nSec-WebSocket-Key: ").length = 62 := by decide
  have h5 : (ascii "\r\nSec-WebSocket-Version: 13\r\n\r\n").length = 31 := by decide
  unfold handshakeRequest
  simp only [List.length_append, h1, h2, h3, h4, h5, hk]
  omega

theorem queueHandshake_eq {e : UpEnv} {nonce : Random 16} (hnonce : e.nonce = some nonce) {c : UpstreamClient}
    {accept : Bytes} (ha : wsComputeAccept (base64Encode nonce.1) = some accept)
    (hlen : (handshakeRequest c.host c.port c.path (base64Encode nonce.1)).length < 1024) :
    queueHandshake e c = updateEvents e (c.withRequest accept (base64Encode nonce.1)) := by
  unfold queueHandshake
  rw [hnonce]
  dsimp only
  rw [ha]
  dsimp only
  rw [if_neg (not_le.2 hlen)]
  rfl

/-- apart from tx and `expectedAccept` the client waits as it was -/
theorem queueHandshake_waits {e : UpEnv} {nonce : Random 16} (hnonce : e.nonce = some nonce) {c : UpstreamClient}
    {accept : Bytes} (ha : wsComputeAccept (base64Encode nonce.1) = some accept)
    (hlen : (handshakeRequest c.host c.port c.path (base64Encode nonce.1)).length < 1024) :
    (queueHandshake e c).2.state = .UPSTREAM_HANDSHAKE ∧ (queueHandshake e c).2.rx = c.rx ∧
      (queueHandshake e c).2.fd = c.fd := by
  rw [queueHandshake_eq hnonce ha hlen]
  rcases updateEvents_cases e (c.withRequest accept (base64Encode nonce.1)) with hu | hu
  all_goals
    rw [hu]
    exact ⟨rfl, rfl, rfl⟩

theorem queueHandshake_queues {e : UpEnv} {nonce : Random 16} (hnonce : e.nonce = some nonce) {c : UpstreamClient}
    {accept : Bytes} (ha : wsComputeAccept (base64Encode nonce.1) = some accept)
    (hlen : (handshakeRequest c.host c.port c.path (base64Encode nonce.1)).length < 1024) :
    bufData (queueHandshake e c).2.tx = handshakeRequest c.host c.port c.path (base64Encode nonce.1) ∧
      (queueHandshake e c).2.expectedAccept = accept := by
  rw [queueHandshake_eq hnonce ha hlen]
  have htx : bufData (c.withRequest accept (base64Encode nonce.1)).tx =
      handshakeRequest c.host c.port c.path (base64Encode nonce.1) := by simp [UpstreamClient.withRequest]
  rcases updateEvents_cases e (c.withRequest accept (base64Encode nonce.1)) with hu | hu
  all_goals
    rw [hu]
    exact ⟨htx, rfl⟩

/-- **The opening handshake fits together**, for every nonce, host, port and path. The server finds the request
complete and answers HS_OK with the path and with the accept value the client expects; the response built from it,
whatever follows, opens the client and leaves what follows in rx. -/
theorem handshake_round_trip (conf : ServerConfig) (e : UpEnv) (nonce : Random 16) (hnonce : e.nonce = some nonce)
    (c : UpstreamClient) (hhost : Plain c.host ∧ c.host.length ≤ 255) (hport : 1 ≤ c.port ∧ c.port ≤ 65535)
    (hpath : Plain c.path ∧ 0x20 ∉ c.path ∧ c.path.head? = some 0x2F ∧ c.path.length ≤ 255) :
    let c' := (queueHandshake e c).2
    httpFindHeaderEnd (bufData c'.tx) = some ((bufData c'.tx).length - 4) ∧
      httpParseHandshake (bufData c'.tx) = ⟨.HS_OK, c.path, c'.expectedAccept⟩ ∧
      ∀ (d : UpstreamClient) (e' : UpEnv) (t : Bytes), d.expectedAccept = c'.expectedAccept → d.fd ≠ none →
        bufData d.rx = httpBuildUpgradeResponse c'.expectedAccept ++ t →
        (processHandshakeResponse conf e' d).1 = e'.ctl ∧ bufData (processHandshakeResponse conf e' d).2.rx = t ∧
          (processHandshakeResponse conf e' d).2.state = .UPSTREAM_OPEN := by
  obtain ⟨hh, hhlen⟩ := hhost
  obtain ⟨hp, hspace, hslash, hplen⟩ := hpath
  have hne : c.path ≠ [] := by
    intro h
    rw [h] at hslash
    cases hslash
  have hacc := wsComputeAccept_nonce nonce
  have hkey := base64Encode_chars nonce.1
  have hachars := base64Encode_chars (sha1 (base64Encode nonce.1 ++ MAGIC))
  obtain ⟨htx, hexp⟩ := queueHandshake_queues hnonce hacc (length_handshakeRequest nonce hhlen hplen hport.2)
  have hfirst : 0x0D ∉ ascii "GET " ++ c.path ++ ascii " HTTP/1.1" := by
    simp only [List.mem_append, not_or]
    exact ⟨⟨by decide, hp.cr⟩, by decide⟩
  dsimp only
  rw [htx, hexp]
  refine ⟨?_, httpParseHandshake_request hh c.port hspace hp.cr hne hplen hkey hacc, ?_⟩
  · have hend := httpFindHeaderEnd_block hfirst (requestLines_valid hh c.port (fun hm => (hkey _ hm).1 rfl)) []
    rwa [List.append_nil, ← handshakeRequest_block] at hend
  · intro d e' t hd hfd hrx
    exact processHandshakeResponse_upgrade conf e' hachars (length_wsComputeAccept hacc) hd hfd hrx

/-- a client of ws://feed:8080/in whose connect() just succeeded -/
def feedClient : UpstreamClient :=
  { openClient 1000000 with port := 8080, path := ascii "/in", state := .UPSTREAM_CONNECTING }

/-- the same client when the response and the first two bytes of a frame have arrived -/
def answeredClient : UpstreamClient :=
  { (queueHandshake calmUp feedClient).2 with
    rx := bufAppend true Buf.empty (httpBuildUpgradeResponse (queueHandshake calmUp feedClient).2.expectedAccept ++ [0x82, 0x01]) }

theorem handshake_round_trip_feed :
    httpParseHandshake (bufData (queueHandshake calmUp feedClient).2.tx) =
        ⟨.HS_OK, ascii "/in", (queueHandshake calmUp feedClient).2.expectedAccept⟩ ∧
      bufData (processHandshakeResponse smallConf calmUp answeredClient).2.rx = [0x82, 0x01] ∧
      (processHandshakeResponse smallConf calmUp answeredClient).2.state = .UPSTREAM_OPEN := by
  obtain ⟨-, h2, h3⟩ := handshake_round_trip smallConf calmUp ⟨List.replicate 16 7, rfl⟩ rfl feedClient
    ⟨by unfold Plain; decide +kernel, by decide⟩ (by decide) ⟨by unfold Plain; decide +kernel, by decide, by decide, by decide⟩
  have hfd : answeredClient.fd ≠ none := by decide +kernel
  obtain ⟨-, h4, h5⟩ := h3 answeredClient calmUp [0x82, 0x01] (by simp only [answeredClient]) hfd (by simp [answeredClient])
  exact ⟨h2, h4, h5⟩

end WsServer
