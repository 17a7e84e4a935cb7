/-
The response of an upstream server in pieces: `readHandshake` once for each readable event, until it accepts or fails.

`processHandshakeResponse` looks for the end of the header in all that was received, and tests `handshakeMax` only while
the end is not there. So a header above the limit is accepted when it comes in one event, and refused when an event
ends inside of it.

- `responseReads_accept`, `responseReads_refuse`: what the events decide, by the whole stream and the event boundaries.
- `response_in_pieces_iff`: the decision is that of a single event, and behind the header rx is exact, unless an event
  boundary lies behind the limit and before the end of a header that is otherwise accepted.
- `long_response_split`: the same response accepted at once and refused in two pieces.
-/
import Mathlib
import WsServer.Upstream.Handshake

namespace WsServer

open Ws

inductive Decision where
  | waiting | accepted | rejected
deriving DecidableEq, Repr

/-- readable events one after another, each with the results of its `recv` calls, while the connection stays open:
the decision, the client, and the events that are left to the frame loop -/
def responseReads (conf : ServerConfig) (e : UpEnv) :
    UpstreamClient → List (List Bytes) → Decision × UpstreamClient × List (List Bytes)
  | c, [] => (.waiting, c, [])
  | c, ev :: evs =>
    let r := readHandshake conf { e with reads := (ev, .open) } c
    if r.1 = false then (.rejected, r.2, evs)
    else if r.2.state = .UPSTREAM_OPEN then (.accepted, r.2, evs)
    else responseReads conf e r.2 evs

/-- all bytes of the events -/
def streamOf (evs : List (List Bytes)) : Bytes := evs.flatten.flatten

/-- the stream starts with a header of `n` bytes that passes the checks, and the kernel takes the new registration -/
def Acceptable (e : UpEnv) (c : UpstreamClient) (stream : Bytes) (n : ℕ) : Prop :=
  (∃ i, httpFindHeaderEnd stream = some i ∧ n = i + 4) ∧ responseOk c.expectedAccept (stream.take n) = true ∧
    c.fd ≠ none ∧ e.ctl = true

/-- an event ends behind the limit and before byte `n`; `sofar` bytes were received before -/
def OverLimit (conf : ServerConfig) (n : ℕ) : ℕ → List (List Bytes) → Prop
  | _, [] => False
  | sofar, ev :: evs =>
    (conf.handshakeMax < sofar + ev.flatten.length ∧ sofar + ev.flatten.length < n) ∨
      OverLimit conf n (sofar + ev.flatten.length) evs

/-- the decision is that of one event with all the bytes, and an accepted response leaves exactly what follows it: in
rx, or still to be read -/
def SameAsAtOnce (conf : ServerConfig) (e : UpEnv) (c : UpstreamClient) (evs : List (List Bytes)) : Prop :=
  let r := responseReads conf e c evs
  r.1 = (responseReads conf e c [evs.flatten]).1 ∧
    (r.1 = .accepted → ∃ i, httpFindHeaderEnd (streamOf evs) = some i ∧
      bufData r.2.1.rx ++ streamOf r.2.2 = (streamOf evs).drop (i + 4))

/-! ## One event -/

variable {conf : ServerConfig} {e : UpEnv} {c : UpstreamClient}

/-- what the reads of an event leave -/
structure Received (c c' : UpstreamClient) (bs : Bytes) : Prop where
  rx : bufData c'.rx = bufData c.rx ++ bs
  accept : c'.expectedAccept = c.expectedAccept
  fd : c'.fd = c.fd
  state : c'.state = c.state

theorem receive_all (ev : List Bytes) (c : UpstreamClient) : Received c (ev.foldl UpstreamClient.receive c) ev.flatten := by
  induction ev generalizing c with
  | nil => exact ⟨(List.append_nil _).symm, rfl, rfl, rfl⟩
  | cons bs ev ih =>
    obtain ⟨hrx, haccept, hfd, hstate⟩ := ih (c.receive bs)
    refine ⟨?_, haccept, hfd, hstate⟩
    rw [List.foldl_cons, hrx, List.flatten_cons, ← List.append_assoc]
    exact congrArg (· ++ ev.flatten) (bufAppend_data c.rx bs)

theorem Acceptable.of_received {c' : UpstreamClient} {bs stream : Bytes} {n : ℕ} (h : Received c c' bs) :
    Acceptable e c' stream n ↔ Acceptable e c stream n := by
  unfold Acceptable
  rw [h.accept, h.fd]

/-- the end of the header is not there yet: refused above the limit, else waiting -/
theorem readHandshake_more {ev : List Bytes} (h : httpFindHeaderEnd (bufData c.rx ++ ev.flatten) = none) :
    ∃ c', Received c c' ev.flatten ∧ readHandshake conf { e with reads := (ev, .open) } c =
      (decide ((bufData c.rx ++ ev.flatten).length ≤ conf.handshakeMax), c') := by
  have hrecv := receive_all ev c
  refine ⟨_, hrecv, ?_⟩
  unfold readHandshake
  rw [if_pos rfl]
  unfold processHandshakeResponse
  rw [hrecv.rx, h, ← length_bufData, hrecv.rx]
  simp

/-- an acceptable header is complete: the client opens, behind the header -/
theorem readHandshake_accept {ev : List Bytes} {n : ℕ} (h : Acceptable e c (bufData c.rx ++ ev.flatten) n) :
    ∃ c', readHandshake conf { e with reads := (ev, .open) } c = (true, c') ∧ c'.state = .UPSTREAM_OPEN ∧
      bufData c'.rx = (bufData c.rx ++ ev.flatten).drop n := by
  have hrecv := receive_all ev c
  obtain ⟨⟨i, hi, rfl⟩, hok, hfd, hctl⟩ := h
  have hopen : ∀ d : UpstreamClient, d.fd ≠ none →
      updateEvents { e with reads := (ev, .open) } d = (true, { d with interest := some d.wanted }) :=
    fun d hd => updateEvents_ok hd hctl
  unfold readHandshake
  rw [if_pos rfl]
  unfold processHandshakeResponse
  rw [hrecv.rx, hi]
  dsimp only
  rw [hrecv.accept, if_pos hok, hopen _ (show _ ≠ none from hrecv.fd ▸ hfd)]
  refine ⟨_, rfl, rfl, ?_⟩
  rw [← hrecv.rx]
  exact bufConsume_data _ _

/-- a complete header that is not acceptable -/
theorem readHandshake_refuse {ev : List Bytes} {i : ℕ} (hend : httpFindHeaderEnd (bufData c.rx ++ ev.flatten) = some i)
    (h : ¬ Acceptable e c (bufData c.rx ++ ev.flatten) (i + 4)) :
    (readHandshake conf { e with reads := (ev, .open) } c).1 = false := by
  have hrecv := receive_all ev c
  unfold readHandshake
  rw [if_pos rfl]
  unfold processHandshakeResponse
  rw [hrecv.rx, hend]
  dsimp only
  rw [hrecv.accept]
  split_ifs with hok
  · unfold updateEvents
    split_ifs with hfd hctl
    · rfl
    · exact absurd ⟨⟨i, hend, rfl⟩, hok, fun hnone => hfd (hrecv.fd.trans hnone), hctl⟩ h
    · rfl
  · rfl

/-! ## The events -/

/-- a header found in the stream is found where it is, or its end has not arrived -/
theorem headerEnd_part {bs t : Bytes} {i : ℕ} (h : httpFindHeaderEnd (bs ++ t) = some i) :
    httpFindHeaderEnd bs = if bs.length < i + 4 then none else some i := by
  have hpart : (bs ++ t).take bs.length = bs := List.take_left
  rw [← hpart]
  split_ifs with hlt
  · exact httpFindHeaderEnd_short h (by simpa using hlt)
  · exact httpFindHeaderEnd_take h (by simpa using hlt)

/-- **An acceptable header**: refused exactly when an event ends behind the limit and inside of it. -/
theorem responseReads_accept {n : ℕ} (evs : List (List Bytes)) (hstate : c.state ≠ .UPSTREAM_OPEN)
    (hmore : (bufData c.rx).length < n) (h : Acceptable e c (bufData c.rx ++ streamOf evs) n) :
    (OverLimit conf n (bufData c.rx).length evs → (responseReads conf e c evs).1 = .rejected) ∧
      (¬ OverLimit conf n (bufData c.rx).length evs → (responseReads conf e c evs).1 = .accepted ∧
        bufData (responseReads conf e c evs).2.1.rx ++ streamOf (responseReads conf e c evs).2.2 =
          (bufData c.rx ++ streamOf evs).drop n) := by
  induction evs generalizing c with
  | nil =>
    obtain ⟨⟨i, hi, rfl⟩, -⟩ := h
    have hle := (httpFindHeaderEnd_some hi).1
    simp only [streamOf, List.flatten_nil, List.append_nil] at hle
    omega
  | cons ev evs ih =>
    have hcut : bufData c.rx ++ streamOf (ev :: evs) = (bufData c.rx ++ ev.flatten) ++ streamOf evs := by
      simp [streamOf]
    have hlen : (bufData c.rx ++ ev.flatten).length = (bufData c.rx).length + ev.flatten.length := List.length_append
    rw [hcut] at h ⊢
    have hpart : Acceptable e c (bufData c.rx ++ ev.flatten) n ∨ (bufData c.rx ++ ev.flatten).length < n := by
      obtain ⟨⟨i, hi, rfl⟩, hok, hrest⟩ := h
      have hend := headerEnd_part hi
      split_ifs at hend with hlt
      · exact .inr hlt
      · refine .inl ⟨⟨i, hend, rfl⟩, ?_, hrest⟩
        rwa [List.take_append_of_le_length (not_lt.1 hlt)] at hok
    unfold responseReads OverLimit
    rw [← hlen]
    by_cases hlt : (bufData c.rx ++ ev.flatten).length < n
    · -- the end has not arrived
      have hend : httpFindHeaderEnd (bufData c.rx ++ ev.flatten) = none := by
        obtain ⟨⟨i, hi, rfl⟩, -⟩ := h
        rw [headerEnd_part hi, if_pos hlt]
      obtain ⟨c', hrecv, hread⟩ := @readHandshake_more conf e c ev hend
      rw [hread]
      by_cases hover : conf.handshakeMax < (bufData c.rx ++ ev.flatten).length
      · rw [decide_eq_false (not_le.2 hover)]
        exact ⟨fun _ => rfl, fun hno => absurd (.inl ⟨hover, hlt⟩) hno⟩
      · rw [decide_eq_true (not_lt.1 hover)]
        have hstate' : c'.state ≠ .UPSTREAM_OPEN := hrecv.state ▸ hstate
        have hnext := @ih c' hstate' (hrecv.rx ▸ hlt) (hrecv.rx ▸ (Acceptable.of_received hrecv).2 h)
        rw [hrecv.rx] at hnext
        dsimp only
        rw [if_neg (by simp), if_neg hstate']
        refine ⟨fun ho => hnext.1 ?_, fun hno => hnext.2 fun ho => hno (.inr ho)⟩
        exact ho.resolve_left fun hh => hover hh.1
    · obtain ⟨c', hread, hopen, hrx⟩ := @readHandshake_accept conf e c ev n (hpart.resolve_right hlt)
      have hno : ∀ (sofar : ℕ) (l : List (List Bytes)), n ≤ sofar → ¬ OverLimit conf n sofar l := by
        intro sofar l
        induction l generalizing sofar with
        | nil => exact fun _ => id
        | cons x l ihl =>
          rintro hle (hh | hh)
          · omega
          · exact ihl _ (by omega) hh
      rw [hread]
      dsimp only
      rw [if_neg (by simp), if_pos hopen]
      refine ⟨fun ho => ?_, fun _ => ⟨rfl, ?_⟩⟩
      · rcases ho with ho | ho
        · exact absurd ho.2 hlt
        · exact absurd ho (hno _ _ (not_lt.1 hlt))
      · rw [hrx, List.drop_append_of_le_length (not_lt.1 hlt)]

/-- **No acceptable header**: never accepted, and left waiting exactly while the end is not there within the limit. -/
theorem responseReads_refuse (evs : List (List Bytes)) (hstate : c.state ≠ .UPSTREAM_OPEN)
    (hnone : httpFindHeaderEnd (bufData c.rx) = none) (hlimit : (bufData c.rx).length ≤ conf.handshakeMax)
    (h : ∀ n, ¬ Acceptable e c (bufData c.rx ++ streamOf evs) n) :
    (responseReads conf e c evs).1 =
      if httpFindHeaderEnd (bufData c.rx ++ streamOf evs) = none ∧
          (bufData c.rx ++ streamOf evs).length ≤ conf.handshakeMax then .waiting
      else .rejected := by
  induction evs generalizing c with
  | nil =>
    have hsame : bufData c.rx ++ streamOf [] = bufData c.rx := by simp [streamOf]
    rw [hsame, if_pos ⟨hnone, hlimit⟩]
    rfl
  | cons ev evs ih =>
    have hcut : bufData c.rx ++ streamOf (ev :: evs) = (bufData c.rx ++ ev.flatten) ++ streamOf evs := by
      simp [streamOf]
    rw [hcut] at h ⊢
    unfold responseReads
    dsimp only
    cases hend : httpFindHeaderEnd (bufData c.rx ++ ev.flatten) with
    | none =>
      obtain ⟨c', hrecv, hread⟩ := @readHandshake_more conf e c ev hend
      rw [hread]
      by_cases hover : conf.handshakeMax < (bufData c.rx ++ ev.flatten).length
      · rw [decide_eq_false (not_le.2 hover), if_pos rfl, if_neg]
        rintro ⟨-, hle⟩
        rw [List.length_append] at hle
        omega
      · rw [decide_eq_true (not_lt.1 hover)]
        have hstate' : c'.state ≠ .UPSTREAM_OPEN := hrecv.state ▸ hstate
        have hnext := @ih c' hstate' (hrecv.rx ▸ hend) (hrecv.rx ▸ not_lt.1 hover)
          fun n hn => h n ((Acceptable.of_received hrecv).1 (hrecv.rx ▸ hn))
        rw [hrecv.rx] at hnext
        rw [if_neg (by simp), if_neg hstate']
        exact hnext
    | some i =>
      have hbad : (readHandshake conf { e with reads := (ev, .open) } c).1 = false := by
        refine readHandshake_refuse hend fun hacc => h (i + 4) ?_
        obtain ⟨-, hok, hrest⟩ := hacc
        refine ⟨⟨i, httpFindHeaderEnd_append hend _, rfl⟩, ?_, hrest⟩
        rwa [List.take_append_of_le_length (httpFindHeaderEnd_some hend).1]
      rw [if_pos hbad, if_neg]
      rintro ⟨hno, -⟩
      rw [httpFindHeaderEnd_append hend] at hno
      cases hno

/-- **The response in pieces.** However a response is cut into readable events, the decision is that of one event with
all its bytes, and an accepted response leaves exactly what follows its header, unless an event ends behind
`handshakeMax` and inside of a header that passes every check. -/
theorem response_in_pieces_iff (conf : ServerConfig) (e : UpEnv) (c : UpstreamClient) (evs : List (List Bytes))
    (hstate : c.state = .UPSTREAM_HANDSHAKE) (hrx : bufData c.rx = []) :
    SameAsAtOnce conf e c evs ↔ ¬ ∃ n, Acceptable e c (streamOf evs) n ∧ OverLimit conf n 0 evs := by
  have hnotopen : c.state ≠ .UPSTREAM_OPEN := by rw [hstate]; nofun
  have honce : streamOf [evs.flatten] = streamOf evs := by simp [streamOf]
  unfold SameAsAtOnce
  dsimp only
  by_cases hacc : ∃ n, Acceptable e c (streamOf evs) n
  · obtain ⟨n, hn⟩ := hacc
    obtain ⟨i, hi, hni⟩ := hn.1
    have hle := (httpFindHeaderEnd_some hi).1
    have hpos : (bufData c.rx).length < n := by rw [hrx, List.length_nil]; omega
    have hpieces := @responseReads_accept conf e c n evs hnotopen hpos (by rwa [hrx, List.nil_append])
    have hall := @responseReads_accept conf e c n [evs.flatten] hnotopen hpos (by rwa [hrx, List.nil_append, honce])
    rw [hrx, List.length_nil, List.nil_append] at hpieces hall
    have hfit : ¬ OverLimit conf n 0 [evs.flatten] := by
      rintro (⟨-, hlt⟩ | ho)
      · unfold streamOf at hle
        omega
      · exact ho
    rw [(hall.2 hfit).1]
    by_cases ho : OverLimit conf n 0 evs
    · rw [hpieces.1 ho]
      exact ⟨fun h => absurd h.1 nofun, fun h => absurd ⟨n, hn, ho⟩ h⟩
    · refine ⟨?_, fun _ => ⟨(hpieces.2 ho).1, fun _ => ⟨i, hi, hni ▸ (hpieces.2 ho).2⟩⟩⟩
      rintro - ⟨n', hn', ho'⟩
      obtain ⟨i', hi', rfl⟩ := hn'.1
      rw [hi] at hi'
      obtain rfl := Option.some.inj hi'
      exact ho (hni ▸ ho')
  · have hnone : ∀ n, ¬ Acceptable e c (streamOf evs) n := fun n hn => hacc ⟨n, hn⟩
    have hpieces := @responseReads_refuse conf e c evs hnotopen (by rw [hrx]; rfl) (by rw [hrx]; exact Nat.zero_le _)
      (by rwa [hrx, List.nil_append])
    have hall := @responseReads_refuse conf e c [evs.flatten] hnotopen (by rw [hrx]; rfl)
      (by rw [hrx]; exact Nat.zero_le _) (by rwa [hrx, List.nil_append, honce])
    rw [hrx, List.nil_append] at hpieces hall
    rw [honce] at hall
    rw [hpieces, hall]
    refine ⟨fun _ ⟨n, hn, _⟩ => hnone n hn, fun _ => ⟨rfl, fun h => ?_⟩⟩
    split_ifs at h

/-- a client that asked ws://feed:8080/in and waits for the response -/
def askedClient : UpstreamClient := (queueHandshake calmUp feedClient).2

theorem askedClient_waits : askedClient.state = .UPSTREAM_HANDSHAKE ∧ bufData askedClient.rx = [] ∧
    askedClient.fd ≠ none ∧
      askedClient.expectedAccept = base64Encode (sha1 (base64Encode (List.replicate 16 7) ++ MAGIC)) := by
  have hshort : (handshakeRequest feedClient.host feedClient.port feedClient.path
      (base64Encode (List.replicate 16 7))).length < 1024 := by decide +kernel
  have hnonce : calmUp.nonce = some ⟨List.replicate 16 7, rfl⟩ := rfl
  have hacc := wsComputeAccept_nonce ⟨List.replicate 16 7, rfl⟩
  obtain ⟨hstate, hrx, hfd⟩ := queueHandshake_waits hnonce hacc hshort
  unfold askedClient
  refine ⟨hstate, by rw [hrx]; rfl, ?_, (queueHandshake_queues hnonce hacc hshort).2⟩
  rw [hfd]
  exact Option.some_ne_none _

/-- a correct response with a cookie of `n` bytes -/
def cookieResponse (n : ℕ) : Bytes :=
  headerBlock (ascii "HTTP/1.1 101 Switching Protocols")
    (responseLines askedClient.expectedAccept ++ [⟨ascii "Set-Cookie", List.replicate n 0x61⟩])

/-- cut in two behind byte `k` -/
def cutAt (k : ℕ) (bs : Bytes) : List (List Bytes) := [[bs.take k], [bs.drop k]]

theorem response_in_pieces_short : SameAsAtOnce smallConf calmUp askedClient (cutAt 40 (cookieResponse 3)) := by
  obtain ⟨hstate, hrx, -⟩ := askedClient_waits
  refine (response_in_pieces_iff smallConf calmUp askedClient _ hstate hrx).2 ?_
  rintro ⟨n, -, hover⟩
  have hlen : (cookieResponse 3).length < 8192 := by decide +kernel
  rcases hover with ⟨hlt, -⟩ | ⟨hlt, -⟩ | hover
  · simp [smallConf] at hlt
  · simp [smallConf] at hlt
    omega
  · exact hover

theorem cookieResponse_acceptable (n : ℕ) :
    Acceptable calmUp askedClient (cookieResponse n) (cookieResponse n).length := by
  have hchars := base64Encode_chars (sha1 (base64Encode (List.replicate 16 7) ++ MAGIC))
  obtain ⟨-, -, hfd, haccept⟩ := askedClient_waits
  have hlen : askedClient.expectedAccept.length = 28 := by
    rw [haccept]
    exact length_wsComputeAccept (wsComputeAccept_nonce ⟨List.replicate 16 7, rfl⟩)
  rw [← haccept] at hchars
  have hcookie : ∀ h ∈ [(⟨ascii "Set-Cookie", List.replicate n 0x61⟩ : HeaderLine)], h.Valid := by
    intro h hh
    rw [List.mem_singleton.1 hh]
    refine HeaderLine.valid_of (by decide) fun hm => ?_
    exact absurd (List.eq_of_mem_replicate hm) (by decide)
  have hvalid : ∀ h : HeaderLine,
      h ∈ responseLines askedClient.expectedAccept ++ [⟨ascii "Set-Cookie", List.replicate n 0x61⟩] → h.Valid := by
    intro h hh
    rcases List.mem_append.1 hh with hh | hh
    · exact responseLines_valid (fun hm => (hchars _ hm).1 rfl) h hh
    · exact hcookie h hh
  have hend := @httpFindHeaderEnd_block (ascii "HTTP/1.1 101 Switching Protocols") (by decide) _ hvalid []
  rw [List.append_nil] at hend
  refine ⟨⟨_, hend, ?_⟩, ?_, hfd, rfl⟩
  · have hfirst : (ascii "HTTP/1.1 101 Switching Protocols").length = 32 := by decide
    unfold cookieResponse headerBlock
    simp only [List.length_append, hfirst]
    omega
  · rw [List.take_length]
    exact responseOk_block hchars hlen hcookie

theorem lt_cookieResponse (n : ℕ) : n < (cookieResponse n).length := by
  unfold cookieResponse headerBlock headerLines
  simp only [List.flatMap_append, List.flatMap_cons, List.flatMap_nil, HeaderLine.text, List.length_append,
    List.length_cons, List.length_replicate, List.length_nil]
  omega

/-- **Accepted at once, refused in two pieces**: a correct response above `handshakeMax`. -/
theorem long_response_split : ∃ bs : Bytes,
    (responseReads smallConf calmUp askedClient [[bs]]).1 = .accepted ∧
    (responseReads smallConf calmUp askedClient (cutAt 8200 bs)).1 = .rejected ∧
    ¬ SameAsAtOnce smallConf calmUp askedClient (cutAt 8200 bs) := by
  have hacc := cookieResponse_acceptable 8200
  have hlong := lt_cookieResponse 8200
  generalize cookieResponse 8200 = bs at hacc hlong
  obtain ⟨hstate, hrx, -⟩ := askedClient_waits
  have hnotopen : askedClient.state ≠ .UPSTREAM_OPEN := by rw [hstate]; nofun
  have hpos : (bufData askedClient.rx).length < bs.length := by rw [hrx, List.length_nil]; omega
  have hcut : streamOf (cutAt 8200 bs) = bs := by simp [streamOf, cutAt]
  have honce : ∀ ev : List Bytes, ev.flatten = bs → (responseReads smallConf calmUp askedClient [ev]).1 = .accepted := by
    intro ev hev
    have hstream : streamOf [ev] = bs := by simp [streamOf, hev]
    have hall := @responseReads_accept smallConf calmUp askedClient bs.length [ev] hnotopen hpos
      (by rwa [hrx, List.nil_append, hstream])
    refine (hall.2 ?_).1
    rw [hrx]
    rintro (⟨-, hlt⟩ | ho)
    · simp [hev] at hlt
    · exact ho
  have hover : OverLimit smallConf bs.length 0 (cutAt 8200 bs) := by
    have hpart : (bs.take 8200).length = 8200 := by rw [List.length_take]; omega
    unfold cutAt OverLimit
    left
    rw [List.flatten_singleton, hpart, Nat.zero_add]
    exact ⟨show 8192 < 8200 by norm_num, hlong⟩
  have htwo := (@responseReads_accept smallConf calmUp askedClient bs.length (cutAt 8200 bs) hnotopen hpos
    (by rwa [hrx, List.nil_append, hcut])).1 (by rwa [hrx])
  refine ⟨bs, honce [bs] (by simp), htwo, ?_⟩
  rintro ⟨hsame, -⟩
  rw [htwo, honce _ (by simp [cutAt])] at hsame
  cases hsame

end WsServer
