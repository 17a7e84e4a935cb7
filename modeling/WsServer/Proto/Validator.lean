/-
The UTF-8 validator of `src/ws.c` over a sequence of calls.

A TEXT message reaches `wsUtf8Feed` in pieces: one call for each fragment, cut at any byte. `feedChunks` is that sequence
of calls, up to the first that returns -1. `wsUtf8Feed` leaves its loop at the byte it refuses; `utf8Refused` is the
index of that byte.

- `utf8_exact`: every call returns 0 and `wsUtf8Done` is true afterwards exactly on the well-formed strings; a call
  returns -1 exactly at the first byte up to which the string is no prefix of a well-formed one.
-/
import Mathlib
import WsServer.Proto.Ws

namespace WsServer

open Ws Utf8

/-- where the loop of `wsUtf8Feed` returns -1, if it does -/
def utf8Refused : Utf8St → Bytes → Option ℕ
  | _, [] => none
  | st, b :: p =>
    match utf8Byte st b with
    | none => some 0
    | some st' => (utf8Refused st' p).map (· + 1)

/-- how a sequence of calls ends: all of them returned 0, or call `k` returned -1 at its byte `i` -/
inductive FeedEnd where
  | fed (st : Utf8St)
  | refused (k i : ℕ)
deriving DecidableEq, Repr

/-- one call before -/
def FeedEnd.next : FeedEnd → FeedEnd
  | .fed st => .fed st
  | .refused k i => .refused (k + 1) i

/-- `wsUtf8Feed` on one chunk after another, until it returns -1 -/
def feedChunks : Utf8St → List Bytes → FeedEnd
  | st, [] => .fed st
  | st, p :: ps =>
    match wsUtf8Feed st p with
    | some st' => (feedChunks st' ps).next
    | none => .refused 0 ((utf8Refused st p).getD 0)

/-- the call gives up at a byte of its own: what is in front of it was accepted -/
theorem utf8Refused_spec {st : Utf8St} {p : Bytes} (h : wsUtf8Feed st p = none) :
    ∃ i, utf8Refused st p = some i ∧ i < p.length ∧ (wsUtf8Feed st (p.take i)).isSome = true ∧
      wsUtf8Feed st (p.take (i + 1)) = none := by
  induction p generalizing st with
  | nil => cases h
  | cons b p ih =>
    unfold wsUtf8Feed at h
    cases hb : utf8Byte st b with
    | none =>
      refine ⟨0, by simp [utf8Refused, hb], Nat.zero_lt_succ _, rfl, ?_⟩
      simp [wsUtf8Feed, hb]
    | some st' =>
      rw [hb, Option.bind_some] at h
      obtain ⟨i, hi, hlt, h1, h2⟩ := ih h
      refine ⟨i + 1, by simp [utf8Refused, hb, hi], Nat.succ_lt_succ hlt, ?_, ?_⟩
      · simpa [wsUtf8Feed, hb] using h1
      · simpa [wsUtf8Feed, hb] using h2

/-- the bytes of the first `k` chunks, and `i` more -/
def upTo (cs : List Bytes) (k i : ℕ) : ℕ := (cs.take k).flatten.length + i

/-- what the calls did, said of the whole string -/
theorem feedChunks_spec (st : Utf8St) (cs : List Bytes) :
    match feedChunks st cs with
    | .fed st' => wsUtf8Feed st cs.flatten = some st'
    | .refused k i => (∃ p, cs[k]? = some p ∧ i < p.length) ∧
        (wsUtf8Feed st (cs.flatten.take (upTo cs k i))).isSome = true ∧
        wsUtf8Feed st (cs.flatten.take (upTo cs k i + 1)) = none := by
  induction cs generalizing st with
  | nil => rfl
  | cons p ps ih =>
    unfold feedChunks
    cases hp : wsUtf8Feed st p with
    | none =>
      obtain ⟨i, hi, hlt, h1, h2⟩ := utf8Refused_spec hp
      have hpos : upTo (p :: ps) 0 i = i := Nat.zero_add i
      dsimp only
      rw [hi, Option.getD_some, hpos, List.flatten_cons, List.take_append_of_le_length hlt.le,
        List.take_append_of_le_length hlt]
      exact ⟨⟨p, rfl, hlt⟩, h1, h2⟩
    | some st' =>
      have hps := ih st'
      dsimp only
      cases hrest : feedChunks st' ps with
      | fed st'' =>
        rw [hrest] at hps
        show wsUtf8Feed st (p ++ ps.flatten) = some st''
        rw [wsUtf8Feed_append, hp]
        exact hps
      | refused k i =>
        rw [hrest] at hps
        obtain ⟨hk, h1, h2⟩ := hps
        have hpos : upTo (p :: ps) (k + 1) i = p.length + upTo ps k i := by
          simp only [upTo, List.take_succ_cons, List.flatten_cons, List.length_append]
          omega
        have hcut : ∀ n, wsUtf8Feed st ((p ++ ps.flatten).take (p.length + n)) = wsUtf8Feed st' (ps.flatten.take n) := by
          intro n
          rw [List.take_length_add_append, wsUtf8Feed_append, hp, Option.bind_some]
        show (∃ q, ps[k]? = some q ∧ i < q.length) ∧
          (wsUtf8Feed st ((p ++ ps.flatten).take (upTo (p :: ps) (k + 1) i))).isSome = true ∧
          wsUtf8Feed st ((p ++ ps.flatten).take (upTo (p :: ps) (k + 1) i + 1)) = none
        rw [hpos, Nat.add_assoc, hcut, hcut]
        exact ⟨hk, h1, h2⟩

/-- a byte of one chunk is no byte of another -/
theorem upTo_inj {cs : List Bytes} {k k' i i' : ℕ} {p p' : Bytes} (hk : cs[k]? = some p) (hi : i < p.length)
    (hk' : cs[k']? = some p') (hi' : i' < p'.length) (h : upTo cs k i = upTo cs k' i') : k = k' ∧ i = i' := by
  -- the chunks before a later one hold all of an earlier one
  have hlater : ∀ {k k' i : ℕ} {p : Bytes}, cs[k]? = some p → i < p.length → k < k' →
      upTo cs k i < (cs.take k').flatten.length := by
    intro k k' i p hk hi hlt
    obtain ⟨hk0, hkp⟩ := List.getElem?_eq_some_iff.1 hk
    have hsub : (cs.take (k + 1)).flatten.length ≤ (cs.take k').flatten.length :=
      ((List.take_sublist_take_left (Nat.succ_le_of_lt hlt)).flatten).length_le
    rw [List.take_succ_eq_append_getElem hk0, hkp, List.flatten_append, List.length_append] at hsub
    simp only [List.flatten_singleton] at hsub
    unfold upTo
    omega
  rcases lt_trichotomy k k' with hlt | rfl | hlt
  · have := hlater hk hi hlt
    unfold upTo at h this
    omega
  · exact ⟨rfl, by unfold upTo at h; omega⟩
  · have := hlater hk' hi' hlt
    unfold upTo at h this
    omega

theorem viable_start {bs : Bytes} (h : Viable bs) (n : ℕ) : Viable (bs.take n) := by
  rw [← List.take_append_drop n bs] at h
  exact Viable.of_append h

theorem viable_take {bs : Bytes} {m n : ℕ} (hmn : m ≤ n) (h : Viable (bs.take n)) : Viable (bs.take m) := by
  have hm := viable_start h m
  rwa [List.take_take, min_eq_left hmn] at hm

/-- **The validator is exact, however the string is cut.** All calls return 0 and the validator is done afterwards if
and only if the string is a concatenation of encoded scalar values. Call `k` returns -1 at its byte `i` if and only if
the string up to that byte, and up to no byte before it, is no prefix of a well-formed one. -/
theorem utf8_exact (cs : List Bytes) :
    ((∃ st, feedChunks wsUtf8Reset cs = .fed st ∧ wsUtf8Done st = true) ↔ WellFormed cs.flatten) ∧
      ∀ k i, feedChunks wsUtf8Reset cs = .refused k i ↔
        (∃ p, cs[k]? = some p ∧ i < p.length) ∧ ∀ n, Viable (cs.flatten.take n) ↔ n ≤ upTo cs k i := by
  have hspec := feedChunks_spec wsUtf8Reset cs
  cases hend : feedChunks wsUtf8Reset cs with
  | fed st =>
    rw [hend] at hspec
    refine ⟨?_, fun k i => ⟨nofun, ?_⟩⟩
    · rw [wsUtf8Feed_wellFormed]
      constructor
      · rintro ⟨st', hst, hdone⟩
        obtain rfl := FeedEnd.fed.inj hst
        exact ⟨st, hspec, hdone⟩
      · rintro ⟨st', hst, hdone⟩
        obtain rfl := Option.some.inj (hspec.symm.trans hst)
        exact ⟨st, rfl, hdone⟩
    · -- every prefix is viable
      rintro ⟨-, hn⟩
      have hall : Viable cs.flatten := (wsUtf8Feed_viable _).2 (Option.isSome_iff_exists.2 ⟨st, hspec⟩)
      exact absurd ((hn (upTo cs k i + 1)).1 (viable_start hall _)) (by omega)
  | refused k i =>
    rw [hend] at hspec
    obtain ⟨⟨p, hp, hi⟩, h1, h2⟩ := hspec
    have hgood : Viable (cs.flatten.take (upTo cs k i)) := (wsUtf8Feed_viable _).2 h1
    have hbad : ¬ Viable (cs.flatten.take (upTo cs k i + 1)) := by
      rw [wsUtf8Feed_viable, h2]
      exact nofun
    have hfirst : ∀ n, Viable (cs.flatten.take n) ↔ n ≤ upTo cs k i := by
      intro n
      constructor
      · intro hn
        by_contra hlt
        exact hbad (viable_take (by omega) hn)
      · intro hn
        exact viable_take hn hgood
    refine ⟨⟨nofun, fun hwf => ?_⟩, fun k' i' => ⟨?_, ?_⟩⟩
    · exact absurd (viable_start ⟨[], by rwa [List.append_nil]⟩ _) hbad
    · intro h
      obtain ⟨rfl, rfl⟩ := FeedEnd.refused.inj h
      exact ⟨⟨p, hp, hi⟩, hfirst⟩
    · rintro ⟨⟨p', hp', hi'⟩, hn⟩
      have hpos : upTo cs k i = upTo cs k' i' :=
        le_antisymm ((hn _).1 ((hfirst _).2 le_rfl)) ((hfirst _).1 ((hn _).2 le_rfl))
      obtain ⟨rfl, rfl⟩ := upTo_inj hp hi hp' hi' hpos
      rfl

/-- a surrogate cut into two calls: the second call refuses its first byte -/
example : feedChunks wsUtf8Reset [[0x41, 0xED], [0xA0, 0x80]] = .refused 1 0 := by decide

end WsServer
