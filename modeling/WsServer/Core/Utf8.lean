/-
UTF-8 as concatenations of encoded Unicode scalar values, and its residual languages.

- `WellFormed bs`: `bs` is the concatenation of the encodings of scalar values (no overlong form, no surrogate, nothing
  above U+10FFFF: an encoding is computed from the scalar, so there is nothing else to exclude).
- `Viable bs`: some continuation of `bs` is well-formed.
- `After n lo hi t`: what may follow when `n` continuation bytes are owed and the next one is limited to `lo..hi`.
- `lead`: the row of a leading byte, i.e. how many continuation bytes it opens and the limits of the first.

`wellFormed_cons` splits a well-formed string at its first byte; with it a byte-at-a-time validator is correct as soon
as each of its states denotes an `After` and its step follows `lead` and the limits (`Proto/Ws.lean` does this for the
server's validator).
-/
import Mathlib

namespace WsServer.Utf8

/-- a Unicode scalar value: a code point that is not a surrogate -/
def IsScalar (c : ℕ) : Prop := c < 0x110000 ∧ ¬ (0xD800 ≤ c ∧ c ≤ 0xDFFF)

/-- the encoding of a scalar value, as byte values -/
def encode (c : ℕ) : List ℕ :=
  if c < 0x80 then [c]
  else if c < 0x800 then [0xC0 + c / 64, 0x80 + c % 64]
  else if c < 0x10000 then [0xE0 + c / 4096, 0x80 + c / 64 % 64, 0x80 + c % 64]
  else [0xF0 + c / 262144, 0x80 + c / 4096 % 64, 0x80 + c / 64 % 64, 0x80 + c % 64]

def WellFormed (bs : List UInt8) : Prop :=
  ∃ cs : List ℕ, (∀ c ∈ cs, IsScalar c) ∧ bs.map UInt8.toNat = cs.flatMap encode

def Viable (bs : List UInt8) : Prop := ∃ t, WellFormed (bs ++ t)

/-- what may follow when `n` continuation bytes are owed, the next of them within `lo..hi` -/
def After : ℕ → ℕ → ℕ → List UInt8 → Prop
  | 0, _, _, t => WellFormed t
  | n + 1, lo, hi, t => ∃ b r, t = b :: r ∧ lo ≤ b.toNat ∧ b.toNat ≤ hi ∧ After n 0x80 0xBF r

/-- the row of a leading byte: continuation bytes opened, limits of the first one -/
def lead (b : ℕ) : Option (ℕ × ℕ × ℕ) :=
  if b ≤ 0x7F then some (0, 0x80, 0xBF)
  else if 0xC2 ≤ b ∧ b ≤ 0xDF then some (1, 0x80, 0xBF)
  else if b = 0xE0 then some (2, 0xA0, 0xBF)
  else if 0xE1 ≤ b ∧ b ≤ 0xEC then some (2, 0x80, 0xBF)
  else if b = 0xED then some (2, 0x80, 0x9F)
  else if 0xEE ≤ b ∧ b ≤ 0xEF then some (2, 0x80, 0xBF)
  else if b = 0xF0 then some (3, 0x90, 0xBF)
  else if 0xF1 ≤ b ∧ b ≤ 0xF3 then some (3, 0x80, 0xBF)
  else if b = 0xF4 then some (3, 0x80, 0x8F)
  else none

theorem wellFormed_nil : WellFormed [] := ⟨[], by simp, rfl⟩

/-- one more scalar in front -/
theorem WellFormed.cons {c : ℕ} {p t : List UInt8} (hc : IsScalar c) (hp : p.map UInt8.toNat = encode c)
    (ht : WellFormed t) : WellFormed (p ++ t) := by
  obtain ⟨cs, hcs, he⟩ := ht
  refine ⟨c :: cs, ?_, by simp [hp, he]⟩
  intro x hx
  rcases List.mem_cons.1 hx with rfl | hx
  · exact hc
  · exact hcs x hx

/-- a non-empty well-formed string starts with the encoding of some scalar -/
theorem WellFormed.uncons {b : UInt8} {t : List UInt8} (h : WellFormed (b :: t)) :
    ∃ (c : ℕ) (cs : List ℕ), IsScalar c ∧ (∀ x ∈ cs, IsScalar x) ∧
      b.toNat :: t.map UInt8.toNat = encode c ++ cs.flatMap encode := by
  obtain ⟨cs, hcs, he⟩ := h
  cases cs with
  | nil => simp at he
  | cons c cs =>
    refine ⟨c, cs, hcs c List.mem_cons_self, fun x hx => hcs x (List.mem_cons_of_mem _ hx), ?_⟩
    simpa using he

theorem map_toNat_cons {t : List UInt8} {n : ℕ} {l : List ℕ} (h : t.map UInt8.toNat = n :: l) :
    ∃ b r, t = b :: r ∧ b.toNat = n ∧ r.map UInt8.toNat = l := by
  cases t with
  | nil => simp at h
  | cons b r =>
    simp only [List.map_cons, List.cons.injEq] at h
    exact ⟨b, r, rfl, h.1, h.2⟩

/-- the row of the first byte of an encoding, and what it leaves to follow -/
theorem After.of_encode {c : ℕ} {cs : List ℕ} {b : UInt8} {t : List UInt8} (hc : IsScalar c)
    (hcs : ∀ x ∈ cs, IsScalar x) (h : b.toNat :: t.map UInt8.toNat = encode c ++ cs.flatMap encode) :
    ∃ n lo hi, lead b.toNat = some (n, lo, hi) ∧ After n lo hi t := by
  obtain ⟨h1, h2⟩ := hc
  have hwf : ∀ r : List UInt8, r.map UInt8.toNat = cs.flatMap encode → WellFormed r := fun r hr => ⟨cs, hcs, hr⟩
  unfold encode at h
  split_ifs at h with g1 g2 g3
  · simp only [List.cons_append, List.nil_append, List.cons.injEq] at h
    obtain ⟨hb, ht⟩ := h
    exact ⟨0, 0x80, 0xBF, by unfold lead; rw [if_pos (by omega)], hwf t ht⟩
  · simp only [List.cons_append, List.nil_append, List.cons.injEq] at h
    obtain ⟨hb, ht⟩ := h
    obtain ⟨b1, r, rfl, hb1, hr⟩ := map_toNat_cons ht
    refine ⟨1, 0x80, 0xBF, ?_, b1, r, rfl, by omega, by omega, hwf r hr⟩
    unfold lead; rw [if_neg (by omega), if_pos (by omega)]
  · simp only [List.cons_append, List.nil_append, List.cons.injEq] at h
    obtain ⟨hb, ht⟩ := h
    obtain ⟨b1, r, rfl, hb1, hr⟩ := map_toNat_cons ht
    obtain ⟨b2, r', rfl, hb2, hr'⟩ := map_toNat_cons hr
    have hrest : After 1 0x80 0xBF (b2 :: r') := ⟨b2, r', rfl, by omega, by omega, hwf r' hr'⟩
    -- the row depends on the top four bits; 0 and 0xD restrict the next byte
    rcases (by omega : c / 4096 = 0 ∨ (1 ≤ c / 4096 ∧ c / 4096 ≤ 0xC) ∨ c / 4096 = 0xD ∨ 0xE ≤ c / 4096)
      with g | g | g | g
    · refine ⟨2, 0xA0, 0xBF, ?_, b1, b2 :: r', rfl, by omega, by omega, hrest⟩
      unfold lead; rw [if_neg (by omega), if_neg (by omega), if_pos (by omega)]
    · refine ⟨2, 0x80, 0xBF, ?_, b1, b2 :: r', rfl, by omega, by omega, hrest⟩
      unfold lead; rw [if_neg (by omega), if_neg (by omega), if_neg (by omega), if_pos (by omega)]
    · refine ⟨2, 0x80, 0x9F, ?_, b1, b2 :: r', rfl, by omega, by omega, hrest⟩
      unfold lead
      rw [if_neg (by omega), if_neg (by omega), if_neg (by omega), if_neg (by omega), if_pos (by omega)]
    · refine ⟨2, 0x80, 0xBF, ?_, b1, b2 :: r', rfl, by omega, by omega, hrest⟩
      unfold lead
      rw [if_neg (by omega), if_neg (by omega), if_neg (by omega), if_neg (by omega), if_neg (by omega),
        if_pos (by omega)]
  · simp only [List.cons_append, List.nil_append, List.cons.injEq] at h
    obtain ⟨hb, ht⟩ := h
    obtain ⟨b1, r, rfl, hb1, hr⟩ := map_toNat_cons ht
    obtain ⟨b2, r', rfl, hb2, hr'⟩ := map_toNat_cons hr
    obtain ⟨b3, r'', rfl, hb3, hr''⟩ := map_toNat_cons hr'
    have hrest : After 2 0x80 0xBF (b2 :: b3 :: r'') :=
      ⟨b2, _, rfl, by omega, by omega, b3, r'', rfl, by omega, by omega, hwf r'' hr''⟩
    rcases (by omega : c / 262144 = 0 ∨ (1 ≤ c / 262144 ∧ c / 262144 ≤ 3) ∨ c / 262144 = 4) with g | g | g
    · refine ⟨3, 0x90, 0xBF, ?_, b1, _, rfl, by omega, by omega, hrest⟩
      unfold lead
      rw [if_neg (by omega), if_neg (by omega), if_neg (by omega), if_neg (by omega), if_neg (by omega),
        if_neg (by omega), if_pos (by omega)]
    · refine ⟨3, 0x80, 0xBF, ?_, b1, _, rfl, by omega, by omega, hrest⟩
      unfold lead
      rw [if_neg (by omega), if_neg (by omega), if_neg (by omega), if_neg (by omega), if_neg (by omega),
        if_neg (by omega), if_neg (by omega), if_pos (by omega)]
    · refine ⟨3, 0x80, 0x8F, ?_, b1, _, rfl, by omega, by omega, hrest⟩
      unfold lead
      rw [if_neg (by omega), if_neg (by omega), if_neg (by omega), if_neg (by omega), if_neg (by omega),
        if_neg (by omega), if_neg (by omega), if_neg (by omega), if_pos (by omega)]

theorem wellFormed_two {b b1 : UInt8} {r : List UInt8} (hb : 0xC2 ≤ b.toNat ∧ b.toNat ≤ 0xDF)
    (h1 : 0x80 ≤ b1.toNat ∧ b1.toNat ≤ 0xBF) (hr : WellFormed r) : WellFormed (b :: b1 :: r) := by
  refine WellFormed.cons (c := (b.toNat - 0xC0) * 64 + (b1.toNat - 0x80)) (p := [b, b1]) ?_ ?_ hr
  · constructor <;> omega
  · unfold encode
    rw [if_neg (by omega), if_pos (by omega)]
    simp only [List.map_cons, List.map_nil, List.cons.injEq, and_true]
    omega

/-- a three-byte form within the limits its row sets (no overlong form, no surrogate) -/
theorem wellFormed_three {b b1 b2 : UInt8} {r : List UInt8} (hb : 0xE0 ≤ b.toNat ∧ b.toNat ≤ 0xEF)
    (h1 : 0x80 ≤ b1.toNat ∧ b1.toNat ≤ 0xBF) (hlo : b.toNat = 0xE0 → 0xA0 ≤ b1.toNat)
    (hsur : b.toNat = 0xED → b1.toNat ≤ 0x9F) (h2 : 0x80 ≤ b2.toNat ∧ b2.toNat ≤ 0xBF) (hr : WellFormed r) :
    WellFormed (b :: b1 :: b2 :: r) := by
  refine WellFormed.cons (c := (b.toNat - 0xE0) * 4096 + (b1.toNat - 0x80) * 64 + (b2.toNat - 0x80))
    (p := [b, b1, b2]) ?_ ?_ hr
  · constructor <;> omega
  · unfold encode
    rw [if_neg (by omega), if_neg (by omega), if_pos (by omega)]
    simp only [List.map_cons, List.map_nil, List.cons.injEq, and_true]
    omega

theorem wellFormed_four {b b1 b2 b3 : UInt8} {r : List UInt8} (hb : 0xF0 ≤ b.toNat ∧ b.toNat ≤ 0xF4)
    (h1 : 0x80 ≤ b1.toNat ∧ b1.toNat ≤ 0xBF) (hlo : b.toNat = 0xF0 → 0x90 ≤ b1.toNat)
    (htop : b.toNat = 0xF4 → b1.toNat ≤ 0x8F) (h2 : 0x80 ≤ b2.toNat ∧ b2.toNat ≤ 0xBF)
    (h3 : 0x80 ≤ b3.toNat ∧ b3.toNat ≤ 0xBF) (hr : WellFormed r) : WellFormed (b :: b1 :: b2 :: b3 :: r) := by
  refine WellFormed.cons
    (c := (b.toNat - 0xF0) * 262144 + (b1.toNat - 0x80) * 4096 + (b2.toNat - 0x80) * 64 + (b3.toNat - 0x80))
    (p := [b, b1, b2, b3]) ?_ ?_ hr
  · constructor <;> omega
  · unfold encode
    rw [if_neg (by omega), if_neg (by omega), if_neg (by omega)]
    simp only [List.map_cons, List.map_nil, List.cons.injEq, and_true]
    omega

theorem After.two {lo hi : ℕ} {t : List UInt8} (h : After 2 lo hi t) :
    ∃ b1 b2 r, t = b1 :: b2 :: r ∧ (lo ≤ b1.toNat ∧ b1.toNat ≤ hi) ∧ (0x80 ≤ b2.toNat ∧ b2.toNat ≤ 0xBF) ∧
      WellFormed r := by
  obtain ⟨b1, _, rfl, h1, h1', b2, r, rfl, h2, h2', hr⟩ := h
  exact ⟨b1, b2, r, rfl, ⟨h1, h1'⟩, ⟨h2, h2'⟩, hr⟩

theorem After.three {lo hi : ℕ} {t : List UInt8} (h : After 3 lo hi t) :
    ∃ b1 b2 b3 r, t = b1 :: b2 :: b3 :: r ∧ (lo ≤ b1.toNat ∧ b1.toNat ≤ hi) ∧
      (0x80 ≤ b2.toNat ∧ b2.toNat ≤ 0xBF) ∧ (0x80 ≤ b3.toNat ∧ b3.toNat ≤ 0xBF) ∧ WellFormed r := by
  obtain ⟨b1, t', rfl, h1, h1', ht⟩ := h
  obtain ⟨b2, b3, r, rfl, h2, h3, hr⟩ := After.two ht
  exact ⟨b1, b2, b3, r, rfl, ⟨h1, h1'⟩, h2, h3, hr⟩

/-- what follows a leading byte within its row is well-formed with it -/
theorem After.wellFormed {b : UInt8} {t : List UInt8} {n lo hi : ℕ} (hl : lead b.toNat = some (n, lo, hi))
    (h : After n lo hi t) : WellFormed (b :: t) := by
  unfold lead at hl
  split_ifs at hl with g1 g2 g3 g4 g5 g6 g7 g8 g9 <;>
    simp only [Option.some.injEq, Prod.mk.injEq] at hl <;> obtain ⟨rfl, rfl, rfl⟩ := hl
  · exact WellFormed.cons (c := b.toNat) (p := [b]) ⟨by omega, by omega⟩ (by unfold encode; rw [if_pos (by omega)]; rfl) h
  · obtain ⟨b1, r, rfl, h1, h1', hr⟩ := h
    exact wellFormed_two g2 ⟨h1, h1'⟩ hr
  · obtain ⟨b1, b2, r, rfl, h1, h2, hr⟩ := After.two h
    exact wellFormed_three (by omega) (by omega) (by omega) (by omega) h2 hr
  · obtain ⟨b1, b2, r, rfl, h1, h2, hr⟩ := After.two h
    exact wellFormed_three (by omega) h1 (by omega) (by omega) h2 hr
  · obtain ⟨b1, b2, r, rfl, h1, h2, hr⟩ := After.two h
    exact wellFormed_three (by omega) (by omega) (by omega) (by omega) h2 hr
  · obtain ⟨b1, b2, r, rfl, h1, h2, hr⟩ := After.two h
    exact wellFormed_three (by omega) h1 (by omega) (by omega) h2 hr
  · obtain ⟨b1, b2, b3, r, rfl, h1, h2, h3, hr⟩ := After.three h
    exact wellFormed_four (by omega) (by omega) (by omega) (by omega) h2 h3 hr
  · obtain ⟨b1, b2, b3, r, rfl, h1, h2, h3, hr⟩ := After.three h
    exact wellFormed_four (by omega) h1 (by omega) (by omega) h2 h3 hr
  · obtain ⟨b1, b2, b3, r, rfl, h1, h2, h3, hr⟩ := After.three h
    exact wellFormed_four (by omega) (by omega) (by omega) (by omega) h2 h3 hr

/-- **A well-formed string split at its first byte.** -/
theorem wellFormed_cons (b : UInt8) (t : List UInt8) :
    WellFormed (b :: t) ↔ ∃ n lo hi, lead b.toNat = some (n, lo, hi) ∧ After n lo hi t := by
  constructor
  · intro h
    obtain ⟨c, cs, hc, hcs, he⟩ := h.uncons
    exact After.of_encode hc hcs he
  · rintro ⟨n, lo, hi, hl, ht⟩
    exact After.wellFormed hl ht

/-- every owed continuation can be paid -/
theorem After.nonempty (n lo hi : ℕ) (hlo : lo ≤ hi) (hhi : hi < 256) : ∃ t, After n lo hi t := by
  induction n generalizing lo hi with
  | zero => exact ⟨[], wellFormed_nil⟩
  | succ n ih =>
    obtain ⟨t, ht⟩ := ih 0x80 0xBF (by omega) (by omega)
    have hb : (UInt8.ofNat lo).toNat = lo := by simp; omega
    exact ⟨UInt8.ofNat lo :: t, UInt8.ofNat lo, t, rfl, by omega, by omega, ht⟩

/-! ## Byte by byte -/

theorem WellFormed.append {p t : List UInt8} (hp : WellFormed p) (ht : WellFormed t) : WellFormed (p ++ t) := by
  obtain ⟨cs, hcs, he⟩ := hp
  obtain ⟨ds, hds, hd⟩ := ht
  refine ⟨cs ++ ds, ?_, by rw [List.map_append, he, hd, List.flatMap_append]⟩
  intro c hc
  rcases List.mem_append.1 hc with h | h
  · exact hcs c h
  · exact hds c h

/-- ASCII is well-formed -/
theorem wellFormed_ascii {bs : List UInt8} (h : ∀ b ∈ bs, b.toNat < 0x80) : WellFormed bs := by
  induction bs with
  | nil => exact wellFormed_nil
  | cons b bs ih =>
    have hb := h b List.mem_cons_self
    refine @WellFormed.cons b.toNat [b] bs ⟨by omega, by omega⟩ ?_ (ih fun c hc => h c (List.mem_cons_of_mem _ hc))
    rw [encode, if_pos hb]
    rfl

theorem encode_high {c : ℕ} (h : 0x80 ≤ c) : ∀ n ∈ encode c, 0x80 ≤ n := by
  unfold encode
  split_ifs
  · omega
  all_goals
    simp only [List.forall_mem_cons, List.not_mem_nil, false_imp_iff, implies_true, and_true]
    omega

/-- a rewriting of single bytes that leaves the bytes of longer encodings alone -/
theorem WellFormed.flatMap {f : UInt8 → List UInt8} (hlow : ∀ b : UInt8, b.toNat < 0x80 → WellFormed (f b))
    (hhigh : ∀ b : UInt8, 0x80 ≤ b.toNat → f b = [b]) {bs : List UInt8} (h : WellFormed bs) : WellFormed (bs.flatMap f) := by
  obtain ⟨cs, hcs, he⟩ := h
  induction cs generalizing bs with
  | nil =>
    rw [List.map_eq_nil_iff.1 he]
    exact wellFormed_nil
  | cons c cs ih =>
    rw [List.flatMap_cons] at he
    obtain ⟨p, t, rfl, hp, ht⟩ := List.map_eq_append_iff.1 he
    have hrest := ih (fun x hx => hcs x (List.mem_cons_of_mem _ hx)) ht
    rw [List.flatMap_append]
    by_cases hc : c < 0x80
    · rw [encode, if_pos hc] at hp
      obtain ⟨b, r, rfl, hb, hr⟩ := map_toNat_cons hp
      rw [List.map_eq_nil_iff.1 hr, List.flatMap_singleton]
      exact (hlow b (by omega)).append hrest
    · have hid : p.flatMap f = p := by
        rw [List.flatMap_congr (g := fun b => [b]), List.flatMap_singleton']
        intro b hb
        exact hhigh b (encode_high (by omega) _ (hp ▸ List.mem_map_of_mem hb))
      rw [hid]
      exact hrest.cons (hcs c List.mem_cons_self) hp

end WsServer.Utf8
