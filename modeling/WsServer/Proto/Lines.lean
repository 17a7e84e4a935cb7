/-
Lines, headers and comma lists of a buffer, said by splitting, and that the scans of `src/http.c` find the same.

`linesOf` cuts a buffer at every CRLF; `headerOf` looks through the lines behind the first one, up to the first empty
one; `ListHas` splits a value at its commas. The scans never split anything: they run over the bytes with indices.

- `httpFindHeader_eq`: the scan for a header finds the value `headerOf` gives; for a name with a colon in it, which no
  header has, that of the first line `carriedOf` finds (`httpFindHeader_carried`).
- `httpHeaderHasToken_iff`: the scan for a token finds the elements of the list.
-/
import Mathlib
import WsServer.Proto.Http

namespace WsServer

open Ws

/-! ## Lines -/

/-- the lines of a buffer; the last one has no CRLF behind it, and may be empty -/
def linesOf : Bytes → List Bytes
  | a :: b :: r =>
    if a = 0x0D ∧ b = 0x0A then [] :: linesOf r else (linesOf (b :: r)).modifyHead (a :: ·)
  | s => [s]

/-- the first line: in a request, the request line -/
def firstLine (buf : Bytes) : Bytes := (linesOf buf).headD []

/-- the line carries the header: the text up to its colon is the name -/
def LineNamed (name line : Bytes) : Prop := 0x3A ∈ line ∧ caseEq (line.takeWhile (· ≠ 0x3A)) name = true

instance (name line : Bytes) : Decidable (LineNamed name line) := by unfold LineNamed; infer_instance

/-- what stands behind the colon, without the spaces around it -/
def lineValue (line : Bytes) : Bytes := trimSpaces ((line.dropWhile (· ≠ 0x3A)).drop 1)

/-- the value in the first line with the name, before the first empty line -/
def headerIn (name : Bytes) (lines : List Bytes) : Option Bytes :=
  ((lines.takeWhile (· ≠ [])).find? fun line => LineNamed name line).map lineValue

/-- the first line is not a header -/
def headerOf (buf name : Bytes) : Option Bytes := headerIn name (linesOf buf).tail

/-- **The first CRLF ends the first line.** -/
theorem linesOf_findCRLF (buf : Bytes) :
    linesOf buf = match findCRLF buf with
      | none => [buf]
      | some i => buf.take i :: linesOf (buf.drop (i + 2)) := by
  induction buf using List.twoStepInduction with
  | nil | singleton => rfl
  | cons_cons a b r _ ih =>
    rw [linesOf, findCRLF]
    split_ifs with h
    · rfl
    · rw [ih b]
      cases findCRLF (b :: r) with
      | none => rfl
      | some i => rfl

theorem findCRLF_lt {buf : Bytes} {i : ℕ} (h : findCRLF buf = some i) : i + 2 ≤ buf.length := by
  induction buf generalizing i with
  | nil => cases h
  | cons a r ih =>
    cases r with
    | nil => cases h
    | cons b r =>
      unfold findCRLF at h
      split_ifs at h with hat
      · obtain rfl := Option.some.inj h
        simp
      · obtain ⟨j, hj, rfl⟩ := Option.map_eq_some_iff.1 h
        have := ih hj
        simp only [List.length_cons] at this ⊢
        omega

/-! ## Headers -/

/-- only letters become letters -/
theorem of_lower_eq {c d : UInt8} (hd : d < 0x61 ∨ 0x7A < d) (h : lower c = d) : c = d := by
  unfold lower at h
  split_ifs at h with hc
  · exfalso
    have h1 : 0x41 ≤ c.toNat := UInt8.le_iff_toNat_le.1 hc.1
    have h2 : c.toNat ≤ 0x5A := UInt8.le_iff_toNat_le.1 hc.2
    have hsum : (c + 0x20).toNat = c.toNat + 0x20 := by
      rw [UInt8.toNat_add]
      exact Nat.mod_eq_of_lt (show c.toNat + 32 < 256 by omega)
    rw [← h, UInt8.lt_iff_toNat_lt, UInt8.lt_iff_toNat_lt, hsum] at hd
    change c.toNat + 32 < 97 ∨ 122 < c.toNat + 32 at hd
    omega
  · exact h

theorem caseEq_length {a b : Bytes} (h : caseEq a b = true) : a.length = b.length := by
  have hm := congrArg List.length (of_decide_eq_true h)
  simpa using hm

theorem caseEq_colon {text name : Bytes} (h : caseEq text name = true) (hn : 0x3A ∉ name) : 0x3A ∉ text := by
  intro hm
  have hmap : 0x3A ∈ text.map lower := List.mem_map.2 ⟨0x3A, hm, rfl⟩
  rw [of_decide_eq_true h, List.mem_map] at hmap
  obtain ⟨c, hcn, hlow⟩ := hmap
  exact hn (of_lower_eq (by decide) hlow ▸ hcn)

/-- the line is the name, a colon and anything else, but for the case of the name -/
def Carries (name line : Bytes) : Prop := ∃ text raw, line = text ++ 0x3A :: raw ∧ caseEq text name = true

/-- how the scan compares: a colon at the length of the name, and the bytes before it -/
theorem carries_iff (name line : Bytes) :
    Carries name line ↔
      name.length < line.length ∧ line.getD name.length 0 = 0x3A ∧ caseEq (line.take name.length) name = true := by
  constructor
  · intro h
    obtain ⟨text, raw, rfl, hc⟩ := h
    rw [← caseEq_length hc]
    refine ⟨by simp, by simp, ?_⟩
    rwa [List.take_left]
  · intro h
    obtain ⟨hlen, hat, hc⟩ := h
    refine ⟨line.take name.length, line.drop (name.length + 1), ?_, hc⟩
    rw [List.getD_eq_getElem _ _ hlen] at hat
    rw [← hat, ← List.drop_eq_getElem_cons hlen, List.take_append_drop]

instance (name line : Bytes) : Decidable (Carries name line) := decidable_of_iff _ (carries_iff name line).symm

/-- what stands behind the colon, without the spaces around it -/
def carriedValue (name line : Bytes) : Bytes := trimSpaces (line.drop (name.length + 1))

def carriedIn (name : Bytes) (lines : List Bytes) : Option Bytes :=
  ((lines.takeWhile (· ≠ [])).find? fun line => Carries name line).map (carriedValue name)

/-- the value in the first line behind the first one, before the first empty one, that carries the name -/
def carriedOf (buf name : Bytes) : Option Bytes := carriedIn name (linesOf buf).tail

/-- the first line of what is left, and the other lines -/
theorem carriedIn_line (name p : Bytes) :
    carriedIn name (linesOf p) =
      let line := p.take ((findCRLF p).getD p.length)
      if line = [] then none
      else if Carries name line then some (carriedValue name line)
      else match findCRLF p with
        | none => none
        | some i => carriedIn name (linesOf (p.drop (i + 2))) := by
  have hlines := linesOf_findCRLF p
  -- the value is looked up in one line and, if that does not carry the name, in the others
  have hcons : ∀ (line : Bytes) (lines : List Bytes), carriedIn name (line :: lines) =
      if line = [] then none
      else if Carries name line then some (carriedValue name line) else carriedIn name lines := by
    intro line lines
    unfold carriedIn
    by_cases hnil : line = []
    · rw [if_pos hnil, hnil]
      rfl
    · rw [if_neg hnil, List.takeWhile_cons_of_pos (by simpa using hnil)]
      by_cases hc : Carries name line
      · rw [if_pos hc, List.find?_cons_of_pos (by simpa using hc), Option.map_some]
      · rw [if_neg hc, List.find?_cons_of_neg (by simpa using hc)]
  cases hnl : findCRLF p with
  | none =>
    rw [hnl] at hlines
    rw [hlines, hcons, Option.getD_none, List.take_length]
    rfl
  | some i =>
    rw [hnl] at hlines
    rw [hlines, hcons]
    rfl

/-- the loop of `httpFindHeader` goes through the lines -/
theorem findHeaderLine_carried (name : Bytes) (fuel : ℕ) (p : Bytes) (hfuel : p.length < fuel) :
    findHeaderLine name fuel p = carriedIn name (linesOf p) := by
  induction fuel generalizing p with
  | zero => exact absurd hfuel (Nat.not_lt_zero _)
  | succ fuel ih =>
    rw [findHeaderLine]
    by_cases hp : p = []
    · rw [if_pos hp, hp]
      rfl
    rw [if_neg hp, carriedIn_line]
    have hle : (findCRLF p).getD p.length ≤ p.length := by
      cases hnl : findCRLF p with
      | none => exact le_rfl
      | some i => exact (Nat.le_add_right _ _).trans (findCRLF_lt hnl)
    have hlen := List.length_take_of_le hle
    have hnil : p.take ((findCRLF p).getD p.length) = [] ↔ (findCRLF p).getD p.length = 0 := by
      rw [← List.length_eq_zero_iff, hlen]
    simp only [hnil]
    by_cases h0 : (findCRLF p).getD p.length = 0
    · rw [if_pos h0, if_pos h0]
    · rw [if_neg h0, if_neg h0]
      have hcarries := carries_iff name (p.take ((findCRLF p).getD p.length))
      rw [hlen] at hcarries
      simp only [← hcarries]
      by_cases hc : Carries name (p.take ((findCRLF p).getD p.length))
      · rw [if_pos hc, if_pos hc]
        rfl
      · rw [if_neg hc, if_neg hc]
        cases hnl : findCRLF p with
        | none => rfl
        | some i =>
          have hfits := findCRLF_lt hnl
          exact ih (p.drop (i + 2)) (by rw [List.length_drop]; omega)

/-- **The scan for a header** finds the first line behind the first CRLF that carries it, for any name. -/
theorem httpFindHeader_carried (buf name : Bytes) : httpFindHeader buf name = carriedOf buf name := by
  unfold httpFindHeader carriedOf
  rw [linesOf_findCRLF buf]
  cases hnl : findCRLF buf with
  | none => rfl
  | some i =>
    have hfits := findCRLF_lt hnl
    exact findHeaderLine_carried name _ _ (by rw [List.length_drop]; omega)

/-- in front of a name without a colon, the colon is the first one of the line -/
theorem carries_iff_named {name : Bytes} (hn : 0x3A ∉ name) (line : Bytes) : Carries name line ↔ LineNamed name line := by
  constructor
  · intro h
    obtain ⟨text, raw, rfl, hc⟩ := h
    have hno := caseEq_colon hc hn
    have hall : ∀ c ∈ text, decide (c ≠ 0x3A) = true := by
      intro c hcm
      exact decide_eq_true fun he => hno (he ▸ hcm)
    refine ⟨by simp, ?_⟩
    rw [List.takeWhile_append_of_pos hall]
    simpa using hc
  · intro h
    obtain ⟨hm, hc⟩ := h
    refine ⟨line.takeWhile (· ≠ 0x3A), (line.dropWhile (· ≠ 0x3A)).drop 1, ?_, hc⟩
    have hsplit : line.takeWhile (· ≠ 0x3A) ++ line.dropWhile (· ≠ 0x3A) = line := List.takeWhile_append_dropWhile
    cases hd : line.dropWhile (· ≠ 0x3A) with
    | nil =>
      rw [List.dropWhile_eq_nil_iff] at hd
      simpa using hd _ hm
    | cons x r =>
      have hx := List.head?_dropWhile_not (· ≠ 0x3A) line
      rw [hd] at hx
      obtain rfl : x = 0x3A := by simpa using hx
      rw [hd] at hsplit
      exact hsplit.symm

/-- the value behind the colon -/
theorem carriedValue_eq {name line : Bytes} (h : LineNamed name line) : carriedValue name line = lineValue line := by
  have hsplit : line.takeWhile (· ≠ 0x3A) ++ line.dropWhile (· ≠ 0x3A) = line := List.takeWhile_append_dropWhile
  have hdrop : line.drop name.length = line.dropWhile (· ≠ 0x3A) := by
    rw [← caseEq_length h.2]
    nth_rewrite 2 [← hsplit]
    rw [List.drop_left]
  unfold carriedValue lineValue
  rw [← hdrop, List.drop_drop]

theorem carriedIn_eq {name : Bytes} (hn : 0x3A ∉ name) (lines : List Bytes) :
    carriedIn name lines = headerIn name lines := by
  unfold carriedIn headerIn
  simp only [carries_iff_named hn]
  cases hfind : (lines.takeWhile (· ≠ [])).find? fun line => LineNamed name line with
  | none => rfl
  | some line =>
    have hnamed : LineNamed name line := by simpa using List.find?_some hfind
    rw [Option.map_some, Option.map_some, carriedValue_eq hnamed]

theorem carriedOf_eq {name : Bytes} (hn : 0x3A ∉ name) (buf : Bytes) : carriedOf buf name = headerOf buf name :=
  carriedIn_eq hn _

/-- **The scan for a header** finds the first line behind the first CRLF with the name before its colon. -/
theorem httpFindHeader_eq {name : Bytes} (hn : 0x3A ∉ name) (buf : Bytes) : httpFindHeader buf name = headerOf buf name := by
  rw [httpFindHeader_carried, carriedOf_eq hn]

/-! ## Comma lists -/

/-- an element between two commas is the token, but for the spaces around it and the case -/
def ListHas (val token : Bytes) : Prop := ∃ elem ∈ val.splitOn 0x2C, caseEq (trimSpaces elem) token = true

instance (val token : Bytes) : Decidable (ListHas val token) := by unfold ListHas; infer_instance

theorem trimSpaces_space (v : Bytes) : trimSpaces (0x20 :: v) = trimSpaces v := by
  unfold trimSpaces
  rw [List.dropWhile_cons_of_pos (by simp)]

theorem not_caseEq_nil {token : Bytes} (ht : token ≠ []) : ¬ caseEq (trimSpaces []) token = true := by
  intro h
  exact ht (List.length_eq_zero_iff.1 (caseEq_length h).symm)

theorem not_listHas_nil {token : Bytes} (ht : token ≠ []) : ¬ ListHas [] token := by
  intro h
  obtain ⟨e, he, hc⟩ := h
  rw [List.splitOn_nil, List.mem_singleton] at he
  subst he
  exact not_caseEq_nil ht hc

/-- a comma or a space in front changes nothing -/
theorem listHas_cons {token : Bytes} (ht : token ≠ []) {c : UInt8} (hc : c = 0x20 ∨ c = 0x2C) (v : Bytes) :
    ListHas (c :: v) token ↔ ListHas v token := by
  unfold ListHas
  rw [List.splitOn_cons_eq_if_modifyHead]
  rcases hc with rfl | rfl
  · rw [if_neg (by decide)]
    obtain ⟨x, xs, hx⟩ := List.exists_cons_of_ne_nil (List.splitOn_ne_nil 0x2C v)
    rw [hx]
    simp only [List.modifyHead_cons, List.exists_mem_cons_iff, trimSpaces_space]
  · rw [if_pos (by decide), List.exists_mem_cons_iff]
    exact or_iff_right (not_caseEq_nil ht)

theorem listHas_dropWhile {token : Bytes} (ht : token ≠ []) (v : Bytes) :
    ListHas (v.dropWhile fun c => c = 0x20 ∨ c = 0x2C) token ↔ ListHas v token := by
  induction v with
  | nil => rfl
  | cons c v ih =>
    by_cases hc : c = 0x20 ∨ c = 0x2C
    · rw [List.dropWhile_cons_of_pos (by simpa using hc), ih, listHas_cons ht hc]
    · rw [List.dropWhile_cons_of_neg (by simpa using hc)]

/-- the first element, and the others -/
theorem listHas_first {token : Bytes} (ht : token ≠ []) (v : Bytes) :
    ListHas v token ↔
      caseEq (trimSpaces (v.takeWhile (· ≠ 0x2C))) token = true ∨ ListHas (v.dropWhile (· ≠ 0x2C)) token := by
  have hsplit : v.takeWhile (· ≠ 0x2C) ++ v.dropWhile (· ≠ 0x2C) = v := List.takeWhile_append_dropWhile
  have hno : 0x2C ∉ v.takeWhile (· ≠ 0x2C) := by
    intro hm
    have := List.mem_takeWhile_imp hm
    simp at this
  cases hd : v.dropWhile (· ≠ 0x2C) with
  | nil =>
    rw [hd, List.append_nil] at hsplit
    rw [or_iff_left (not_listHas_nil ht), hsplit]
    unfold ListHas
    rw [List.splitOn_eq_singleton (hsplit ▸ hno)]
    simp
  | cons c r =>
    have hc := List.head?_dropWhile_not (· ≠ 0x2C) v
    rw [hd] at hc
    obtain rfl : c = 0x2C := by simpa using hc
    rw [listHas_cons ht (.inr rfl)]
    unfold ListHas
    nth_rewrite 1 [← hsplit]
    rw [hd, List.splitOn_append_cons_self_of_not_mem hno, List.exists_mem_cons_iff]

theorem trimSpaces_of_head {v : Bytes} (h : v.head? ≠ some 0x20) :
    trimSpaces v = (v.reverse.dropWhile (· = 0x20)).reverse := by
  unfold trimSpaces
  cases v with
  | nil => rfl
  | cons c v =>
    rw [List.dropWhile_cons_of_neg]
    simpa using h

/-- one pass of the loop takes something -/
theorem length_rest_lt {val : Bytes} (h : val ≠ []) :
    ((val.dropWhile fun c => c = 0x20 ∨ c = 0x2C).dropWhile (· ≠ 0x2C)).length < val.length := by
  cases val with
  | nil => exact absurd rfl h
  | cons c val =>
    by_cases hc : c = 0x20 ∨ c = 0x2C
    · rw [List.dropWhile_cons_of_pos (by simpa using hc), List.length_cons]
      have h1 := (List.dropWhile_suffix (l := val) fun c => decide (c = 0x20 ∨ c = 0x2C)).length_le
      have h2 := (List.dropWhile_suffix (l := val.dropWhile fun c => c = 0x20 ∨ c = 0x2C) (· ≠ 0x2C)).length_le
      omega
    · rw [List.dropWhile_cons_of_neg (by simpa using hc)]
      rw [not_or] at hc
      rw [List.dropWhile_cons_of_pos (by simpa using hc.2), List.length_cons]
      have h2 := (List.dropWhile_suffix (l := val) (· ≠ 0x2C)).length_le
      omega

/-- one pass of the loop: the element behind the commas and spaces, up to its comma, and the rest -/
theorem listHas_next {token : Bytes} (ht : token ≠ []) {val v : Bytes}
    (hv : (val.dropWhile fun c => c = 0x20 ∨ c = 0x2C) = v) :
    ListHas val token ↔
      caseEq ((v.takeWhile (· ≠ 0x2C)).reverse.dropWhile (· = 0x20)).reverse token = true ∨
        ListHas (v.dropWhile (· ≠ 0x2C)) token := by
  have hhead := List.head?_dropWhile_not (fun c : UInt8 => c = 0x20 ∨ c = 0x2C) val
  have hne : (v.takeWhile (· ≠ 0x2C)).head? ≠ some 0x20 := by
    rw [hv] at hhead
    cases v with
    | nil => simp
    | cons c r =>
      have hc : ¬ (c = 0x20 ∨ c = 0x2C) := by simpa using hhead
      rw [not_or] at hc
      rw [List.takeWhile_cons_of_pos (by simpa using hc.2)]
      simpa using hc.1
  rw [← listHas_dropWhile ht val, hv, listHas_first ht, ← trimSpaces_of_head hne]

/-- the loop of `httpHeaderHasToken` goes through the elements -/
theorem hasToken_iff {token : Bytes} (ht : token ≠ []) (fuel : ℕ) (val : Bytes) (hfuel : val.length < fuel) :
    hasToken token fuel val = true ↔ ListHas val token := by
  induction fuel generalizing val with
  | zero => exact absurd hfuel (Nat.not_lt_zero _)
  | succ fuel ih =>
    rw [hasToken]
    by_cases hval : val = []
    · rw [if_pos hval, hval]
      exact iff_of_false Bool.false_ne_true (not_listHas_nil ht)
    have hlen := length_rest_lt hval
    rw [if_neg hval, listHas_next ht rfl, ← ih _ (by omega)]
    dsimp only
    generalize (((val.dropWhile fun c => c = 0x20 ∨ c = 0x2C).takeWhile (· ≠ 0x2C)).reverse.dropWhile
      (· = 0x20)).reverse = elem
    by_cases hc : caseEq elem token = true
    · have hsome : elem ≠ [] := by
        intro he
        rw [he] at hc
        exact ht (List.length_eq_zero_iff.1 (caseEq_length hc).symm)
      rw [if_pos ⟨hsome, caseEq_length hc, hc⟩]
      exact iff_of_true rfl (.inl hc)
    · rw [if_neg (fun h => hc h.2.2), or_iff_right hc]

/-- **The scan for a token** finds the elements of the comma list. -/
theorem httpHeaderHasToken_iff {token : Bytes} (ht : token ≠ []) (val : Bytes) :
    httpHeaderHasToken val token = true ↔ ListHas val token :=
  hasToken_iff ht _ val (Nat.lt_succ_self _)

end WsServer
