/-
HTTP header blocks: a first line, header lines, an empty line.

`headerBlock` is what a correct sender writes. The end of the block is found where it is, whatever follows
(`httpFindHeaderEnd_block`), and a header is looked up by its name alone (`httpFindHeader_block`): neither the first
line nor the value of another header can stand in for it.
-/
import Mathlib
import WsServer.Proto.Lines

namespace WsServer

open Ws

def crlf : Bytes := [0x0D, 0x0A]

structure HeaderLine where
  name : Bytes
  value : Bytes

/-- the line without its CRLF -/
def HeaderLine.text (h : HeaderLine) : Bytes := h.name ++ 0x3A :: 0x20 :: h.value

/-- what a lookup gives for the line: its value without the spaces around it -/
def HeaderLine.found (h : HeaderLine) : Bytes := trimSpaces (0x20 :: h.value)

/-- no colon in the name, no CR anywhere -/
structure HeaderLine.Valid (h : HeaderLine) : Prop where
  colon : 0x3A ∉ h.name
  name_cr : 0x0D ∉ h.name
  value_cr : 0x0D ∉ h.value

def headerLines (hs : List HeaderLine) : Bytes := hs.flatMap fun h => h.text ++ crlf

def headerBlock (first : Bytes) (hs : List HeaderLine) : Bytes := first ++ crlf ++ headerLines hs ++ crlf

theorem HeaderLine.Valid.text_cr {h : HeaderLine} (hv : h.Valid) : 0x0D ∉ h.text := by
  simp only [HeaderLine.text, List.mem_append, List.mem_cons, not_or]
  exact ⟨hv.name_cr, by decide, by decide, hv.value_cr⟩

theorem HeaderLine.found_eq {h : HeaderLine} (hv : 0x20 ∉ h.value) : h.found = h.value := by
  have hne : ∀ l : Bytes, 0x20 ∉ l → l.dropWhile (· = 0x20) = l := by
    intro l hl
    cases l with
    | nil => rfl
    | cons a l =>
      rw [List.mem_cons, not_or] at hl
      rw [List.dropWhile_cons_of_neg (by simpa using Ne.symm hl.1)]
  unfold HeaderLine.found trimSpaces
  rw [List.dropWhile_cons_of_pos (by simp), hne _ hv, hne _ (by simpa using hv), List.reverse_reverse]

/-! ## Lines -/

/-- a line ends at its CRLF -/
theorem findCRLF_line {xs : Bytes} (h : 0x0D ∉ xs) (t : Bytes) : findCRLF (xs ++ crlf ++ t) = some xs.length := by
  induction xs with
  | nil => rfl
  | cons x xs ih =>
    rw [List.mem_cons, not_or] at h
    have hr := ih h.2
    obtain ⟨y, ys, hy⟩ : ∃ y ys, xs ++ crlf ++ t = y :: ys := by
      cases xs <;> exact ⟨_, _, rfl⟩
    rw [List.cons_append, List.cons_append, hy, findCRLF, if_neg (fun hh => h.1 hh.1.symm), ← hy, hr]
    rfl

/-- the lines of a block: those that were written, and two empty ones -/
theorem linesOf_headerLines {hs : List HeaderLine} (hv : ∀ h ∈ hs, h.Valid) :
    linesOf (headerLines hs ++ crlf) = hs.map HeaderLine.text ++ [[], []] := by
  induction hs with
  | nil => rfl
  | cons h hs ih =>
    have hshape : headerLines (h :: hs) ++ crlf = h.text ++ crlf ++ (headerLines hs ++ crlf) := by
      simp [headerLines, List.append_assoc]
    have hlen : h.text.length + 2 = (h.text ++ crlf).length := by simp [crlf]
    have hnl := findCRLF_line (hv h List.mem_cons_self).text_cr (headerLines hs ++ crlf)
    rw [hshape, linesOf_findCRLF, hnl]
    dsimp only
    rw [hlen, List.drop_left, ih fun g hg => hv g (List.mem_cons_of_mem _ hg), List.append_assoc, List.take_left]
    rfl

/-- a line carries a name exactly when its own name is that name -/
theorem lineNamed_text {h : HeaderLine} (hv : h.Valid) (name : Bytes) :
    LineNamed name h.text ↔ caseEq h.name name = true := by
  have hall : ∀ c ∈ h.name, decide (c ≠ 0x3A) = true := by
    intro c hc
    exact decide_eq_true fun he => hv.colon (he ▸ hc)
  have htext : h.text.takeWhile (· ≠ 0x3A) = h.name := by
    rw [HeaderLine.text, List.takeWhile_append_of_pos hall]
    simp
  unfold LineNamed
  rw [htext]
  exact and_iff_right (by simp [HeaderLine.text])

theorem lineValue_text {h : HeaderLine} (hv : h.Valid) : lineValue h.text = h.found := by
  have hall : ∀ c ∈ h.name, decide (c ≠ 0x3A) = true := by
    intro c hc
    exact decide_eq_true fun he => hv.colon (he ▸ hc)
  unfold lineValue HeaderLine.found
  rw [HeaderLine.text, List.dropWhile_append_of_pos hall]
  rfl

/-- **A header is looked up by its name alone.** -/
theorem httpFindHeader_block {first name : Bytes} (hf : 0x0D ∉ first) (hn : 0x3A ∉ name) {hs : List HeaderLine}
    (hv : ∀ h ∈ hs, h.Valid) :
    httpFindHeader (headerBlock first hs) name = (hs.find? fun h => caseEq h.name name).map HeaderLine.found := by
  have hshape : headerBlock first hs = first ++ crlf ++ (headerLines hs ++ crlf) := by
    simp [headerBlock, List.append_assoc]
  have hlen : first.length + 2 = (first ++ crlf).length := by simp [crlf]
  have htail : (linesOf (headerBlock first hs)).tail = hs.map HeaderLine.text ++ [[], []] := by
    rw [hshape, linesOf_findCRLF, findCRLF_line hf]
    dsimp only
    rw [hlen, List.drop_left, linesOf_headerLines hv, List.tail_cons]
  have hlines : ∀ line ∈ hs.map HeaderLine.text, decide (line ≠ []) = true := by
    intro line hm
    obtain ⟨h, _, rfl⟩ := List.mem_map.1 hm
    simp [HeaderLine.text]
  rw [httpFindHeader_eq hn, headerOf, htail, headerIn, List.takeWhile_append_of_pos hlines]
  have hfind : (hs.find? fun h => LineNamed name h.text) = hs.find? fun h => caseEq h.name name := by
    apply List.find?_congr
    intro h hm
    rw [Bool.eq_iff_iff, decide_eq_true_iff]
    exact lineNamed_text (hv h hm) name
  rw [List.takeWhile_cons_of_neg (by simp), List.append_nil, List.find?_map, Option.map_map, ← hfind]
  cases hres : hs.find? fun h => LineNamed name h.text with
  | none =>
    rw [Option.map_none, Option.map_eq_none_iff]
    exact hres
  | some h =>
    have hm := List.mem_of_find?_eq_some hres
    rw [Option.map_some, ← lineValue_text (hv h hm)]
    exact congrArg _ hres

/-! ## The end of the block -/

theorem httpFindHeaderEnd_cons {a : UInt8} (h : a ≠ 0x0D) (r : Bytes) :
    httpFindHeaderEnd (a :: r) = (httpFindHeaderEnd r).map (· + 1) := by
  rcases r with _ | ⟨b, _ | ⟨c, _ | ⟨d, r⟩⟩⟩
  · rfl
  · rfl
  · rfl
  · rw [httpFindHeaderEnd, if_neg (fun hh => h hh.1)]

/-- bytes without CR are passed over -/
theorem httpFindHeaderEnd_line {xs : Bytes} (h : 0x0D ∉ xs) (t : Bytes) :
    httpFindHeaderEnd (xs ++ t) = (httpFindHeaderEnd t).map (· + xs.length) := by
  induction xs with
  | nil => simp
  | cons x xs ih =>
    rw [List.mem_cons, not_or] at h
    rw [List.cons_append, httpFindHeaderEnd_cons (fun he => h.1 he.symm), ih h.2, Option.map_map]
    rfl

/-- a CRLF with a line behind it is not the end -/
theorem httpFindHeaderEnd_crlf {b : UInt8} (h : b ≠ 0x0D) (r : Bytes) :
    httpFindHeaderEnd (crlf ++ b :: r) = (httpFindHeaderEnd (b :: r)).map (· + 2) := by
  have hlf := httpFindHeaderEnd_cons (show (0x0A : UInt8) ≠ 0x0D by decide) (b :: r)
  have hcr : httpFindHeaderEnd (0x0D :: 0x0A :: b :: r) = (httpFindHeaderEnd (0x0A :: b :: r)).map (· + 1) := by
    cases r with
    | nil => rfl
    | cons d r => rw [httpFindHeaderEnd, if_neg (fun hh => h hh.2.2.1)]
  rw [show crlf ++ b :: r = 0x0D :: 0x0A :: b :: r from rfl, hcr, hlf, Option.map_map]
  rfl

theorem httpFindHeaderEnd_lines (hs : List HeaderLine) (hv : ∀ h ∈ hs, h.Valid) (t : Bytes) :
    httpFindHeaderEnd (crlf ++ headerLines hs ++ crlf ++ t) = some (headerLines hs).length := by
  induction hs with
  | nil => rfl
  | cons h hs ih =>
    have hvh := hv h List.mem_cons_self
    have hr := ih fun g hg => hv g (List.mem_cons_of_mem _ hg)
    have hshape : crlf ++ headerLines (h :: hs) ++ crlf ++ t = crlf ++ (h.text ++ (crlf ++ headerLines hs ++ crlf ++ t)) := by
      simp [headerLines, List.append_assoc]
    obtain ⟨b, r, hb⟩ : ∃ b r, h.text = b :: r := by
      unfold HeaderLine.text
      cases h.name <;> exact ⟨_, _, rfl⟩
    have hcr := hvh.text_cr
    have hbcr : b ≠ 0x0D := by
      rw [hb, List.mem_cons, not_or] at hcr
      exact fun he => hcr.1 he.symm
    rw [hshape, hb, List.cons_append, httpFindHeaderEnd_crlf hbcr, ← List.cons_append, ← hb, httpFindHeaderEnd_line hcr, hr]
    simp only [Option.map_some, Option.some.injEq, headerLines, List.flatMap_cons, List.length_append, crlf,
      List.length_cons, List.length_nil]
    omega

/-- **The end of the block is found**, whatever follows. -/
theorem httpFindHeaderEnd_block {first : Bytes} (hf : 0x0D ∉ first) {hs : List HeaderLine} (hv : ∀ h ∈ hs, h.Valid)
    (t : Bytes) : httpFindHeaderEnd (headerBlock first hs ++ t) = some ((headerBlock first hs).length - 4) := by
  have hshape : headerBlock first hs ++ t = first ++ (crlf ++ headerLines hs ++ crlf ++ t) := by
    simp [headerBlock, List.append_assoc]
  rw [hshape, httpFindHeaderEnd_line hf, httpFindHeaderEnd_lines hs hv]
  simp only [headerBlock, Option.map_some, Option.some.injEq, List.length_append, crlf, List.length_cons, List.length_nil]
  omega

/-- an end of the header that was found stays where it is -/
theorem httpFindHeaderEnd_append {bs : Bytes} {i : ℕ} (h : httpFindHeaderEnd bs = some i) (t : Bytes) :
    httpFindHeaderEnd (bs ++ t) = some i := by
  induction bs generalizing i with
  | nil => cases h
  | cons a r ih =>
    rcases r with _ | ⟨b, _ | ⟨c, _ | ⟨d, r⟩⟩⟩
    · cases h
    · cases h
    · cases h
    · unfold httpFindHeaderEnd at h
      simp only [List.cons_append]
      unfold httpFindHeaderEnd
      split_ifs at h ⊢ with heq
      · exact h
      · obtain ⟨j, hj, rfl⟩ := Option.map_eq_some_iff.1 h
        have := ih hj
        simp only [List.cons_append] at this
        rw [this]
        rfl

/-- it is found in every piece that reaches as far -/
theorem httpFindHeaderEnd_take {bs : Bytes} {i n : ℕ} (h : httpFindHeaderEnd bs = some i) (hn : i + 4 ≤ n) :
    httpFindHeaderEnd (bs.take n) = some i := by
  induction bs generalizing i n with
  | nil => cases h
  | cons a r ih =>
    rcases r with _ | ⟨b, _ | ⟨c, _ | ⟨d, r⟩⟩⟩
    · cases h
    · cases h
    · cases h
    · obtain ⟨n, rfl⟩ : ∃ k, n = k + 4 := ⟨n - 4, by omega⟩
      unfold httpFindHeaderEnd at h
      simp only [List.take_succ_cons]
      unfold httpFindHeaderEnd
      split_ifs at h ⊢ with heq
      · exact h
      · obtain ⟨j, hj, rfl⟩ := Option.map_eq_some_iff.1 h
        have := ih hj (show j + 4 ≤ n + 3 by omega)
        simp only [List.take_succ_cons] at this
        rw [this]
        rfl

/-- and in no shorter one -/
theorem httpFindHeaderEnd_short {bs : Bytes} {i n : ℕ} (h : httpFindHeaderEnd bs = some i) (hn : n < i + 4) :
    httpFindHeaderEnd (bs.take n) = none := by
  by_contra hne
  obtain ⟨j, hj⟩ := Option.ne_none_iff_exists'.1 hne
  have hle := (httpFindHeaderEnd_some hj).1
  have hsame := httpFindHeaderEnd_append hj (bs.drop n)
  rw [List.take_append_drop, h] at hsame
  obtain rfl := Option.some.inj hsame
  rw [List.length_take] at hle
  omega

end WsServer
