/-
JSON texts as bytes: a reader for the whole grammar, and what it reads back.

A string is the bytes it stands for, its escapes resolved and the code points of `\u` encoded as UTF-8. A number is kept
as it is written, so that no digit is lost; `Num.value` is the rational it stands for. The members of an object are a
list, in the order of the text.

- `readString_flatMap`: a string whose bytes are all written in a form that is read back (`Spells`) is read back.
- `readNum_nat`, `readNum_point`: a number in decimal, alone and with digits behind a point.
- `readMembers_next`, `readMembers_last`: the members of an object, one after the other.
-/
import Mathlib
import WsServer.Core.Utf8

namespace WsServer.Json

abbrev Text := List UInt8

/-! ## The reader -/

/-- a number as it is written -/
structure Num where
  neg : Bool
  int : ℕ
  /-- the digits behind the point, each below 10 -/
  frac : List ℕ
  exp : ℤ
deriving DecidableEq

inductive Value where
  | null
  | bool (b : Bool)
  | num (n : Num)
  | str (s : Text)
  | arr (vs : List Value)
  | obj (members : List (Text × Value))

/-- the number written by some digits, behind those read already -/
def ofDigits (ds : List ℕ) (sofar : ℕ) : ℕ := ds.foldl (fun n d => n * 10 + d) sofar

def Num.value (n : Num) : ℚ :=
  (if n.neg then -1 else 1) * (n.int + ofDigits n.frac 0 / 10 ^ n.frac.length) * (10 : ℚ) ^ n.exp

def isSpace (b : UInt8) : Bool := b = 0x20 ∨ b = 0x09 ∨ b = 0x0A ∨ b = 0x0D

def skipSpace (t : Text) : Text := t.dropWhile isSpace

def isDigit (b : UInt8) : Bool := 0x30 ≤ b ∧ b ≤ 0x39

def digitVal (b : UInt8) : ℕ := b.toNat - 0x30

/-- a run of digits, at least one, and what follows it -/
def readDigits (t : Text) : Option (List ℕ × Text) :=
  if t.takeWhile isDigit = [] then none
  else some ((t.takeWhile isDigit).map digitVal, t.dropWhile isDigit)

/-- the integer part: no leading zeros -/
def readInt (t : Text) : Option (ℕ × Text) :=
  (readDigits t).bind fun r => if r.1.head? = some 0 ∧ 1 < r.1.length then none else some (ofDigits r.1 0, r.2)

def readFrac : Text → Option (List ℕ × Text)
  | 0x2E :: t => readDigits t
  | t => some ([], t)

def readExp : Text → Option (ℤ × Text)
  | b :: t =>
    if b = 0x65 ∨ b = 0x45 then
      match t with
      | 0x2B :: t => (readDigits t).map fun r => ((ofDigits r.1 0 : ℤ), r.2)
      | 0x2D :: t => (readDigits t).map fun r => (-(ofDigits r.1 0 : ℤ), r.2)
      | t => (readDigits t).map fun r => ((ofDigits r.1 0 : ℤ), r.2)
    else some (0, b :: t)
  | [] => some (0, [])

/-- a number behind its sign -/
def readUnsigned (neg : Bool) (t : Text) : Option (Num × Text) :=
  (readInt t).bind fun i => (readFrac i.2).bind fun f => (readExp f.2).map fun e => (⟨neg, i.1, f.1, e.1⟩, e.2)

def readNum : Text → Option (Num × Text)
  | 0x2D :: t => readUnsigned true t
  | t => readUnsigned false t

def hexVal (b : UInt8) : Option ℕ :=
  if 0x30 ≤ b ∧ b ≤ 0x39 then some (b.toNat - 0x30)
  else if 0x61 ≤ b ∧ b ≤ 0x66 then some (b.toNat - 0x57)
  else if 0x41 ≤ b ∧ b ≤ 0x46 then some (b.toNat - 0x37)
  else none

/-- the code unit of `\u` -/
def hex4 (a b c d : UInt8) : Option ℕ :=
  (hexVal a).bind fun a => (hexVal b).bind fun b => (hexVal c).bind fun c => (hexVal d).map fun d =>
    ((a * 16 + b) * 16 + c) * 16 + d

/-- the escapes of one letter -/
def letterEscape (b : UInt8) : Option UInt8 :=
  if b = 0x22 ∨ b = 0x5C ∨ b = 0x2F then some b
  else if b = 0x62 then some 0x08
  else if b = 0x66 then some 0x0C
  else if b = 0x6E then some 0x0A
  else if b = 0x72 then some 0x0D
  else if b = 0x74 then some 0x09
  else none

/-- the code point of an escape behind `\u`, and what follows; a high surrogate needs a low one behind it -/
def readUnicode : Text → Option (ℕ × Text)
  | a :: b :: c :: d :: t =>
    (hex4 a b c d).bind fun u =>
      if u < 0xD800 ∨ 0xDFFF < u then some (u, t)
      else
        match t with
        | 0x5C :: 0x75 :: a :: b :: c :: d :: t =>
          (hex4 a b c d).bind fun v =>
            if u < 0xDC00 ∧ 0xDC00 ≤ v ∧ v ≤ 0xDFFF then some (0x10000 + (u - 0xD800) * 0x400 + (v - 0xDC00), t)
            else none
        | _ => none
  | _ => none

/-- a string behind its opening quote: the bytes it stands for, and what follows the closing quote -/
def readString : ℕ → Text → Option (Text × Text)
  | 0, _ => none
  | _ + 1, [] => none
  | fuel + 1, b :: t =>
    if b = 0x22 then some ([], t)
    else if b = 0x5C then
      match t with
      | [] => none
      | e :: t =>
        if e = 0x75 then
          (readUnicode t).bind fun u =>
            (readString fuel u.2).map fun r => ((Utf8.encode u.1).map UInt8.ofNat ++ r.1, r.2)
        else (letterEscape e).bind fun c => (readString fuel t).map fun r => (c :: r.1, r.2)
    else if b < 0x20 then none
    else (readString fuel t).map fun r => (b :: r.1, r.2)

/-- the values of an array behind its bracket, the first of them due -/
def readItems (read : Text → Option (Value × Text)) : ℕ → Text → Option (List Value × Text)
  | 0, _ => none
  | fuel + 1, t =>
    (read t).bind fun v =>
      match skipSpace v.2 with
      | 0x2C :: t => (readItems read fuel t).map fun r => (v.1 :: r.1, r.2)
      | 0x5D :: t => some ([v.1], t)
      | _ => none

/-- the members of an object behind its brace, the first of them due -/
def readMembers (read : Text → Option (Value × Text)) : ℕ → Text → Option (List (Text × Value) × Text)
  | 0, _ => none
  | fuel + 1, t =>
    match skipSpace t with
    | 0x22 :: t =>
      (readString (t.length + 1) t).bind fun k =>
        match skipSpace k.2 with
        | 0x3A :: t =>
          (read t).bind fun v =>
            match skipSpace v.2 with
            | 0x2C :: t => (readMembers read fuel t).map fun r => ((k.1, v.1) :: r.1, r.2)
            | 0x7D :: t => some ([(k.1, v.1)], t)
            | _ => none
        | _ => none
    | _ => none

/-- a value nested at most `fuel` deep, and what follows it -/
def readValue : ℕ → Text → Option (Value × Text)
  | 0, _ => none
  | fuel + 1, t =>
    match skipSpace t with
    | 0x22 :: t => (readString (t.length + 1) t).map fun r => (.str r.1, r.2)
    | 0x7B :: t =>
      match skipSpace t with
      | 0x7D :: t => some (.obj [], t)
      | t => (readMembers (readValue fuel) (t.length + 1) t).map fun r => (.obj r.1, r.2)
    | 0x5B :: t =>
      match skipSpace t with
      | 0x5D :: t => some (.arr [], t)
      | t => (readItems (readValue fuel) (t.length + 1) t).map fun r => (.arr r.1, r.2)
    | 0x6E :: 0x75 :: 0x6C :: 0x6C :: t => some (.null, t)
    | 0x74 :: 0x72 :: 0x75 :: 0x65 :: t => some (.bool true, t)
    | 0x66 :: 0x61 :: 0x6C :: 0x73 :: 0x65 :: t => some (.bool false, t)
    | t => (readNum t).map fun r => (.num r.1, r.2)

/-- a whole text: one value, and nothing but space behind it -/
def parse (t : Text) : Option Value :=
  (readValue (t.length + 1) t).bind fun r => if skipSpace r.2 = [] then some r.1 else none

/-! ## Strings -/

theorem readString_quote (fuel : ℕ) (t : Text) : readString (fuel + 1) (0x22 :: t) = some ([], t) := by
  cases t <;> rfl

theorem readString_escape (fuel : ℕ) (e : UInt8) (t : Text) : readString (fuel + 1) (0x5C :: e :: t) =
    if e = 0x75 then
      (readUnicode t).bind fun u =>
        (readString fuel u.2).map fun r => ((Utf8.encode u.1).map UInt8.ofNat ++ r.1, r.2)
    else (letterEscape e).bind fun c => (readString fuel t).map fun r => (c :: r.1, r.2) := rfl

theorem readString_byte (fuel : ℕ) {b : UInt8} (t : Text) (h : b ≠ 0x22 ∧ b ≠ 0x5C ∧ ¬ b < 0x20) :
    readString (fuel + 1) (b :: t) = (readString fuel t).map fun r => (b :: r.1, r.2) := by
  rw [readString.eq_def]
  dsimp only
  rw [if_neg h.1, if_neg h.2.1, if_neg h.2.2]

/-- `e` is a way to write the bytes `s` in a string -/
def Spells (e s : Text) : Prop :=
  ∀ (fuel : ℕ) (t : Text), readString (fuel + 1) (e ++ t) = (readString fuel t).map fun r => (s ++ r.1, r.2)

/-- a byte that is no quote, backslash or control character stands for itself -/
theorem spells_self {b : UInt8} (h : b ≠ 0x22 ∧ b ≠ 0x5C ∧ ¬ b < 0x20) : Spells [b] [b] := by
  intro fuel t
  rw [List.singleton_append, readString_byte fuel t h]
  rfl

theorem spells_letter {e c : UInt8} (hu : e ≠ 0x75) (h : letterEscape e = some c) : Spells [0x5C, e] [c] := by
  intro fuel t
  show readString (fuel + 1) (0x5C :: e :: t) = _
  rw [readString_escape, if_neg hu, h]
  rfl

theorem spells_unicode {a b c d : UInt8} {u : ℕ} (h : hex4 a b c d = some u) (hu : u < 0xD800) :
    Spells [0x5C, 0x75, a, b, c, d] ((Utf8.encode u).map UInt8.ofNat) := by
  intro fuel t
  show readString (fuel + 1) (0x5C :: 0x75 :: a :: b :: c :: d :: t) = _
  rw [readString_escape, if_pos rfl, readUnicode, h, Option.bind_some, if_pos (.inl hu), Option.bind_some]

/-- **A string is read back** when each of its bytes is. -/
theorem readString_flatMap {esc : UInt8 → Text} {s : Text} (h : ∀ b ∈ s, Spells (esc b) [b]) (t : Text) {fuel : ℕ}
    (hfuel : s.length < fuel) : readString fuel (s.flatMap esc ++ 0x22 :: t) = some (s, t) := by
  induction s generalizing fuel with
  | nil =>
    obtain ⟨n, rfl⟩ : ∃ n, fuel = n + 1 := ⟨fuel - 1, by simp at hfuel; omega⟩
    exact readString_quote n t
  | cons b s ih =>
    rw [List.length_cons] at hfuel
    obtain ⟨n, rfl⟩ : ∃ n, fuel = n + 1 := ⟨fuel - 1, by omega⟩
    rw [List.flatMap_cons, List.append_assoc, h b List.mem_cons_self n,
      ih (fun x hx => h x (List.mem_cons_of_mem _ hx)) (by omega)]
    rfl

/-- a string without quote, backslash and control characters stands for itself -/
theorem readString_plain {s : Text} (h : ∀ b ∈ s, b ≠ 0x22 ∧ b ≠ 0x5C ∧ ¬ b < 0x20) (t : Text) {fuel : ℕ}
    (hfuel : s.length < fuel) : readString fuel (s ++ 0x22 :: t) = some (s, t) := by
  have hs := @readString_flatMap (fun b => [b]) s (fun b hb => spells_self (h b hb)) t fuel hfuel
  rwa [List.flatMap_singleton'] at hs

/-! ## Numbers -/

theorem readDigits_append {ds : Text} (hne : ds ≠ []) (hd : ∀ b ∈ ds, isDigit b = true) {c : UInt8} (hc : isDigit c = false)
    (t : Text) : readDigits (ds ++ c :: t) = some (ds.map digitVal, c :: t) := by
  have htake : (ds ++ c :: t).takeWhile isDigit = ds := by
    rw [List.takeWhile_append_of_pos hd, List.takeWhile_cons_of_neg (by rw [hc]; nofun), List.append_nil]
  have hdrop : (ds ++ c :: t).dropWhile isDigit = c :: t := by
    rw [List.dropWhile_append_of_pos hd, List.dropWhile_cons_of_neg (by rw [hc]; nofun)]
  unfold readDigits
  rw [htake, if_neg hne, hdrop]

/-- digits without a leading zero -/
structure Natural (ds : Text) : Prop where
  ne : ds ≠ []
  digits : ∀ b ∈ ds, isDigit b = true
  lead : ds.head? = some 0x30 → ds.length = 1

theorem readInt_append {ds : Text} (hn : Natural ds) {c : UInt8} (hc : isDigit c = false) (t : Text) :
    readInt (ds ++ c :: t) = some (ofDigits (ds.map digitVal) 0, c :: t) := by
  unfold readInt
  rw [readDigits_append hn.ne hn.digits hc, Option.bind_some, if_neg]
  rintro ⟨hhead, hlen⟩
  obtain ⟨b, r, rfl⟩ := List.exists_cons_of_ne_nil hn.ne
  have hb := hn.digits b List.mem_cons_self
  have hzero : b = 0x30 := by
    have h0 : b.toNat - 0x30 = 0 := by simpa [digitVal] using hhead
    unfold isDigit at hb
    rw [decide_eq_true_eq] at hb
    have h1 : 0x30 ≤ b.toNat := hb.1
    exact UInt8.toNat_inj.1 (by show b.toNat = 0x30; omega)
  have := hn.lead (by rw [hzero]; rfl)
  rw [List.length_map] at hlen
  omega

/-- what may stand behind a number: no digit, point or exponent -/
def endsNum (c : UInt8) : Bool := ¬ isDigit c ∧ c ≠ 0x2E ∧ c ≠ 0x65 ∧ c ≠ 0x45

theorem readExp_none {c : UInt8} (hc : endsNum c = true) (t : Text) : readExp (c :: t) = some (0, c :: t) := by
  unfold endsNum at hc
  simp only [ne_eq, decide_eq_true_eq] at hc
  have hno : ¬ (c = 0x65 ∨ c = 0x45) := not_or.2 ⟨hc.2.2.1, hc.2.2.2⟩
  unfold readExp
  dsimp only
  rw [if_neg hno]

theorem readFrac_none {c : UInt8} (hc : endsNum c = true) (t : Text) : readFrac (c :: t) = some ([], c :: t) := by
  unfold endsNum at hc
  simp only [ne_eq, decide_eq_true_eq] at hc
  unfold readFrac
  split
  · rename_i h
    exact absurd (List.cons.inj h).1 hc.2.1
  · rfl

theorem readNum_unsigned {ds : Text} (hn : Natural ds) (t : Text) : readNum (ds ++ t) = readUnsigned false (ds ++ t) := by
  obtain ⟨b, r, rfl⟩ := List.exists_cons_of_ne_nil hn.ne
  have hb := hn.digits b List.mem_cons_self
  unfold readNum
  split
  · rename_i h
    rw [(List.cons.inj h).1] at hb
    cases hb
  · rfl

/-- a number in decimal is read back -/
theorem readNum_nat {ds : Text} (hn : Natural ds) {c : UInt8} (hc : endsNum c = true) (t : Text) :
    readNum (ds ++ c :: t) = some (⟨false, ofDigits (ds.map digitVal) 0, [], 0⟩, c :: t) := by
  have hdig : isDigit c = false := by
    unfold endsNum at hc
    simp only [ne_eq, decide_eq_true_eq] at hc
    simpa using hc.1
  rw [readNum_unsigned hn, readUnsigned, readInt_append hn hdig, Option.bind_some, readFrac_none hc, Option.bind_some,
    readExp_none hc]
  rfl

/-- and so is one with digits behind a point -/
theorem readNum_point {ds fs : Text} (hn : Natural ds) (hne : fs ≠ []) (hf : ∀ b ∈ fs, isDigit b = true) {c : UInt8}
    (hc : endsNum c = true) (t : Text) :
    readNum (ds ++ 0x2E :: (fs ++ c :: t)) =
      some (⟨false, ofDigits (ds.map digitVal) 0, fs.map digitVal, 0⟩, c :: t) := by
  have hdig : isDigit c = false := by
    unfold endsNum at hc
    simp only [ne_eq, decide_eq_true_eq] at hc
    simpa using hc.1
  have hfrac : readFrac (0x2E :: (fs ++ c :: t)) = readDigits (fs ++ c :: t) := rfl
  rw [readNum_unsigned hn, readUnsigned, readInt_append hn (by decide), Option.bind_some, hfrac,
    readDigits_append hne hf hdig, Option.bind_some, readExp_none hc]
  rfl

/-! ## Objects -/

theorem skipSpace_cons {b : UInt8} (h : isSpace b = false) (t : Text) : skipSpace (b :: t) = b :: t :=
  List.dropWhile_cons_of_neg (by rw [h]; nofun)

/-- the bytes of a key that is written as it is -/
def Plain (s : Text) : Prop := ∀ b ∈ s, b ≠ 0x22 ∧ b ≠ 0x5C ∧ ¬ b < 0x20

instance (s : Text) : Decidable (Plain s) := by unfold Plain; infer_instance

theorem plain_of_all {s : Text} (h : s.all (fun b => b ≠ 0x22 ∧ b ≠ 0x5C ∧ ¬ b < 0x20) = true) : Plain s := by
  intro b hb
  exact of_decide_eq_true (List.all_eq_true.1 h b hb)

/-- a member of an object: its key, and its value with what follows -/
def member (key rest : Text) : Text := 0x22 :: (key ++ 0x22 :: 0x3A :: rest)

variable {read : Text → Option (Value × Text)} {key rest t : Text} {v : Value}

/-- behind the key the value is read -/
theorem readMembers_member (hk : Plain key) (fuel : ℕ) : readMembers read (fuel + 1) (member key rest) =
    (read rest).bind fun v =>
      match skipSpace v.2 with
      | 0x2C :: t => (readMembers read fuel t).map fun r => ((key, v.1) :: r.1, r.2)
      | 0x7D :: t => some ([(key, v.1)], t)
      | _ => none := by
  have hs := readString_plain hk (0x3A :: rest)
    (show key.length < (key ++ 0x22 :: 0x3A :: rest).length + 1 by rw [List.length_append]; omega)
  show (readString _ _).bind _ = _
  rw [hs, Option.bind_some]
  rfl

/-- a member with others behind it -/
theorem readMembers_next (hk : Plain key) (hv : read rest = some (v, 0x2C :: t)) (fuel : ℕ) :
    readMembers read (fuel + 1) (member key rest) =
      (readMembers read fuel t).map fun r => ((key, v) :: r.1, r.2) := by
  rw [readMembers_member hk, hv]
  rfl

/-- the last member -/
theorem readMembers_last (hk : Plain key) (hv : read rest = some (v, 0x7D :: t)) (fuel : ℕ) :
    readMembers read (fuel + 1) (member key rest) = some ([(key, v)], t) := by
  rw [readMembers_member hk, hv]
  rfl

/-- an object starts with its first member -/
theorem readValue_obj (fuel : ℕ) : readValue (fuel + 1) (0x7B :: member key rest) =
    (readMembers (readValue fuel) ((member key rest).length + 1) (member key rest)).map fun r => (.obj r.1, r.2) := rfl

theorem readValue_str (fuel : ℕ) (t : Text) :
    readValue (fuel + 1) (0x22 :: t) = (readString (t.length + 1) t).map fun r => (.str r.1, r.2) := rfl

/-- what starts with a digit is a number -/
theorem readValue_num {ds : Text} (hn : Natural ds) (fuel : ℕ) (t : Text) :
    readValue (fuel + 1) (ds ++ t) = (readNum (ds ++ t)).map fun r => (.num r.1, r.2) := by
  obtain ⟨b, r, rfl⟩ := List.exists_cons_of_ne_nil hn.ne
  have hb := hn.digits b List.mem_cons_self
  have hns : isSpace b = false := by
    unfold isSpace
    rw [decide_eq_false_iff_not]
    rintro (h | h | h | h) <;> rw [h] at hb <;> cases hb
  rw [List.cons_append, readValue, skipSpace_cons hns]
  split <;> rename_i h <;> first | (rw [(List.cons.inj h).1] at hb; cases hb) | rfl

end WsServer.Json
