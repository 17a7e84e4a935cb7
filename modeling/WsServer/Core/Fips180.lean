/-
SHA-1 as FIPS 180 defines it: padding (5.1.1), parsing (5.2.1), functions and constants (4.1.1, 4.2.1), the message
schedule and the rounds (6.1.2). The message is whole bytes.
-/
import Mathlib
import WsServer.Core.BigEndian
import WsServer.Core.Blocks

namespace WsServer.Fips180

/-- zero bytes so that message, 0x80 and length fill whole blocks -/
def zeros (len : ℕ) : ℕ := (119 - len % 64) % 64

def padding (len : ℕ) : List UInt8 := 0x80 :: List.replicate (zeros len) 0 ++ BigEndian.bytes 8 (8 * len)

def pad (m : List UInt8) : List UInt8 := m ++ padding m.length

def ROTL (n : UInt32) (x : UInt32) : UInt32 := (x <<< n) ||| (x >>> (32 - n))

def Ch (x y z : UInt32) : UInt32 := (x &&& y) ^^^ (~~~x &&& z)
def Parity (x y z : UInt32) : UInt32 := x ^^^ y ^^^ z
def Maj (x y z : UInt32) : UInt32 := (x &&& y) ^^^ (x &&& z) ^^^ (y &&& z)

def f (t : ℕ) : UInt32 → UInt32 → UInt32 → UInt32 :=
  if t < 20 then Ch else if t < 40 then Parity else if t < 60 then Maj else Parity

def K (t : ℕ) : UInt32 :=
  if t < 20 then 0x5A827999 else if t < 40 then 0x6ED9EBA1 else if t < 60 then 0x8F1BBCDC else 0xCA62C1D6

/-- word `t` of a block, big-endian -/
def M (block : List UInt8) (t : ℕ) : UInt32 := UInt32.ofNat (BigEndian.value ((block.drop (4 * t)).take 4))

def W (block : List UInt8) (t : ℕ) : UInt32 :=
  if t < 16 then M block t
  else ROTL 1 (W block (t - 3) ^^^ W block (t - 8) ^^^ W block (t - 14) ^^^ W block (t - 16))
termination_by t

structure Words where
  a : UInt32
  b : UInt32
  c : UInt32
  d : UInt32
  e : UInt32
deriving DecidableEq, Repr

def H0 : Words := ⟨0x67452301, 0xEFCDAB89, 0x98BADCFE, 0x10325476, 0xC3D2E1F0⟩

/-- round `t` on the working variables -/
def round (block : List UInt8) (v : Words) (t : ℕ) : Words :=
  ⟨ROTL 5 v.a + f t v.b v.c v.d + v.e + K t + W block t, v.a, ROTL 30 v.b, v.c, v.d⟩

/-- the next hash value -/
def compress (h : Words) (block : List UInt8) : Words :=
  let v := (List.range 80).foldl (round block) h
  ⟨v.a + h.a, v.b + h.b, v.c + h.c, v.d + h.d, v.e + h.e⟩

def Words.bytes (h : Words) : List UInt8 := [h.a, h.b, h.c, h.d, h.e].flatMap fun w => BigEndian.bytes 4 w.toNat

def sha1 (m : List UInt8) : List UInt8 := ((Blocks.whole 64 (pad m)).foldl compress H0).bytes

end WsServer.Fips180
