import RuleBaseProxy.Lib.GoString

/-! # Murmur3

The 32-bit hash of `common/murmur3` over a whole slice. A block is read as a word
in the byte order of the machine, which is little-endian.
-/

namespace RuleBaseProxy.Murmur3

open Go

def c1 : UInt32 := 0xcc9e2d51

def c2 : UInt32 := 0x1b873593

def rotateLeft32 (x : UInt32) (k : UInt32) : UInt32 := x <<< k ||| x >>> (32 - k)

def load32 (b₀ b₁ b₂ b₃ : UInt8) : UInt32 :=
  b₀.toUInt32 ||| b₁.toUInt32 <<< 8 ||| b₂.toUInt32 <<< 16 ||| b₃.toUInt32 <<< 24

def mixKey (k1 : UInt32) : UInt32 := rotateLeft32 (k1 * c1) 15 * c2

def mixBlock (h1 k1 : UInt32) : UInt32 :=
  let h1 := rotateLeft32 (h1 ^^^ mixKey k1) 13
  h1 * 4 + h1 + 0xe6546b64

/-- Digest as many blocks as possible; the hash so far and the bytes that are left. -/
def bmix (h1 : UInt32) : Str → UInt32 × Str
  | b₀ :: b₁ :: b₂ :: b₃ :: p => bmix (mixBlock h1 (load32 b₀ b₁ b₂ b₃)) p
  | p => (h1, p)

def mixTail (h1 : UInt32) : Str → UInt32
  | [b₀] => h1 ^^^ mixKey b₀.toUInt32
  | [b₀, b₁] => h1 ^^^ mixKey (b₁.toUInt32 <<< 8 ^^^ b₀.toUInt32)
  | [b₀, b₁, b₂] => h1 ^^^ mixKey (b₂.toUInt32 <<< 16 ^^^ b₁.toUInt32 <<< 8 ^^^ b₀.toUInt32)
  | _ => h1

def finish (h1 clen : UInt32) : UInt32 :=
  let h1 := h1 ^^^ clen
  let h1 := (h1 ^^^ h1 >>> 16) * 0x85ebca6b
  let h1 := (h1 ^^^ h1 >>> 13) * 0xc2b2ae35
  h1 ^^^ h1 >>> 16

def sum32WithSeed (data : Str) (seed : UInt32) : UInt32 :=
  let (h1, tail) := bmix seed data
  finish (mixTail h1 tail) (.ofNat data.length)

def sum32 (data : Str) : UInt32 := sum32WithSeed data 0

example : sum32 (str "hello") = 0x248bfa47 := by decide +kernel

end RuleBaseProxy.Murmur3
