import RuleBaseProxy.Lib.NetIP

/-! # Parsing addresses and networks

`netip.ParseAddr` and `net.ParseCIDR` on their documented input language, and
the networks they yield. Zones are not modelled: both callers reject them.
-/

namespace Go.Net

/-! ## Addresses -/

def parseOctet (s : Str) : Option UInt8 :=
  if 1 < s.length ∧ s.head? = some 48 then none
  else (parseUint 10 s).bind fun n => if n < 256 then some (UInt8.ofNat n) else none

def parseIPv4 (s : Str) : Option (List UInt8) :=
  let parts := split s 46
  if parts.length = 4 then parts.mapM parseOctet else none

def parseGroup (s : Str) : Option (List UInt8) :=
  if s.length ≤ 4 then
    (parseUint 16 s).map fun n => [UInt8.ofNat (n / 256), UInt8.ofNat (n % 256)]
  else none

/-- Groups separated by colons; where `v4` is set the last one may be a dotted
IPv4 address, which stands for two groups. -/
def parseGroups (v4 : Bool) : List Str → Option (List UInt8)
  | [] => some []
  | [last] =>
      if v4 ∧ last.contains 46 then parseIPv4 last else parseGroup last
  | part :: rest => do
      let first ← parseGroup part
      let others ← parseGroups v4 rest
      return first ++ others

def cutGap : Str → Option (Str × Str)
  | 58 :: 58 :: rest => some ([], rest)
  | b :: rest => (cutGap rest).map fun (left, right) => (b :: left, right)
  | [] => none

/-- An IPv6 address; the gap stands for at least one group of zeros. -/
def parseIPv6 (s : Str) : Option (List UInt8) :=
  match cutGap s with
  | none => do
      let bs ← parseGroups true (split s 58)
      if bs.length = 16 then some bs else none
  | some (left, right) => do
      let ls ← if left = [] then some [] else parseGroups false (split left 58)
      let rs ← if right = [] then some [] else parseGroups true (split right 58)
      if ls.length + rs.length < 16 then
        some (ls ++ List.replicate (16 - ls.length - rs.length) 0 ++ rs)
      else none

/-- `netip.ParseAddr`: the first dot or colon decides between the two families. -/
def parseAddr (s : Str) : Option IP :=
  let ofBytes := fun bs : List UInt8 =>
    if h : bs.length = 4 ∨ bs.length = 16 then some (IP.mk bs h) else none
  match s.find? (fun b => b == 46 || b == 58) with
  | some 46 => (parseIPv4 s).bind ofBytes
  | some _ => (parseIPv6 s).bind ofBytes
  | none => none

/-! ## Networks -/

def maskBytes : Nat → List UInt8 → List UInt8
  | _, [] => []
  | n, b :: bs =>
      let low := 2 ^ (8 - n)
      UInt8.ofNat (b.toNat / low * low) :: maskBytes (n - 8) bs

theorem length_maskBytes (n : Nat) (bs : List UInt8) : (maskBytes n bs).length = bs.length := by
  induction bs generalizing n with
  | nil => rfl
  | cons b bs ih => simp [maskBytes, ih]

theorem toNat_maskByte (b : UInt8) (low : Nat) :
    (UInt8.ofNat (b.toNat / low * low)).toNat = b.toNat / low * low := by
  rw [UInt8.toNat_ofNat', Nat.mod_eq_of_lt]
  exact Nat.lt_of_le_of_lt (Nat.div_mul_le_self _ _) b.toNat_lt

theorem maskBytes_maskBytes (n : Nat) (bs : List UInt8) :
    maskBytes n (maskBytes n bs) = maskBytes n bs := by
  induction bs generalizing n with
  | nil => rfl
  | cons b bs ih =>
      have hpos : 0 < 2 ^ (8 - n) := Nat.two_pow_pos _
      simp only [maskBytes]
      rw [toNat_maskByte, Nat.mul_div_cancel _ hpos, ih]

/-- `net.IPNet` as `ParseCIDR` returns it: the masked address and the number of
leading ones in its mask. -/
structure IPNet where
  ip : IP
  ones : Nat
deriving DecidableEq

/-- `net.ParseCIDR`, its second result. -/
def parseCIDR (s : Str) : Option IPNet :=
  match s.span (· ≠ 47) with
  | (addr, _ :: mask) => do
      let ip ← parseAddr addr
      let n ← parseUint 10 mask
      if n ≤ 8 * ip.bytes.length then
        some ⟨⟨maskBytes n ip.bytes, by rw [length_maskBytes]; exact ip.length_bytes⟩, n⟩
      else none
  | _ => none

/-- `networkNumberAndMask`: a network of IPv4-mapped addresses counts as IPv4. -/
def IPNet.numberAndMask (n : IPNet) : IP × Nat :=
  match h : n.ip.to4 with
  | some b =>
      (⟨b, Or.inl (IP.length_of_to4 h)⟩, if n.ip.bytes.length = 4 then n.ones else n.ones - 96)
  | none => (n.ip, n.ones)

def IPNet.contains (n : IPNet) (ip : IP) : Bool :=
  let (number, ones) := n.numberAndMask
  decide (ip.canon.length = number.bytes.length ∧
    maskBytes ones ip.canon = maskBytes ones number.bytes)

def IPNet.string (n : IPNet) : Str :=
  let (number, ones) := n.numberAndMask
  number.string ++ 47 :: formatUint 10 ones

/-- `IP.IsPrivate`: RFC 1918 and RFC 4193. -/
def IP.isPrivate (ip : IP) : Bool :=
  match ip.canon with
  | [a, b, _, _] => a == 10 || (a == 172 && b.toNat / 16 == 1) || (a == 192 && b == 168)
  | a :: _ => a.toNat / 2 == 126
  | [] => false

theorem IPNet.canon_number (n : IPNet) : n.numberAndMask.1.canon = n.numberAndMask.1.bytes := by
  unfold IPNet.numberAndMask
  split
  · rename_i b h
    simp [IP.canon, IP.to4, IP.length_of_to4 h]
  · rename_i h
    simp [IP.canon, h]

theorem IPNet.not_mem_string (n : IPNet) {c : UInt8} (hc : digit? c = none) (hdot : c ≠ 46)
    (hcolon : c ≠ 58) (hslash : c ≠ 47) : c ∉ n.string := by
  intro h
  rcases List.mem_append.mp h with h | h
  · exact IP.not_mem_string _ hc hdot hcolon h
  · rcases List.mem_cons.mp h with h | h
    · exact hslash h
    · exact not_mem_formatUint (by decide) (by decide) _ hc h

theorem IPNet.contains_of_string_eq {n n' : IPNet} (h : n.string = n'.string) (ip : IP) :
    n.contains ip = n'.contains ip := by
  have hslash : ∀ a : IP, (47 : UInt8) ∉ a.string := fun a =>
    IP.not_mem_string a (by decide) (by decide) (by decide)
  obtain ⟨hnum, hones⟩ := append_sep_left_inj (hslash n.numberAndMask.1)
    (hslash n'.numberAndMask.1) h
  have hbytes : n.numberAndMask.1.bytes = n'.numberAndMask.1.bytes := by
    rw [← canon_number, ← canon_number, IP.canon_eq_of_string_eq hnum]
  have hmask : n.numberAndMask.2 = n'.numberAndMask.2 :=
    formatUint_injective (by decide) (by decide) hones
  simp only [IPNet.contains, hbytes, hmask]

theorem IPNet.contains_congr (n : IPNet) {a b : IP} (h : a.canon = b.canon) :
    n.contains a = n.contains b := by
  simp only [IPNet.contains, h]

theorem IP.isPrivate_congr {a b : IP} (h : a.canon = b.canon) : a.isPrivate = b.isPrivate := by
  simp only [IP.isPrivate, h]

end Go.Net
