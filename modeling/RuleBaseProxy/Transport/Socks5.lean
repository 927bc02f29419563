import RuleBaseProxy.Lib.HostPort

/-! # SOCKS addresses

The address of a SOCKS request: one byte for its type, the address itself, two
bytes for the port. `ReadAddr` takes one from a stream, `SplitAddr` from a
datagram, `ParseAddr` makes one from text; all of them yield the encoding of a
target, whatever the length of its name.
-/

namespace RuleBaseProxy.Socks5

open Go Go.Net

abbrev Addr := List UInt8

def atypIPv4 : UInt8 := 1
def atypDomainName : UInt8 := 3
def atypIPv6 : UInt8 := 4

def maxAddrLen : Nat := 1 + 1 + 255 + 2

/-! ## Well-formed addresses -/

inductive Dest where
  | ipv4 (ip : List UInt8) (h : ip.length = 4)
  | ipv6 (ip : List UInt8) (h : ip.length = 16)
  | domainName (name : Str) (h : name.length < 256)

structure Target where
  dest : Dest
  /-- The two bytes of the port. -/
  hi : UInt8
  lo : UInt8

def Target.port (t : Target) : Nat := 256 * t.hi.toNat + t.lo.toNat

def Dest.encode : Dest → Addr
  | .ipv4 ip _ => atypIPv4 :: ip
  | .ipv6 ip _ => atypIPv6 :: ip
  | .domainName name _ => atypDomainName :: UInt8.ofNat name.length :: name

def Target.encode (t : Target) : Addr := t.dest.encode ++ [t.hi, t.lo]

/-! ## Reading addresses -/

inductive ReadError where
  | shortBuffer
  | addressNotSupported
deriving DecidableEq

/-- The length of the address at the beginning of `b`, by its type. -/
def addrLen : List UInt8 → Option Nat
  | [] => none
  | atyp :: b =>
      if atyp = atypDomainName then b.head?.map fun domainLength => 1 + 1 + domainLength.toNat + 2
      else if atyp = atypIPv4 then some (1 + 4 + 2)
      else if atyp = atypIPv6 then some (1 + 16 + 2)
      else none

def splitAddr (b : List UInt8) : Option Addr :=
  (addrLen b).bind fun n => if b.length < n then none else some (b.take n)

/-! ## Addresses and text -/

/-- `strconv.ParseUint(port, 10, 16)`. -/
def parsePort (port : Str) : Option Nat :=
  (parseUint 10 port).bind fun n => if n < 2 ^ 16 then some n else none

def parseAddr (s : Str) : Option Addr :=
  (splitHostPort s).bind fun (host, port) =>
    let addr :=
      match parseIP host with
      | some ip =>
          match ip.to4 with
          | some ip4 => some (atypIPv4 :: ip4)
          | none => some (atypIPv6 :: ip.bytes)
      | none =>
          if 255 < host.length then none
          else some (atypDomainName :: UInt8.ofNat host.length :: host)
    addr.bind fun addr =>
      (parsePort port).map fun n => addr ++ [UInt8.ofNat (n / 256), UInt8.ofNat n]

/-- `a[i:j]`, out of range beyond the length. -/
def slice (a : List UInt8) (i j : Nat) : Option (List UInt8) :=
  if i ≤ j ∧ j ≤ a.length then some ((a.take j).drop i) else none

def ipOfBytes (b : List UInt8) : Option IP :=
  if h : b.length = 4 ∨ b.length = 16 then some ⟨b, h⟩ else none

def portAt (a : Addr) (i : Nat) : Option Str :=
  a[i]?.bind fun hi => a[i + 1]?.map fun lo => itoa (256 * hi.toNat + lo.toNat : Nat)

/-- `net.IP(a[1:1+n])`. -/
def ipAt (a : Addr) (n : Nat) : Option IP := (slice a 1 (1 + n)).bind ipOfBytes

/-- `Addr.String`, whose offsets are sixteen bits wide. -/
def Addr.string (a : Addr) : Option Str :=
  a.head?.bind fun atyp =>
    if atyp = atypDomainName then
      a[1]?.bind fun hostLen =>
        (slice a 2 (2 + hostLen.toNat)).bind fun host =>
          (portAt a (2 + hostLen.toNat)).map (joinHostPort host)
    else if atyp = atypIPv4 then
      (ipAt a 4).bind fun ip => (portAt a (1 + 4)).map (joinHostPort ip.string)
    else if atyp = atypIPv6 then
      (ipAt a 16).bind fun ip => (portAt a (1 + 16)).map (joinHostPort ip.string)
    else some (joinHostPort [] [])

/-! ## What is accepted is well formed -/

theorem exists_port {n : Nat} {b : List UInt8} (h : b.length = n + 2) :
    ∃ a hi lo, b = a ++ [hi, lo] ∧ a.length = n := by
  refine ⟨b.take n, b[n], b[n + 1], ?_, by simp [h]⟩
  conv_lhs => rw [← List.take_append_drop n b]
  congr 1
  rw [List.drop_eq_getElem_cons (by omega), List.drop_eq_getElem_cons (by omega),
    List.drop_eq_nil_of_le (by omega)]

theorem toNat_ofNat_length {name : Str} (h : name.length < 256) :
    (UInt8.ofNat name.length).toNat = name.length := by
  simpa using Nat.mod_eq_of_lt h

theorem length_encode (t : Target) (rest : List UInt8) :
    addrLen (t.encode ++ rest) = some t.encode.length := by
  obtain ⟨dest, hi, lo⟩ := t
  cases dest with
  | ipv4 ip h => simp [Target.encode, Dest.encode, addrLen, atypIPv4, atypDomainName, h]
  | ipv6 ip h => simp [Target.encode, Dest.encode, addrLen, atypIPv4, atypIPv6, atypDomainName, h]
  | domainName name h =>
      have hlen := toNat_ofNat_length h
      simp only [Target.encode, Dest.encode, addrLen, List.cons_append, if_true, List.head?_cons,
        Option.map_some, hlen, List.length_cons, List.length_append, List.length_nil]
      congr 1
      omega

/-- A length counts the type byte before the address and the two bytes of the port after it. -/
theorem addrLen_eq_add {b : List UInt8} {n : Nat} (hn : addrLen b = some n) :
    ∃ m, n = m + 2 + 1 := by
  unfold addrLen at hn
  split at hn
  · cases hn
  split at hn
  · obtain ⟨l, -, rfl⟩ := Option.map_eq_some_iff.mp hn
    exact ⟨l.toNat + 1, by omega⟩
  split at hn
  · exact ⟨4, (Option.some.inj hn).symm⟩
  split at hn
  · exact ⟨16, (Option.some.inj hn).symm⟩
  · cases hn

theorem exists_target {b : List UInt8} {n : Nat} (hn : addrLen b = some n) (hle : n ≤ b.length) :
    ∃ t : Target, b.take n = t.encode := by
  obtain ⟨m, rfl⟩ := addrLen_eq_add hn
  obtain ⟨atyp, b, rfl⟩ := List.exists_cons_of_length_pos (by omega : 0 < b.length)
  have hlen : (b.take (m + 2)).length = m + 2 := by
    simp only [List.length_cons] at hle
    exact List.length_take_of_le (by omega)
  obtain ⟨a, hi, lo, hb, ha⟩ := exists_port hlen
  rw [List.take_succ_cons, hb]
  simp only [addrLen] at hn
  split at hn
  · rename_i hatyp
    cases b with
    | nil => simp at hb
    | cons l b =>
        simp only [List.head?_cons, Option.map_some, Option.some.injEq] at hn
        cases a with
        | nil =>
            simp only [List.length_nil] at ha
            omega
        | cons x name =>
            obtain ⟨rfl, -⟩ := List.cons.inj hb
            have hname : name.length = l.toNat := by
              simp only [List.length_cons] at ha
              omega
            refine ⟨⟨.domainName name (hname ▸ l.toNat_lt), hi, lo⟩, ?_⟩
            simp [Target.encode, Dest.encode, hatyp, hname]
  split at hn
  · rename_i hatyp
    obtain rfl : m = 4 := by
      have := Option.some.inj hn
      omega
    exact ⟨⟨.ipv4 a ha, hi, lo⟩, by simp [Target.encode, Dest.encode, hatyp]⟩
  split at hn
  · rename_i hatyp
    obtain rfl : m = 16 := by
      have := Option.some.inj hn
      omega
    exact ⟨⟨.ipv6 a ha, hi, lo⟩, by simp [Target.encode, Dest.encode, hatyp]⟩
  · cases hn

/-- `SplitAddr` takes exactly the encodings of targets from a datagram. -/
theorem splitAddr_eq_some_iff {b a : List UInt8} :
    splitAddr b = some a ↔ ∃ t : Target, a = t.encode ∧ a <+: b := by
  constructor
  · intro h
    obtain ⟨n, hn, h⟩ := Option.bind_eq_some_iff.mp h
    obtain ⟨hle, ⟨⟩⟩ := Option.ite_none_left_eq_some.mp h
    obtain ⟨t, ht⟩ := exists_target hn (Nat.not_lt.mp hle)
    exact ⟨t, ht, List.take_prefix n b⟩
  · intro ⟨t, ha, rest, hb⟩
    rw [← hb, ha, splitAddr, length_encode]
    simp

/-! ## Text -/

theorem parsePort_lt {port : Str} {n : Nat} (h : parsePort port = some n) : n < 2 ^ 16 := by
  rcases Option.bind_eq_some_iff.mp h with ⟨m, -, hm⟩
  rcases Option.ite_none_right_eq_some.mp hm with ⟨hlt, ⟨⟩⟩
  exact hlt

theorem parsePort_itoa {n : Nat} (h : n < 2 ^ 16) : parsePort (itoa n) = some n := by
  have hparse : parseUint 10 (itoa n) = some n := parseUint_formatUint (by decide) (by decide) n
  rw [parsePort, hparse, Option.bind_some, if_pos h]

/-- `ParseAddr` of a text that `JoinHostPort` has made. -/
theorem parseAddr_joinHostPort (host : Str) {n : Nat} (h : n < 2 ^ 16) :
    parseAddr (joinHostPort host (itoa n)) =
      (rejoinedHost host).bind fun host =>
        (match parseIP host with
          | some ip =>
              match ip.to4 with
              | some ip4 => some (atypIPv4 :: ip4)
              | none => some (atypIPv6 :: ip.bytes)
          | none =>
              if 255 < host.length then none
              else some (atypDomainName :: UInt8.ofNat host.length :: host)).map
          fun addr => addr ++ [UInt8.ofNat (n / 256), UInt8.ofNat n] := by
  unfold parseAddr
  rw [splitHostPort_itoa]
  cases rejoinedHost host with
  | none => rfl
  | some host =>
      simp only [Option.map_some, Option.bind_some, parsePort_itoa h]
      rw [Option.map_eq_bind]
      rfl

theorem parseAddr_eq_some {s : Str} {a : Addr} (h : parseAddr s = some a) :
    ∃ t : Target, a = t.encode := by
  obtain ⟨⟨host, port⟩, -, h⟩ := Option.bind_eq_some_iff.mp h
  obtain ⟨addr, haddr, h⟩ := Option.bind_eq_some_iff.mp h
  obtain ⟨n, -, rfl⟩ := Option.map_eq_some_iff.mp h
  have hdest : ∃ d : Dest, addr = d.encode := by
    split at haddr
    · rename_i ip _
      split at haddr
      · rename_i ip4 hip4
        cases haddr
        exact ⟨.ipv4 ip4 (IP.length_of_to4 hip4), rfl⟩
      · rename_i hnone
        cases haddr
        exact ⟨.ipv6 ip.bytes (IP.length_of_to4_eq_none hnone), rfl⟩
    · obtain ⟨hlen, ⟨⟩⟩ := Option.ite_none_left_eq_some.mp haddr
      exact ⟨.domainName host (by omega), rfl⟩
  obtain ⟨d, rfl⟩ := hdest
  exact ⟨⟨d, _, _⟩, rfl⟩

def Dest.string : Dest → Str
  | .ipv4 ip h => IP.string ⟨ip, IP.length_of_four h⟩
  | .ipv6 ip h => IP.string ⟨ip, IP.length_of_sixteen h⟩
  | .domainName name _ => name

/-- What stands in an address before the port and after its first bytes. -/
def Dest.body : Dest → List UInt8
  | .ipv4 ip _ => ip
  | .ipv6 ip _ => ip
  | .domainName name _ => name

def Dest.header : Dest → List UInt8
  | .ipv4 _ _ => [atypIPv4]
  | .ipv6 _ _ => [atypIPv6]
  | .domainName name _ => [atypDomainName, UInt8.ofNat name.length]

theorem encode_eq (t : Target) : t.encode = t.dest.header ++ t.dest.body ++ [t.hi, t.lo] := by
  obtain ⟨dest, hi, lo⟩ := t
  cases dest <;> rfl

theorem slice_encode (t : Target) {i j : Nat} (hi : i = t.dest.header.length)
    (hj : j = t.dest.header.length + t.dest.body.length) :
    slice t.encode i j = some t.dest.body := by
  have hle : j ≤ t.encode.length := by simp [encode_eq, hj]
  rw [slice, if_pos ⟨by omega, hle⟩, encode_eq, hi, hj]
  simp [List.take_append]

theorem portAt_append (a : List UInt8) (hi lo : UInt8) :
    portAt (a ++ [hi, lo]) a.length = some (itoa (256 * hi.toNat + lo.toNat : Nat)) := by
  have hhi : (a ++ [hi, lo])[a.length]? = some hi := by simp
  have hlo : (a ++ [hi, lo])[a.length + 1]? = some lo := by
    rw [List.getElem?_append_right (Nat.le_add_right _ 1), Nat.add_sub_cancel_left]
    rfl
  rw [portAt, hhi, Option.bind_some, hlo, Option.map_some]

theorem portAt_encode (t : Target) {i : Nat} (hi : i = t.dest.header.length + t.dest.body.length) :
    portAt t.encode i = some (itoa t.port) := by
  have hlen : i = (t.dest.header ++ t.dest.body).length := by simp [hi]
  rw [encode_eq, hlen, portAt_append]
  rfl

theorem ipAt_encode (t : Target) {n : Nat} (hstart : t.dest.header.length = 1)
    (hn : t.dest.body.length = n) (h : n = 4 ∨ n = 16) :
    ipAt t.encode n = some ⟨t.dest.body, hn ▸ h⟩ := by
  have hslice : slice t.encode 1 (1 + n) = some t.dest.body :=
    slice_encode t hstart.symm (by rw [hstart, hn])
  simp [ipAt, hslice, ipOfBytes, hn, h]

/-- With offsets of sixteen bits every target is printed as it is. -/
theorem string_encode (t : Target) :
    Addr.string t.encode = some (joinHostPort t.dest.string (itoa t.port)) := by
  obtain ⟨dest, hi, lo⟩ := t
  unfold Addr.string
  cases dest with
  | ipv4 ip h =>
      have hip := ipAt_encode ⟨.ipv4 ip h, hi, lo⟩ rfl h (Or.inl rfl)
      have hport := portAt_encode ⟨.ipv4 ip h, hi, lo⟩ (i := 1 + 4) (congrArg (1 + ·) h.symm)
      have hhead : (Target.encode ⟨.ipv4 ip h, hi, lo⟩).head? = some atypIPv4 := rfl
      rw [hhead, Option.bind_some, if_neg (by decide), if_pos rfl, hip, hport]
      rfl
  | ipv6 ip h =>
      have hip := ipAt_encode ⟨.ipv6 ip h, hi, lo⟩ rfl h (Or.inr rfl)
      have hport := portAt_encode ⟨.ipv6 ip h, hi, lo⟩ (i := 1 + 16) (congrArg (1 + ·) h.symm)
      have hhead : (Target.encode ⟨.ipv6 ip h, hi, lo⟩).head? = some atypIPv6 := rfl
      rw [hhead, Option.bind_some, if_neg (by decide), if_neg (by decide), if_pos rfl, hip, hport]
      rfl
  | domainName name h =>
      have hslice := slice_encode ⟨.domainName name h, hi, lo⟩ (i := 2) rfl rfl
      have hport := portAt_encode ⟨.domainName name h, hi, lo⟩ rfl
      have hhead : (Target.encode ⟨.domainName name h, hi, lo⟩).head? = some atypDomainName := rfl
      have hlen : (Target.encode ⟨.domainName name h, hi, lo⟩)[1]? =
        some (UInt8.ofNat name.length) := rfl
      rw [hhead, Option.bind_some, if_pos rfl, hlen, Option.bind_some, toNat_ofNat_length h]
      exact (congrArg (Option.bind · _) hslice).trans (congrArg (Option.map _) hport)

end RuleBaseProxy.Socks5
