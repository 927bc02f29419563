import RuleBaseProxy.Constant.Metadata
import RuleBaseProxy.Transport.Socks5

/-! # From a SOCKS address to metadata

`parseSocksAddr` finds name and port by offsets that it computes from the length
byte of the address. Those sums are bytes themselves: `2+target[1]` wraps around
from a length of 254 on, and the offset of the last byte already from 253 on. A
panic is `none`.
-/

namespace RuleBaseProxy.Inbound

open Go Go.Net Socks5

/-- The fields of the metadata that an address decides. `NetWork` and `Type` come from
the caller; until then they are 0, which is none of their constants. -/
structure SocksMetadata where
  addrType : Int
  host : Str
  dstIP : Option IP
  dstPort : Str
deriving DecidableEq

/-- `strings.TrimRight(host, ".")`. -/
def trimDots (host : Str) : Str := host.rdropWhile (· == 46)

def portOf (target : Addr) (i j : Nat) : Option Str :=
  target[i]?.bind fun hi => target[j]?.map fun lo => itoa (256 * hi.toNat + lo.toNat : Nat)

def withIP (m : SocksMetadata) (target : Addr) (n : Nat) : Option SocksMetadata :=
  (ipAt target n).bind fun ip =>
    (portOf target (1 + n) (1 + n + 1)).map fun port =>
      { m with dstIP := some ip, dstPort := port }

def parseSocksAddr (target : Addr) : Option SocksMetadata :=
  target.head?.bind fun atyp =>
    let m : SocksMetadata := ⟨atyp.toNat, [], none, []⟩
    if atyp = Socks5.atypDomainName then
      target[1]?.bind fun len =>
        (slice target 2 (2 + len).toNat).bind fun host =>
          (portOf target (2 + len).toNat (2 + len + 1).toNat).map fun port =>
            { m with host := trimDots host, dstPort := port }
    else if atyp = Socks5.atypIPv4 then withIP m target 4
    else if atyp = Socks5.atypIPv6 then withIP m target 16
    else some m

/-- `parseAddr`: the address of the peer as text, taken apart. -/
def parseAddr (addr : Str) : Option (Option IP × Str) :=
  (splitHostPort addr).map fun (host, port) => (parseIP host, port)

def newMetadata (netWork : NetWork) (source : ConnType) (target : Addr) (peer : Str) :
    Option Metadata :=
  (parseSocksAddr target).map fun m =>
    let (srcIP, srcPort) := (parseAddr peer).getD (none, [])
    ⟨netWork, source, srcIP, m.dstIP, srcPort, m.dstPort, m.addrType, m.host⟩

def newSocket (target : Addr) (remoteAddr : Str) (source : ConnType) : Option Metadata :=
  newMetadata .TCP source target remoteAddr

def newPacket (target : Addr) (localAddr : Str) (source : ConnType) : Option Metadata :=
  newMetadata .UDP source target localAddr

/-! ## What is encoded -/

def ofTarget (t : Target) : SocksMetadata :=
  match t.dest with
  | .ipv4 ip h =>
      { addrType := 1, host := [], dstIP := some ⟨ip, IP.length_of_four h⟩, dstPort := itoa t.port }
  | .ipv6 ip h =>
      { addrType := 4, host := [], dstIP := some ⟨ip, IP.length_of_sixteen h⟩, dstPort := itoa t.port }
  | .domainName name _ =>
      { addrType := 3, host := trimDots name, dstIP := none, dstPort := itoa t.port }

/-- The offsets stay below 256, or the one that wraps around finds the right byte
all the same. -/
def InRange (t : Target) : Prop :=
  match t.dest with
  | .domainName name _ => name.length ≤ 252 ∨ name.length = 253 ∧ t.lo = Socks5.atypDomainName
  | _ => True

theorem portOf_succ (target : Addr) (i : Nat) : portOf target i (i + 1) = portAt target i := rfl

theorem parseSocksAddr_ip {t : Target} {n : Nat} (hstart : t.dest.header.length = 1)
    (hn : t.dest.body.length = n) (h : n = 4 ∨ n = 16) (m : SocksMetadata) :
    withIP m t.encode n =
      some { m with dstIP := some ⟨t.dest.body, hn ▸ h⟩, dstPort := itoa t.port } := by
  have hport : portAt t.encode (1 + n) = some (itoa t.port) :=
    portAt_encode t (by rw [hstart, hn])
  rw [withIP, ipAt_encode t hstart hn h, Option.bind_some, portOf_succ, hport]
  rfl

section Name

variable {name : Str} (h : name.length < 256) (hi lo : UInt8)

/-- What `parseSocksAddr` does with a name, by its length. -/
theorem parseSocksAddr_name :
    parseSocksAddr (Target.encode ⟨.domainName name h, hi, lo⟩) =
      (slice (Target.encode ⟨.domainName name h, hi, lo⟩) 2 ((2 + name.length) % 256)).bind
        fun host =>
          (portOf (Target.encode ⟨.domainName name h, hi, lo⟩) ((2 + name.length) % 256)
            ((3 + name.length) % 256)).map fun port =>
              { addrType := 3, host := trimDots host, dstIP := none, dstPort := port } := by
  have hoffset : (2 + UInt8.ofNat name.length).toNat = (2 + name.length) % 256 := by
    simp [UInt8.toNat_add]
  have hoffset' : (2 + UInt8.ofNat name.length + 1).toNat = (3 + name.length) % 256 := by
    simp only [UInt8.toNat_add, hoffset]
    simp
    omega
  rw [← hoffset, ← hoffset']
  rfl

theorem parseSocksAddr_short (hlen : name.length ≤ 252) :
    parseSocksAddr (Target.encode ⟨.domainName name h, hi, lo⟩) =
      some (ofTarget ⟨.domainName name h, hi, lo⟩) := by
  have hend : (2 + name.length) % 256 = 2 + name.length := by omega
  have hend' : (3 + name.length) % 256 = 2 + name.length + 1 := by omega
  have hslice := slice_encode ⟨.domainName name h, hi, lo⟩ (i := 2) (j := 2 + name.length) rfl rfl
  have hport := portAt_encode ⟨.domainName name h, hi, lo⟩ (i := 2 + name.length) rfl
  rw [parseSocksAddr_name, hend, hend', hslice, Option.bind_some, portOf_succ, hport]
  rfl

/-- The offset of the last byte has wrapped around to the first. -/
theorem parseSocksAddr_253 (hlen : name.length = 253) :
    parseSocksAddr (Target.encode ⟨.domainName name h, hi, lo⟩) =
      some (ofTarget ⟨.domainName name h, hi, Socks5.atypDomainName⟩) := by
  have hend : (2 + name.length) % 256 = 2 + name.length := by omega
  have hend' : (3 + name.length) % 256 = 0 := by omega
  have hslice := slice_encode ⟨.domainName name h, hi, lo⟩ (i := 2) (j := 2 + name.length) rfl rfl
  have hhi : (Target.encode ⟨.domainName name h, hi, lo⟩)[2 + name.length]? = some hi := by
    have hindex : 2 + name.length = (Dest.header (.domainName name h) ++ name).length := by
      rw [List.length_append]
      rfl
    rw [encode_eq, hindex]
    exact List.getElem?_append_right (Nat.le_refl _) |>.trans (by simp)
  rw [parseSocksAddr_name, hend, hend', hslice, Option.bind_some, portOf, hhi]
  rfl

/-- The end of the name has wrapped around to before its beginning. -/
theorem parseSocksAddr_panics (hlen : 254 ≤ name.length) :
    parseSocksAddr (Target.encode ⟨.domainName name h, hi, lo⟩) = none := by
  have hend : ¬ 2 ≤ (2 + name.length) % 256 := by omega
  rw [parseSocksAddr_name, slice, if_neg fun hc => hend hc.1]
  rfl

end Name

/-- `parseSocksAddr` returns what the address says exactly where its offsets stay
in range. -/
theorem parseSocksAddr_encode_iff (t : Target) :
    parseSocksAddr t.encode = some (ofTarget t) ↔ InRange t := by
  obtain ⟨dest, hi, lo⟩ := t
  cases dest with
  | ipv4 ip h =>
      refine iff_of_true ?_ trivial
      exact parseSocksAddr_ip (t := ⟨.ipv4 ip h, hi, lo⟩) rfl h (Or.inl rfl) _
  | ipv6 ip h =>
      refine iff_of_true ?_ trivial
      exact parseSocksAddr_ip (t := ⟨.ipv6 ip h, hi, lo⟩) rfl h (Or.inr rfl) _
  | domainName name h =>
      by_cases hshort : name.length ≤ 252
      · exact iff_of_true (parseSocksAddr_short h hi lo hshort) (Or.inl hshort)
      by_cases hedge : name.length = 253
      · rw [parseSocksAddr_253 h hi lo hedge]
        constructor
        · intro heq
          have hports : itoa (256 * hi.toNat + Socks5.atypDomainName.toNat : Nat) =
              itoa (256 * hi.toNat + lo.toNat : Nat) :=
            congrArg SocksMetadata.dstPort (Option.some.inj heq)
          have hlo : Socks5.atypDomainName.toNat = lo.toNat := by
            have := itoa_injective hports
            omega
          exact Or.inr ⟨hedge, (UInt8.toNat_inj.mp hlo).symm⟩
        · intro hrange
          obtain ⟨-, rfl⟩ := hrange.resolve_left hshort
          rfl
      · rw [parseSocksAddr_panics h hi lo (by omega)]
        refine iff_of_false nofun fun hrange => ?_
        rcases hrange with hrange | ⟨hrange, -⟩
        · exact hshort hrange
        · exact hedge hrange

/-- A name of 254 bytes, as any client may send. -/
def longTarget : Target :=
  ⟨.domainName (List.replicate 254 97) (by rw [List.length_replicate]; decide), 1, 187⟩

theorem parseSocksAddr_longTarget : parseSocksAddr longTarget.encode ≠ some (ofTarget longTarget) := by
  rw [longTarget, parseSocksAddr_panics _ _ _ (List.length_replicate.ge)]
  nofun

end RuleBaseProxy.Inbound
