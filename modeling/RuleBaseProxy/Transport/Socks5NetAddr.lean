import RuleBaseProxy.Lib.NetParse
import RuleBaseProxy.Transport.Socks5

/-! # The SOCKS address of a `net.Addr`

`ParseAddrToSocksAddr` is meant as a fast path of `ParseAddr(addr.String())`. It
reads IP and port off the address; the text also has the zone, and a host with a
zone is no IP to `ParseAddr` but a name.
-/

namespace RuleBaseProxy.Socks5

open Go Go.Net

/-- The fields of `net.UDPAddr`, which are those of `net.TCPAddr`. -/
structure SockAddr where
  ip : Option IP
  port : Int
  zone : Str

/-- `UDPAddr.String` and `TCPAddr.String`; a nil IP is printed as nothing. -/
def SockAddr.string (a : SockAddr) : Str :=
  let ip := (a.ip.map IP.string).getD []
  if a.zone ≠ [] then joinHostPort (ip ++ 37 :: a.zone) (itoa a.port)
  else joinHostPort ip (itoa a.port)

/-- A `net.Addr` by its concrete type; one of another type has nothing but its text. -/
inductive NetAddr where
  | udp (a : SockAddr)
  | tcp (a : SockAddr)
  | other (text : Str)

def NetAddr.string : NetAddr → Str
  | .udp a => a.string
  | .tcp a => a.string
  | .other text => text

/-- `IP.DefaultMask`, on what `To4` has returned. -/
def defaultMask (ip4 : Option (List UInt8)) : Option (List UInt8) :=
  ip4.map fun b =>
    if b.getD 0 0 < 0x80 then [0xff, 0, 0, 0]
    else if b.getD 0 0 < 0xc0 then [0xff, 0xff, 0, 0]
    else [0xff, 0xff, 0xff, 0]

/-- `binary.BigEndian.PutUint16` of `uint16(port)`. -/
def portBytes (port : Int) : List UInt8 :=
  [UInt8.ofNat (port / 256 % 256).toNat, UInt8.ofNat (port % 256).toNat]

/-- The branch for an address that has an IP. -/
def ofIP (hostip : IP) (port : Int) : Addr :=
  if (defaultMask hostip.to4).isSome then atypIPv4 :: (hostip.to4.getD [] ++ portBytes port)
  else atypIPv6 :: (hostip.bytes ++ portBytes port)

def parseAddrToSocksAddr (addr : NetAddr) : Option Addr :=
  let (hostip, port) : Option IP × Int :=
    match addr with
    | .udp a => (a.ip, a.port)
    | .tcp a => (a.ip, a.port)
    | .other _ => (none, 0)
  match hostip with
  | none => parseAddr addr.string
  | some hostip => some (ofIP hostip port)

/-! ## Addresses without a zone -/

theorem portBytes_natCast {n : Nat} (h : n < 2 ^ 16) :
    portBytes n = [UInt8.ofNat (n / 256), UInt8.ofNat n] := by
  have hdiv : ((n : Int) / 256 % 256).toNat = n / 256 := by omega
  have hmod : UInt8.ofNat (n % 256) = UInt8.ofNat n := by
    apply UInt8.toNat_inj.mp
    rw [UInt8.toNat_ofNat', UInt8.toNat_ofNat']
    exact Nat.mod_mod n 256
  have hmodInt : ((n : Int) % 256).toNat = n % 256 := by omega
  rw [portBytes, hdiv, hmodInt, hmod]

theorem parseAddr_ip (ip : IP) {n : Nat} (h : n < 2 ^ 16) :
    parseAddr (joinHostPort ip.string (itoa n)) = some (ofIP ip n) := by
  rcases parseIP_string ip with ⟨ip', hip', hto4, hbytes⟩
  rw [parseAddr_joinHostPort _ h, rejoinedHost_string, Option.bind_some, hip', ← portBytes_natCast h]
  cases h4 : ip.to4 with
  | some b =>
      rw [h4] at hto4
      simp only [hto4, Option.map_some, ofIP, h4, defaultMask, Option.isSome_some, if_true,
        Option.getD_some, List.cons_append]
  | none =>
      rw [h4] at hto4
      simp only [hto4, hbytes h4, Option.map_some, ofIP, h4, defaultMask, Option.map_none,
        Option.isSome_none, Bool.false_eq_true, if_false, List.cons_append]

/-! ## Addresses with a zone -/

theorem rejoinedHost_zone (ip : IP) (zone : Str) {host : Str}
    (h : rejoinedHost (ip.string ++ 37 :: zone) = some host) : host = ip.string ++ 37 :: zone := by
  unfold rejoinedHost at h
  split at h
  · exact (Option.some.inj h).symm
  · split at h
    · rename_i hbrackets
      have hhead := hbrackets.2.1
      cases hs : ip.string with
      | nil =>
          rw [hs] at hhead
          cases hhead
      | cons x rest =>
          rw [hs] at hhead
          cases hhead
          have hmem : (91 : UInt8) ∈ ip.string := by
            rw [hs]
            exact List.mem_cons_self
          exact absurd hmem (IP.not_mem_string ip (by decide) (by decide) (by decide))
    · cases h

theorem parseAddr_zone_ne (ip : IP) (zone : Str) {n : Nat} (h : n < 2 ^ 16) :
    parseAddr (joinHostPort (ip.string ++ 37 :: zone) (itoa n)) ≠ some (ofIP ip n) := by
  intro heq
  rw [parseAddr_joinHostPort _ h] at heq
  rcases Option.bind_eq_some_iff.mp heq with ⟨host, hhost, heq⟩
  have hpercent : 37 ∈ host := by
    rw [rejoinedHost_zone ip zone hhost]
    simp
  have hname : parseIP host = none := by
    rw [parseIP, parseAddr_eq_none_of_mem (by decide) (by decide) (by decide) hpercent]
    rfl
  rw [hname] at heq
  rcases Option.map_eq_some_iff.mp heq with ⟨addr, haddr, heq⟩
  rcases Option.ite_none_left_eq_some.mp haddr with ⟨-, ⟨⟩⟩
  have hhead := congrArg List.head? heq
  unfold ofIP at hhead
  split at hhead
  · cases hhead
  · cases hhead

/-- The fast path agrees with the plain one, for UDP and for TCP addresses, exactly if there is
no IP or no zone. -/
theorem parseAddrToSocksAddr_eq_iff {a : SockAddr} (hport : 0 ≤ a.port ∧ a.port ≤ 65535) :
    (parseAddrToSocksAddr (.udp a) = parseAddr (NetAddr.udp a).string ∧
      parseAddrToSocksAddr (.tcp a) = parseAddr (NetAddr.tcp a).string) ↔
      a.ip = none ∨ a.zone = [] := by
  obtain ⟨ip, port, zone⟩ := a
  obtain ⟨n, rfl⟩ := Int.eq_ofNat_of_zero_le hport.1
  have hn : n < 2 ^ 16 := by
    have := hport.2
    simp only at this
    omega
  cases ip with
  | none => exact iff_of_true ⟨rfl, rfl⟩ (Or.inl rfl)
  | some ip =>
      by_cases hzone : zone = []
      · subst hzone
        have heq := parseAddr_ip ip hn
        exact iff_of_true ⟨heq.symm, heq.symm⟩ (Or.inr rfl)
      · have hne := parseAddr_zone_ne ip zone hn
        have hstring : SockAddr.string ⟨some ip, n, zone⟩ =
            joinHostPort (ip.string ++ 37 :: zone) (itoa n) := by
          simp only [SockAddr.string, ne_eq, hzone, not_false_eq_true, if_true, Option.map_some,
            Option.getD_some]
        refine iff_of_false (fun h => hne ?_) (by simp [hzone])
        rw [← hstring]
        exact h.1.symm

/-- `[fe80::1]:53`, with a zone. -/
def linkLocal (zone : Str) : SockAddr :=
  ⟨some ⟨[0xfe, 0x80, 0, 0, 0, 0, 0, 0, 0, 0, 0, 0, 0, 0, 0, 1], Or.inr rfl⟩, 53, zone⟩

theorem parseAddrToSocksAddr_ipv6 :
    parseAddrToSocksAddr (.udp (linkLocal [])) = parseAddr (str "[fe80::1]:53") := by
  have hstring : (linkLocal []).string = str "[fe80::1]:53" := by decide +kernel
  have hport : 0 ≤ (linkLocal []).port ∧ (linkLocal []).port ≤ 65535 := by decide
  rw [← hstring]
  exact ((parseAddrToSocksAddr_eq_iff hport).mpr (Or.inr rfl)).1

/-- An IPv6 address on the fast path is a name on the plain one, `fe80::1%eth0`. -/
theorem parseAddrToSocksAddr_zone :
    (parseAddrToSocksAddr (.udp (linkLocal (str "eth0")))).bind List.head? = some atypIPv6 ∧
      (parseAddr (NetAddr.udp (linkLocal (str "eth0"))).string).bind List.head? =
        some atypDomainName := by
  decide +kernel

end RuleBaseProxy.Socks5
