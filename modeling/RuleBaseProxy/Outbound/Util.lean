import RuleBaseProxy.Outbound.Vmess
import RuleBaseProxy.Transport.Socks5

/-! # Addresses in outgoing requests

`serializesSocksAddr` writes the destination of a connection as a SOCKS address,
`parseVmessAddr` as that of a vmess header. Both put the length of a name into
one byte. The host of an HTTP request may be of any length, and beyond 255 bytes
the server reads what is left of the name as the rest of the request.
-/

namespace RuleBaseProxy.Outbound

open Go Go.Net

def portHi (dstPort : Str) : UInt8 := UInt8.ofNat (atoiValue dstPort / 256 % 256).toNat

def portLo (dstPort : Str) : UInt8 := UInt8.ofNat (atoiValue dstPort % 256).toNat

/-- `serializesSocksAddr`. The error of `strconv.Atoi` is dropped. -/
def serializesSocksAddr (m : Metadata) : List UInt8 :=
  let aType := UInt8.ofNat (m.addrType % 256).toNat
  let port := [portHi m.dstPort, portLo m.dstPort]
  if m.addrType = atypDomainName then [aType, UInt8.ofNat m.host.length] ++ m.host ++ port
  else if m.addrType = atypIPv4 then [aType] ++ (m.dstIP.bind IP.to4).getD [] ++ port
  else if m.addrType = atypIPv6 then [aType] ++ (m.dstIP.map Vmess.to16).getD [] ++ port
  else []

/-- A destination of one of the three types, with an address where the type asks for one. -/
def Addressed (m : Metadata) : Prop :=
  m.addrType = atypDomainName ∨ m.addrType = atypIPv4 ∧ (m.dstIP.bind IP.to4).isSome ∨
    m.addrType = atypIPv6 ∧ m.dstIP.isSome

instance (m : Metadata) : Decidable (Addressed m) :=
  inferInstanceAs (Decidable (_ ∨ _ ∧ _ ∨ _ ∧ _))

/-- Whoever reads the address finds exactly its end, and a length byte in a vmess header
counts the bytes of the name. -/
def WellEncoded (m : Metadata) : Prop :=
  (∀ rest, Socks5.splitAddr (serializesSocksAddr m ++ rest) = some (serializesSocksAddr m)) ∧
    (m.addrType = atypDomainName → ∃ len name,
      (Vmess.parseVmessAddr m).addr = len :: name ∧ len.toNat = name.length)

theorem length_to16 (ip : IP) : (Vmess.to16 ip).length = 16 := by
  unfold Vmess.to16
  split
  · rename_i h
    rw [List.length_append, h]
    rfl
  · rename_i h
    exact ip.length_bytes.resolve_left h

/-! ## Addresses of each type -/

theorem serializesSocksAddr_name {m : Metadata} (h : m.addrType = atypDomainName) :
    serializesSocksAddr m = Socks5.atypDomainName :: UInt8.ofNat m.host.length ::
      (m.host ++ [portHi m.dstPort, portLo m.dstPort]) := by
  simp only [serializesSocksAddr, if_pos h]
  rw [h]
  rfl

theorem serializesSocksAddr_ipv4 {m : Metadata} (h : m.addrType = atypIPv4)
    (hip : (m.dstIP.bind IP.to4).isSome) :
    ∃ t : Socks5.Target, serializesSocksAddr m = t.encode := by
  rcases Option.isSome_iff_exists.mp hip with ⟨ip, hip⟩
  rcases Option.bind_eq_some_iff.mp hip with ⟨_, -, hto4⟩
  refine ⟨⟨.ipv4 ip (IP.length_of_to4 hto4), portHi m.dstPort, portLo m.dstPort⟩, ?_⟩
  have hne : ¬ m.addrType = atypDomainName := by rw [h]; decide
  simp only [serializesSocksAddr, if_neg hne, if_pos h, hip]
  rw [h]
  rfl

theorem serializesSocksAddr_ipv6 {m : Metadata} (h : m.addrType = atypIPv6)
    (hip : m.dstIP.isSome) : ∃ t : Socks5.Target, serializesSocksAddr m = t.encode := by
  rcases Option.isSome_iff_exists.mp hip with ⟨ip, hip⟩
  refine ⟨⟨.ipv6 (Vmess.to16 ip) (length_to16 ip), portHi m.dstPort, portLo m.dstPort⟩, ?_⟩
  have hne : ¬ m.addrType = atypDomainName := by rw [h]; decide
  have hne' : ¬ m.addrType = atypIPv4 := by rw [h]; decide
  simp only [serializesSocksAddr, if_neg hne, if_neg hne', if_pos h, hip, Option.map_some]
  rw [h]
  rfl

theorem splitAddr_encode (t : Socks5.Target) (rest : List UInt8) :
    Socks5.splitAddr (t.encode ++ rest) = some t.encode :=
  Socks5.splitAddr_eq_some_iff.mpr ⟨t, rfl, List.prefix_append _ rest⟩

/-- The length byte has been cut: the reader stops inside the name. -/
theorem splitAddr_long_name {host : Str} (hlong : 255 < host.length) (hi lo : UInt8) :
    Socks5.splitAddr (Socks5.atypDomainName :: UInt8.ofNat host.length :: (host ++ [hi, lo])) ≠
      some (Socks5.atypDomainName :: UInt8.ofNat host.length :: (host ++ [hi, lo])) := by
  intro h
  have hlen : Socks5.addrLen (Socks5.atypDomainName :: UInt8.ofNat host.length :: (host ++ [hi, lo])) =
      some (1 + 1 + host.length % 256 + 2) := by
    simp [Socks5.addrLen]
  rw [Socks5.splitAddr, hlen, Option.bind_some] at h
  split at h
  · cases h
  · have hshort := congrArg List.length (Option.some.inj h)
    simp only [List.length_take, List.length_cons, List.length_append, List.length_nil] at hshort
    omega

theorem socks_name_length_iff {m : Metadata} (h : m.addrType = atypDomainName) :
    (∀ rest, Socks5.splitAddr (serializesSocksAddr m ++ rest) = some (serializesSocksAddr m)) ↔
      m.host.length ≤ 255 := by
  rw [serializesSocksAddr_name h]
  constructor
  · intro hsplit
    by_contra hlong
    have hnil := hsplit []
    rw [List.append_nil] at hnil
    exact splitAddr_long_name (Nat.not_le.mp hlong) _ _ hnil
  · intro hle rest
    exact splitAddr_encode ⟨.domainName m.host (Nat.lt_succ_of_le hle), _, _⟩ rest

theorem vmess_name_length_iff {m : Metadata} (h : m.addrType = atypDomainName) :
    (∃ len name, (Vmess.parseVmessAddr m).addr = len :: name ∧ len.toNat = name.length) ↔
      m.host.length ≤ 255 := by
  have haddr : (Vmess.parseVmessAddr m).addr = UInt8.ofNat m.host.length :: m.host := by
    have hne : ¬ m.addrType = atypIPv4 := by rw [h]; decide
    have hne' : ¬ m.addrType = atypIPv6 := by rw [h]; decide
    simp only [Vmess.parseVmessAddr, Vmess.parseAddr, if_neg hne, if_neg hne', if_pos h]
  rw [haddr]
  constructor
  · rintro ⟨len, name, hcons, hlen⟩
    cases hcons
    have := (UInt8.ofNat m.host.length).toNat_lt
    omega
  · intro hle
    exact ⟨_, _, rfl, Socks5.toNat_ofNat_length (by omega)⟩

/-- For every destination, whatever its port, the encodings are well formed exactly if a name
has at most 255 bytes. -/
theorem wellEncoded_iff {m : Metadata} (h : Addressed m) :
    WellEncoded m ↔ (m.addrType = atypDomainName → m.host.length ≤ 255) := by
  rcases h with hname | ⟨h4, hip⟩ | ⟨h6, hip⟩
  · unfold WellEncoded
    rw [socks_name_length_iff hname, vmess_name_length_iff hname]
    constructor
    · exact And.right
    · exact fun hlen => ⟨hlen hname, hlen⟩
  · rcases serializesSocksAddr_ipv4 h4 hip with ⟨t, ht⟩
    have hne : ¬ m.addrType = atypDomainName := by rw [h4]; decide
    refine iff_of_true ⟨fun rest => ?_, fun hname => absurd hname hne⟩ fun hname => absurd hname hne
    rw [ht, splitAddr_encode]
  · rcases serializesSocksAddr_ipv6 h6 hip with ⟨t, ht⟩
    have hne : ¬ m.addrType = atypDomainName := by rw [h6]; decide
    refine iff_of_true ⟨fun rest => ?_, fun hname => absurd hname hne⟩ fun hname => absurd hname hne
    rw [ht, splitAddr_encode]

def toHost (host : Str) : Metadata :=
  ⟨.TCP, .HTTP, none, none, str "1234", str "443", atypDomainName, host⟩

theorem wellEncoded_short_host : WellEncoded (toHost (str "a.com")) :=
  (wellEncoded_iff (Or.inl rfl)).mpr fun _ => by decide

/-- A host of 256 bytes: the length byte is 0, in the SOCKS address and in the vmess header. -/
theorem wellEncoded_fails_long_host :
    Socks5.splitAddr (serializesSocksAddr (toHost (List.replicate 256 97))) = some [3, 0, 97, 97] ∧
      (Vmess.parseVmessAddr (toHost (List.replicate 256 97))).addr.head? = some 0 ∧
      ¬ WellEncoded (toHost (List.replicate 256 97)) := by
  refine ⟨by decide +kernel, by decide +kernel, fun h => ?_⟩
  have hlen : (List.replicate 256 (97 : UInt8)).length ≤ 255 :=
    (vmess_name_length_iff rfl).mp (h.2 rfl)
  rw [List.length_replicate] at hlen
  omega

end RuleBaseProxy.Outbound
