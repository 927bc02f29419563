import RuleBaseProxy.Lib.NetSlice

/-! # The key of the match cache

`Metadata` with the types of the source: networks and types are ints, addresses
are slices of any length. `InfoKey` writes seven fields one after another. With a
destination port in decimal digits every field can be read back from the two
ends of the text, whatever the host is; of the network it keeps only whether it
is TCP.
-/

namespace RuleBaseProxy.Constant

open Go Go.Net

/-- `constant.NetWork`. A metadata that does not set it has zero here, which is
neither of the two constants. -/
structure NetWork where
  value : Int
deriving DecidableEq

namespace NetWork

def TCP : NetWork := ⟨3⟩
def UDP : NetWork := ⟨4⟩

def string (n : NetWork) : Str := if n = TCP then str "tcp" else str "udp"

theorem length_string (n : NetWork) : n.string.length = 3 := by
  unfold string
  split <;> rfl

theorem string_eq_iff {n n' : NetWork} : n.string = n'.string ↔ (n = TCP ↔ n' = TCP) := by
  have hne : str "tcp" ≠ str "udp" := by decide
  by_cases h : n = TCP <;> by_cases h' : n' = TCP <;> simp [string, h, h', hne, hne.symm]

end NetWork

/-- `constant.Type`. -/
structure ConnType where
  value : Int
deriving DecidableEq

def ConnType.string (t : ConnType) : Str :=
  match t.value with
  | 1 => str "IPv4"
  | 3 => str "DomainName"
  | 4 => str "IPv6"
  | 5 => str "HTTP"
  | 6 => str "HTTP Connect"
  | 7 => str "Socks4"
  | 8 => str "Socks5"
  | 9 => str "Redir"
  | 10 => str "TProxy"
  | 11 => str "TUN"
  | _ => str "Unknown"

structure Metadata where
  netWork : NetWork
  type : ConnType
  srcIP : IPSlice
  dstIP : IPSlice
  srcPort : Str
  dstPort : Str
  addrType : Int
  host : Str
deriving DecidableEq

namespace Metadata

def infoKey (m : Metadata) : Str :=
  m.srcIP.string ++ str "->" ++ m.dstIP.string ++ str ":" ++ m.dstPort ++ str " host:" ++
    m.host ++ str " Type:" ++ m.type.string ++ str " AddrType:" ++ itoa m.addrType ++
    str " NetWork:" ++ m.netWork.string

/-- The destination port is written in decimal digits, or is empty. -/
def DecimalPort (m : Metadata) : Prop := ∀ b ∈ m.dstPort, 48 ≤ b.toNat ∧ b.toNat ≤ 57

instance (m : Metadata) : Decidable m.DecimalPort :=
  List.decidableBAll (fun b : UInt8 => 48 ≤ b.toNat ∧ b.toNat ≤ 57) m.dstPort

structure SameButNetWork (m m' : Metadata) : Prop where
  host : m.host = m'.host
  dstPort : m.dstPort = m'.dstPort
  addrType : m.addrType = m'.addrType
  type : m.type.string = m'.type.string
  srcIP : m.srcIP.string = m'.srcIP.string
  dstIP : m.dstIP.string = m'.dstIP.string

/-- Agreement on host, destination port, address type, network, the text of the
type, and on the addresses up to `IP.Equal`. -/
structure Agree (m m' : Metadata) : Prop where
  host : m.host = m'.host
  dstPort : m.dstPort = m'.dstPort
  addrType : m.addrType = m'.addrType
  netWork : m.netWork = m'.netWork
  type : m.type.string = m'.type.string
  srcIP : IPSlice.equal m.srcIP m'.srcIP = true
  dstIP : IPSlice.equal m.dstIP m'.dstIP = true

/-! ## Reading the key back -/

def typeNames : List Str :=
  [str "IPv4", str "DomainName", str "IPv6", str "HTTP", str "HTTP Connect", str "Socks4",
    str "Socks5", str "Redir", str "TProxy", str "TUN", str "Unknown"]

theorem type_string_mem (t : ConnType) : t.string ∈ typeNames := by
  unfold ConnType.string
  split <;> simp [typeNames]

theorem typeLabel_suffix : ∀ n ∈ typeNames, ∀ n' ∈ typeNames,
    str " Type:" ++ n <:+ str " Type:" ++ n' → n = n' := by
  decide +kernel

/-- The last label of a text is unique, so what stands before it is. -/
theorem append_type_inj {a a' : Str} {t t' : ConnType}
    (h : a ++ (str " Type:" ++ t.string) = a' ++ (str " Type:" ++ t'.string)) :
    a = a' ∧ t.string = t'.string := by
  have ht : t.string = t'.string := by
    have hs : str " Type:" ++ t.string <:+ a ++ (str " Type:" ++ t.string) := List.suffix_append _ _
    have hs' : str " Type:" ++ t'.string <:+ a ++ (str " Type:" ++ t.string) := by
      rw [h]
      exact List.suffix_append _ _
    rcases List.suffix_or_suffix_of_suffix hs hs' with hsuf | hsuf
    · exact typeLabel_suffix _ (type_string_mem t) _ (type_string_mem t') hsuf
    · exact (typeLabel_suffix _ (type_string_mem t') _ (type_string_mem t) hsuf).symm
  rw [ht] at h
  exact ⟨List.append_cancel_right h, ht⟩

theorem append_label {label rest : Str} {c : UInt8} (h : label = c :: rest) (a b : Str) :
    a ++ label ++ b = a ++ c :: (rest ++ b) := by
  rw [h, List.append_assoc, List.cons_append]

def addresses (m : Metadata) : Str :=
  m.srcIP.string ++ str "->" ++ m.dstIP.string ++ str ":" ++ m.dstPort

theorem blank_not_mem_addrType (n : Int) : (32 : UInt8) ∉ str "AddrType:" ++ itoa n := by
  intro hmem
  rcases List.mem_append.mp hmem with hmem | hmem
  · revert hmem
    decide
  · exact not_mem_itoa (by decide) (by decide) n hmem

theorem not_mem_of_decimalPort {m : Metadata} (h : m.DecimalPort) {c : UInt8}
    (hc : ¬ (48 ≤ c.toNat ∧ c.toNat ≤ 57)) : c ∉ m.dstPort :=
  fun hm => hc (h c hm)

theorem blank_not_mem_addresses {m : Metadata} (hp : m.DecimalPort) :
    (32 : UInt8) ∉ m.addresses := by
  have hip : ∀ s : IPSlice, (32 : UInt8) ∉ s.string := fun s =>
    s.not_mem_string (by decide) (by decide) (by decide) (by decide) (by decide)
  have hport := not_mem_of_decimalPort hp (c := 32) (by decide)
  have harrow : (32 : UInt8) ∉ str "->" := by decide
  have hcolon : (32 : UInt8) ∉ str ":" := by decide
  simp [addresses, hip, hport, harrow, hcolon]

-- from the right: the network has three letters, the address type has no blank
theorem infoKey_right {m m' : Metadata} (h : m.infoKey = m'.infoKey) :
    m.netWork.string = m'.netWork.string ∧ m.addrType = m'.addrType ∧
      m.type.string = m'.type.string ∧
      m.addresses ++ str " host:" ++ m.host = m'.addresses ++ str " host:" ++ m'.host := by
  unfold infoKey at h
  have hlen : m.netWork.string.length = m'.netWork.string.length := by
    rw [NetWork.length_string, NetWork.length_string]
  rcases List.append_inj' h hlen with ⟨h, hnet⟩
  replace h := (List.append_inj' h rfl).1
  have hlabel : str " AddrType:" = 32 :: str "AddrType:" := by decide
  rw [append_label hlabel, append_label hlabel] at h
  rcases append_sep_right_inj (blank_not_mem_addrType _) (blank_not_mem_addrType _) h with
    ⟨h, haddr⟩
  rw [List.append_assoc, List.append_assoc _ (str " Type:")] at h
  rcases append_type_inj h with ⟨h, htype⟩
  exact ⟨hnet, itoa_injective (List.append_cancel_left haddr), htype, h⟩

-- from the left: no blank before the host, no dash in the source address
theorem addresses_left {m m' : Metadata} (hp : m.DecimalPort) (hp' : m'.DecimalPort)
    (h : m.addresses = m'.addresses) :
    m.srcIP.string = m'.srcIP.string ∧ m.dstIP.string = m'.dstIP.string ∧
      m.dstPort = m'.dstPort := by
  unfold addresses at h
  have hcolon : str ":" = 58 :: [] := by decide
  rw [append_label hcolon, append_label hcolon] at h
  rcases append_sep_right_inj (not_mem_of_decimalPort hp (by decide))
    (not_mem_of_decimalPort hp' (by decide)) h with ⟨h, hport⟩
  have harrow : str "->" = 45 :: str ">" := by decide
  rw [append_label harrow, append_label harrow] at h
  have hdash : ∀ s : IPSlice, (45 : UInt8) ∉ s.string := fun s =>
    s.not_mem_string (by decide) (by decide) (by decide) (by decide) (by decide)
  rcases append_sep_left_inj (hdash _) (hdash _) h with ⟨hsrc, h⟩
  exact ⟨hsrc, List.append_cancel_left h, hport⟩

theorem infoKey_eq_iff {m m' : Metadata} (hp : m.DecimalPort) (hp' : m'.DecimalPort) :
    m.infoKey = m'.infoKey ↔
      m.SameButNetWork m' ∧ (m.netWork = .TCP ↔ m'.netWork = .TCP) := by
  constructor
  · intro h
    rcases infoKey_right h with ⟨hnet, haddr, htype, h⟩
    have hlabel : str " host:" = 32 :: str "host:" := by decide
    rw [append_label hlabel, append_label hlabel] at h
    rcases append_sep_left_inj (blank_not_mem_addresses hp) (blank_not_mem_addresses hp') h with
      ⟨h, hhost⟩
    rcases addresses_left hp hp' h with ⟨hsrc, hdst, hport⟩
    exact ⟨⟨List.append_cancel_left hhost, hport, haddr, htype, hsrc, hdst⟩,
      NetWork.string_eq_iff.mp hnet⟩
  · rintro ⟨h, hnet⟩
    rw [infoKey, infoKey, h.host, h.dstPort, h.addrType, h.type, h.srcIP, h.dstIP,
      NetWork.string_eq_iff.mpr hnet]

theorem SameButNetWork.agree {m m' : Metadata} (h : m.SameButNetWork m')
    (hnet : m.netWork = m'.netWork) : m.Agree m' where
  host := h.host
  dstPort := h.dstPort
  addrType := h.addrType
  netWork := hnet
  type := h.type
  srcIP := IPSlice.equal_of_string_eq h.srcIP
  dstIP := IPSlice.equal_of_string_eq h.dstIP

/-- Among the metadata whose networks are in `nets`, equal keys mean agreement if
and only if `nets` has at most one network besides TCP. -/
theorem infoKey_faithful_iff (nets : NetWork → Prop) :
    (∀ m m' : Metadata, nets m.netWork → nets m'.netWork → m.DecimalPort → m'.DecimalPort →
      m.infoKey = m'.infoKey → m.Agree m') ↔
      ∀ n n', nets n → nets n' → n ≠ .TCP → n' ≠ .TCP → n = n' := by
  constructor
  · intro h n n' hn hn' hne hne'
    let m : NetWork → Metadata := fun n => ⟨n, ⟨0⟩, [], [], [], [], 0, []⟩
    have hport : ∀ n, (m n).DecimalPort := fun n b hb => absurd hb List.not_mem_nil
    have hkey : (m n).infoKey = (m n').infoKey :=
      (infoKey_eq_iff (hport n) (hport n')).mpr
        ⟨⟨rfl, rfl, rfl, rfl, rfl, rfl⟩, iff_of_false hne hne'⟩
    exact (h (m n) (m n') hn hn' (hport n) (hport n') hkey).netWork
  · intro h m m' hn hn' hp hp' hkey
    rcases (infoKey_eq_iff hp hp').mp hkey with ⟨hsame, hnet⟩
    apply hsame.agree
    by_cases htcp : m.netWork = .TCP
    · rw [htcp, hnet.mp htcp]
    · exact h _ _ hn hn' htcp fun htcp' => htcp (hnet.mpr htcp')

/-- What `urlToMetadata` makes of `https://www.gstatic.com`. It sets neither the
network nor the type. -/
def probe : Metadata := ⟨⟨0⟩, ⟨0⟩, [], [], [], str "443", 3, str "www.gstatic.com"⟩

/-- A metadata without network has the key of a UDP one. -/
theorem infoKey_probe_eq_udp :
    probe.DecimalPort ∧ probe.infoKey = { probe with netWork := .UDP }.infoKey ∧
      ¬ probe.Agree { probe with netWork := .UDP } := by
  refine ⟨by decide, by decide, ?_⟩
  intro h
  cases h.netWork

end Metadata

end RuleBaseProxy.Constant
