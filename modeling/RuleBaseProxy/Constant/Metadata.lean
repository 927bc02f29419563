import RuleBaseProxy.Constant.InfoKey

/-! # Connection metadata

The description of a connection that rules look at, and the text under which
its routing decision is cached. The text leaves the source port out; everything
else can be read back from it, provided the destination port is a number.
-/

namespace RuleBaseProxy

open Go Go.Net

inductive NetWork where
  | TCP
  | UDP
deriving DecidableEq

def NetWork.string : NetWork → Str
  | .TCP => str "tcp"
  | .UDP => str "udp"

inductive ConnType where
  | HTTP
  | HTTPCONNECT
  | SOCKS4
  | SOCKS5
  | REDIR
  | TPROXY
  | WINTUN
deriving DecidableEq

def ConnType.string : ConnType → Str
  | .HTTP => str "HTTP"
  | .HTTPCONNECT => str "HTTP Connect"
  | .SOCKS4 => str "Socks4"
  | .SOCKS5 => str "Socks5"
  | .REDIR => str "Redir"
  | .TPROXY => str "TProxy"
  | .WINTUN => str "TUN"

def atypIPv4 : Int := 1
def atypDomainName : Int := 3
def atypIPv6 : Int := 4

structure Metadata where
  netWork : NetWork
  type : ConnType
  srcIP : Option IP
  dstIP : Option IP
  srcPort : Str
  dstPort : Str
  addrType : Int
  host : Str
deriving DecidableEq

namespace Metadata

def infoKey (m : Metadata) : Str :=
  ipString m.srcIP ++ str "->" ++ ipString m.dstIP ++ str ":" ++ m.dstPort ++ str " host:" ++
    m.host ++ str " Type:" ++ m.type.string ++ str " AddrType:" ++ itoa m.addrType ++
    str " NetWork:" ++ m.netWork.string

/-- The destination port is written in decimal digits, or is empty. Every
listener writes it so: `parseSocksAddr` with `strconv.Itoa`, `parseHTTPAddr`
from a URL that has been parsed. -/
def DecimalPort (m : Metadata) : Prop := ∀ b ∈ m.dstPort, 48 ≤ b.toNat ∧ b.toNat ≤ 57

instance (m : Metadata) : Decidable m.DecimalPort :=
  inferInstanceAs (Decidable (∀ b ∈ m.dstPort, 48 ≤ b.toNat ∧ b.toNat ≤ 57))

/-- Agreement on everything but the source port, addresses taken up to the form
in which they are written. -/
structure SameInfo (m m' : Metadata) : Prop where
  netWork : m.netWork = m'.netWork
  type : m.type = m'.type
  srcIP : m.srcIP.map IP.canon = m'.srcIP.map IP.canon
  dstIP : m.dstIP.map IP.canon = m'.dstIP.map IP.canon
  dstPort : m.dstPort = m'.dstPort
  addrType : m.addrType = m'.addrType
  host : m.host = m'.host

theorem SameInfo.symm {m m' : Metadata} (h : SameInfo m m') : SameInfo m' m :=
  ⟨h.netWork.symm, h.type.symm, h.srcIP.symm, h.dstIP.symm, h.dstPort.symm, h.addrType.symm,
    h.host.symm⟩

end Metadata

/-! ## As the source has them

The networks and types that listeners set, and addresses that are nil or of
proper length, among all the values of the source's types.
-/

def NetWork.wide : NetWork → Constant.NetWork
  | .TCP => .TCP
  | .UDP => .UDP

def ConnType.wide : ConnType → Constant.ConnType
  | .HTTP => ⟨5⟩
  | .HTTPCONNECT => ⟨6⟩
  | .SOCKS4 => ⟨7⟩
  | .SOCKS5 => ⟨8⟩
  | .REDIR => ⟨9⟩
  | .TPROXY => ⟨10⟩
  | .WINTUN => ⟨11⟩

def ipSlice : Option IP → IPSlice
  | none => []
  | some ip => ip.bytes

theorem string_ipSlice (ip : Option IP) : (ipSlice ip).string = ipString ip := by
  cases ip with
  | none => rfl
  | some ip => exact IPSlice.string_ip ip

theorem NetWork.string_wide (n : NetWork) : n.wide.string = n.string := by
  cases n <;> rfl

theorem NetWork.eq_of_wide {n n' : NetWork} (h : n.wide = .TCP ↔ n'.wide = .TCP) : n = n' := by
  revert h
  cases n <;> cases n' <;> decide

theorem ConnType.string_wide (t : ConnType) : t.wide.string = t.string := by
  cases t <;> rfl

theorem ConnType.string_injective {t t' : ConnType} (h : t.string = t'.string) : t = t' := by
  revert h
  cases t <;> cases t' <;> decide

namespace Metadata

def wide (m : Metadata) : Constant.Metadata where
  netWork := m.netWork.wide
  type := m.type.wide
  srcIP := ipSlice m.srcIP
  dstIP := ipSlice m.dstIP
  srcPort := m.srcPort
  dstPort := m.dstPort
  addrType := m.addrType
  host := m.host

theorem infoKey_wide (m : Metadata) : m.wide.infoKey = m.infoKey := by
  simp only [Constant.Metadata.infoKey, infoKey, wide, string_ipSlice, ConnType.string_wide,
    NetWork.string_wide]

theorem sameInfo_of_infoKey_eq {m m' : Metadata} (hp : m.DecimalPort) (hp' : m'.DecimalPort)
    (h : m.infoKey = m'.infoKey) : SameInfo m m' := by
  have hwide : m.wide.DecimalPort := hp
  have hwide' : m'.wide.DecimalPort := hp'
  rw [← infoKey_wide, ← infoKey_wide] at h
  rcases (Constant.Metadata.infoKey_eq_iff hwide hwide').mp h with ⟨hsame, hnet⟩
  have hip : ∀ {x y : Option IP}, (ipSlice x).string = (ipSlice y).string →
      x.map IP.canon = y.map IP.canon := by
    intro x y hxy
    rw [string_ipSlice, string_ipSlice] at hxy
    exact canon_eq_of_ipString_eq hxy
  have htype : m.type.string = m'.type.string := by
    rw [← ConnType.string_wide, ← ConnType.string_wide]
    exact hsame.type
  exact ⟨NetWork.eq_of_wide hnet, ConnType.string_injective htype, hip hsame.srcIP, hip hsame.dstIP,
    hsame.dstPort, hsame.addrType, hsame.host⟩

end Metadata

end RuleBaseProxy
