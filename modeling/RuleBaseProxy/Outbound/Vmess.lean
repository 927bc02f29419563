import RuleBaseProxy.Constant.Metadata

/-! # UDP over vmess

A vmess stream carries one destination in its header. `DialUDP` writes it when
the session is opened, and `WriteTo` of the packet connection leaves its address
argument unread.
-/

namespace RuleBaseProxy

open Go Go.Net

structure UDPAddr where
  ip : IP
  port : Int
deriving DecidableEq

/-- `Metadata.UDPAddr`. The error of `strconv.Atoi` is dropped. -/
def Metadata.udpAddr (m : Metadata) : Option UDPAddr :=
  if m.netWork = .UDP then m.dstIP.map fun ip => ⟨ip, atoiValue m.dstPort⟩ else none

namespace Vmess

/-- `vmess.DstAddr`, the destination in the header of a stream. -/
structure DstAddr where
  udp : Bool
  addrType : UInt8
  addr : List UInt8
  port : Nat
deriving DecidableEq

def copyInto (n : Nat) (src : List UInt8) : List UInt8 := (src ++ List.replicate n 0).take n

def to16 (ip : IP) : List UInt8 :=
  if ip.bytes.length = 4 then v4InV6Prefix ++ ip.bytes else ip.bytes

def parseAddr (m : Metadata) : UInt8 × List UInt8 :=
  if m.addrType = atypIPv4 then (1, copyInto 4 ((m.dstIP.bind IP.to4).getD []))
  else if m.addrType = atypIPv6 then (3, copyInto 16 ((m.dstIP.map to16).getD []))
  else if m.addrType = atypDomainName then (2, UInt8.ofNat m.host.length :: m.host)
  else (0, [])

def parseVmessAddr (m : Metadata) : DstAddr where
  udp := m.netWork = .UDP
  addrType := (parseAddr m).1
  addr := (parseAddr m).2
  port := (atoiValue m.dstPort % 2 ^ 64).toNat

/-- `vmessPacketConn`, its stream given by the header it was opened with. -/
structure PacketConn where
  header : DstAddr
  rAddr : Option UDPAddr
deriving DecidableEq

/-- `Vmess.DialUDP` once the server is reached; `none` where the destination has
no address. -/
def dialUDP (m : Metadata) : Option PacketConn :=
  if m.dstIP.isNone then none else some ⟨parseVmessAddr m, m.udpAddr⟩

/-- `vmessPacketConn.WriteTo`: the server sends `b` where the header says. -/
def PacketConn.writeTo (pc : PacketConn) (b : Str) (_addr : UDPAddr) : DstAddr × Str :=
  (pc.header, b)

theorem header_of_dialUDP {m : Metadata} {pc : PacketConn} (h : dialUDP m = some pc) :
    pc.header = parseVmessAddr m := by
  unfold dialUDP at h
  split at h
  · cases h
  · cases h
    rfl

end Vmess

end RuleBaseProxy
