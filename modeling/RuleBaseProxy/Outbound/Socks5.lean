import RuleBaseProxy.Outbound.Vmess
import RuleBaseProxy.Transport.Socks5Packet

/-! # Datagrams from a SOCKS5 server

`socksPacketConn.ReadFrom` receives a datagram into the caller's buffer, decodes
the header from the whole buffer and subtracts its length from the number of
bytes that came in. The caller passes the same buffer again and again, so that
behind a short datagram stand the bytes of an earlier one.
-/

namespace RuleBaseProxy.Socks5

open Go Go.Net

/-! ## The address of a datagram -/

/-- `binary.BigEndian.Uint16(a[i:i+2])`. -/
def uint16At (a : Addr) (i : Nat) : Option Int :=
  a[i]?.bind fun hi => a[i + 1]?.map fun lo => (256 * hi.toNat + lo.toNat : Nat)

def udpAddrAt (a : Addr) (n : Nat) : Option UDPAddr :=
  (ipAt a n).bind fun ip => (uint16At a (1 + n)).map fun port => ⟨ip, port⟩

/-- `Addr.UDPAddr`. The inner `none` is the nil pointer, the outer one an index out of range. -/
def Addr.udpAddr (a : Addr) : Option (Option UDPAddr) :=
  match a.head? with
  | none => some none
  | some atyp =>
      if atyp = atypIPv4 then (udpAddrAt a 4).map some
      else if atyp = atypIPv6 then (udpAddrAt a 16).map some
      else some none

/-- What a target is as a UDP address: nothing, if it is a name. -/
def Target.udpAddr (t : Target) : Option UDPAddr :=
  match t.dest with
  | .ipv4 ip h => some ⟨⟨ip, IP.length_of_four h⟩, t.port⟩
  | .ipv6 ip h => some ⟨⟨ip, IP.length_of_sixteen h⟩, t.port⟩
  | .domainName _ _ => none

theorem uint16At_append (a : List UInt8) (hi lo : UInt8) :
    uint16At (a ++ [hi, lo]) a.length = some ((256 * hi.toNat + lo.toNat : Nat) : Int) := by
  have hhi : (a ++ [hi, lo])[a.length]? = some hi := by simp
  have hlo : (a ++ [hi, lo])[a.length + 1]? = some lo := by
    rw [List.getElem?_append_right (Nat.le_add_right _ 1), Nat.add_sub_cancel_left]
    rfl
  rw [uint16At, hhi, Option.bind_some, hlo, Option.map_some]

theorem udpAddrAt_encode (t : Target) {n : Nat} (hstart : t.dest.header.length = 1)
    (hn : t.dest.body.length = n) (h : n = 4 ∨ n = 16) :
    udpAddrAt t.encode n = some ⟨⟨t.dest.body, hn ▸ h⟩, t.port⟩ := by
  have hoffset : 1 + n = (t.dest.header ++ t.dest.body).length := by
    rw [List.length_append, hstart, hn]
  have hport : uint16At t.encode (1 + n) = some (t.port : Int) := by
    rw [encode_eq, hoffset, uint16At_append]
    rfl
  rw [udpAddrAt, ipAt_encode t hstart hn h, Option.bind_some, hport, Option.map_some]

theorem udpAddr_encode (t : Target) : Addr.udpAddr t.encode = some t.udpAddr := by
  obtain ⟨dest, hi, lo⟩ := t
  cases dest with
  | ipv4 ip h =>
      have hat := udpAddrAt_encode ⟨.ipv4 ip h, hi, lo⟩ rfl h (Or.inl rfl)
      have hhead : (Target.encode ⟨.ipv4 ip h, hi, lo⟩).head? = some atypIPv4 := rfl
      rw [Addr.udpAddr, hhead]
      simp only [if_true, hat]
      rfl
  | ipv6 ip h =>
      have hat := udpAddrAt_encode ⟨.ipv6 ip h, hi, lo⟩ rfl h (Or.inr rfl)
      have hhead : (Target.encode ⟨.ipv6 ip h, hi, lo⟩).head? = some atypIPv6 := rfl
      have hne : ¬ atypIPv6 = atypIPv4 := by decide
      rw [Addr.udpAddr, hhead]
      simp only [if_true, if_neg hne, hat]
      rfl
  | domainName name h => rfl

theorem length_encode_of_udpAddr {t : Target} {addr : UDPAddr} (h : t.udpAddr = some addr) :
    t.encode.length = 3 + addr.ip.bytes.length := by
  obtain ⟨dest, hi, lo⟩ := t
  cases dest with
  | ipv4 ip hip =>
      cases h
      simp [Target.encode, Dest.encode]
      omega
  | ipv6 ip hip =>
      cases h
      simp [Target.encode, Dest.encode]
      omega
  | domainName name hname => cases h

/-! ## Receiving -/

/-- The datagram overwrites the beginning of the buffer; what does not fit is lost. -/
def receive (b datagram : List UInt8) : List UInt8 :=
  datagram.take b.length ++ b.drop datagram.length

/-- What `ReadFrom` returns, with the buffer as it leaves it. -/
inductive ReadFrom where
  | failed
  | panicked
  | ok (n : Int) (addr : UDPAddr) (b : List UInt8)
deriving DecidableEq

/-- `socksPacketConn.ReadFrom` when a datagram comes in. -/
def readFrom (b datagram : List UInt8) : ReadFrom :=
  let n := min datagram.length b.length
  let b := receive b datagram
  match decodeUDPPacket b with
  | .error _ => .failed
  | .ok (addr, payload) =>
      match Addr.udpAddr addr with
      | none => .panicked
      | some none => .failed
      | some (some udpAddr) =>
          .ok ((n : Int) - addr.length - 3) udpAddr (payload ++ b.drop payload.length)

/-- Unless it fails, the call returns the address and the payload of the datagram. -/
def Faithful (b datagram : List UInt8) : Prop :=
  match readFrom b datagram with
  | .failed => True
  | .panicked => False
  | .ok k addr b' =>
      0 ≤ k ∧ k ≤ datagram.length ∧ ∃ t : Target, t.udpAddr = some addr ∧
        datagram = [0, 0, 0] ++ t.encode ++ b'.take k.toNat

/-- Where the buffer shows three zero bytes and an IP address, the datagram has brought all of
them, and has itself found room in the buffer. -/
def HeaderReceived (b datagram : List UInt8) : Prop :=
  ∀ t : Target, t.udpAddr.isSome → [0, 0, 0] ++ t.encode <+: receive b datagram →
    3 + t.encode.length ≤ datagram.length ∧ datagram.length ≤ b.length

section Decoded

variable {b datagram payload : List UInt8} {t : Target}

theorem headerReceived_iff (h : receive b datagram = [0, 0, 0] ++ t.encode ++ payload) :
    HeaderReceived b datagram ↔
      (t.udpAddr.isSome →
        3 + t.encode.length ≤ datagram.length ∧ datagram.length ≤ b.length) := by
  constructor
  · intro hreceived hsome
    exact hreceived t hsome ⟨payload, h.symm⟩
  · rintro himp t' hsome ⟨payload', h'⟩
    have hdecode := decodeUDPPacket_eq_ok_iff.mpr ⟨t, rfl, h⟩
    have hdecode' := decodeUDPPacket_eq_ok_iff.mpr ⟨t', rfl, h'.symm⟩
    have hencode : t'.encode = t.encode :=
      congrArg Prod.fst (Except.ok.inj (hdecode'.symm.trans hdecode))
    have hudp : t'.udpAddr = t.udpAddr := by
      have := congrArg Addr.udpAddr hencode
      rw [udpAddr_encode, udpAddr_encode] at this
      exact Option.some.inj this
    rw [hencode]
    exact himp (hudp ▸ hsome)

theorem readFrom_of_decoded (h : receive b datagram = [0, 0, 0] ++ t.encode ++ payload) :
    readFrom b datagram =
      match t.udpAddr with
      | none => .failed
      | some addr =>
          .ok ((min datagram.length b.length : Nat) - (t.encode.length : Int) - 3) addr
            (payload ++ (receive b datagram).drop payload.length) := by
  have hdecode := decodeUDPPacket_eq_ok_iff.mpr ⟨t, rfl, h⟩
  unfold readFrom
  simp only [hdecode, udpAddr_encode]
  cases t.udpAddr <;> rfl

/-- A datagram that fits and has the whole header: the rest of it is the payload. -/
theorem datagram_eq_of_fits (h : receive b datagram = [0, 0, 0] ++ t.encode ++ payload)
    (hheader : 3 + t.encode.length ≤ datagram.length) (hfits : datagram.length ≤ b.length) :
    datagram = [0, 0, 0] ++ t.encode ++ payload.take (datagram.length - (3 + t.encode.length)) := by
  have hbuffer : receive b datagram = datagram ++ b.drop datagram.length := by
    rw [receive, List.take_of_length_le hfits]
  have htake : datagram = (receive b datagram).take datagram.length := by
    rw [hbuffer, List.take_left]
  have hlen : ([0, 0, 0] ++ t.encode).length = 3 + t.encode.length := List.length_append
  conv_lhs => rw [htake, h, List.take_append, hlen, List.take_of_length_le (by omega)]

end Decoded

/-- `ReadFrom` is faithful to the datagram exactly if the header it decodes was received. -/
theorem readFrom_faithful_iff (b datagram : List UInt8) :
    Faithful b datagram ↔ HeaderReceived b datagram := by
  cases hdecode : decodeUDPPacket (receive b datagram) with
  | error e =>
      refine iff_of_true ?_ ?_
      · simp only [Faithful, readFrom, hdecode]
      · rintro t - ⟨payload, h⟩
        rw [decodeUDPPacket_eq_ok_iff.mpr ⟨t, rfl, h.symm⟩] at hdecode
        cases hdecode
  | ok decoded =>
      obtain ⟨a, payload⟩ := decoded
      rcases decodeUDPPacket_eq_ok_iff.mp hdecode with ⟨t, rfl, h⟩
      rw [headerReceived_iff h, Faithful, readFrom_of_decoded h]
      cases hudp : t.udpAddr with
      | none => simp
      | some addr =>
          simp only [Option.isSome_some, true_implies]
          constructor
          · rintro ⟨hnonneg, -, t', hudp', hdatagram⟩
            have hheader : 3 + t.encode.length ≤ datagram.length := by omega
            have hlen := congrArg List.length hdatagram
            have htake := List.length_take_le
              ((min datagram.length b.length : Nat) - (t.encode.length : Int) - 3).toNat
              (payload ++ (receive b datagram).drop payload.length)
            have hsize := length_encode_of_udpAddr hudp
            have hsize' := length_encode_of_udpAddr hudp'
            simp only [List.length_append, List.length_cons, List.length_nil] at hlen
            refine ⟨hheader, ?_⟩
            omega
          · rintro ⟨hheader, hfits⟩
            refine ⟨by omega, by omega, t, hudp, ?_⟩
            have hcount : ((min datagram.length b.length : Nat) - (t.encode.length : Int) - 3).toNat =
                datagram.length - (3 + t.encode.length) := by omega
            have hroom : datagram.length - (3 + t.encode.length) ≤ payload.length := by
              have hlen := congrArg List.length h
              have hbuffer : (receive b datagram).length = b.length := by
                rw [receive, List.length_append, List.length_take, List.length_drop]
                omega
              simp only [List.length_append, List.length_cons, List.length_nil] at hlen
              omega
            rw [hcount, List.take_append_of_le_length hroom]
            exact datagram_eq_of_fits h hheader hfits

/-- An earlier packet from 1.2.3.4:80 is still in the buffer. -/
def usedBuffer : List UInt8 := [0, 0, 0, 1, 1, 2, 3, 4, 0, 80, 120, 121, 122]

/-- A datagram of four bytes: the length that `ReadFrom` returns is negative. -/
theorem readFrom_short_datagram :
    readFrom usedBuffer [0, 0, 0, 1] =
        .ok (-6) ⟨⟨[1, 2, 3, 4], Or.inl rfl⟩, 80⟩ [120, 121, 122, 1, 1, 2, 3, 4, 0, 80, 120, 121, 122] ∧
      ¬ Faithful usedBuffer [0, 0, 0, 1] := by
  have hread : readFrom usedBuffer [0, 0, 0, 1] =
      .ok (-6) ⟨⟨[1, 2, 3, 4], Or.inl rfl⟩, 80⟩ [120, 121, 122, 1, 1, 2, 3, 4, 0, 80, 120, 121, 122] := by
    decide +kernel
  refine ⟨hread, ?_⟩
  rw [Faithful, hread]
  rintro ⟨hnonneg, -⟩
  revert hnonneg
  decide

end RuleBaseProxy.Socks5
