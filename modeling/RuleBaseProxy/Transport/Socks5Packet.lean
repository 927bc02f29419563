import RuleBaseProxy.Lib.SegmentedRun
import RuleBaseProxy.Transport.Socks5Handshake

/-! # SOCKS5 datagrams

`ReadAddr` on a connection and `SplitAddr` on a slice take the same addresses,
and `DecodeUDPPacket` and `EncodeUDPPacket` undo each other: three zero bytes,
an address, and the rest is payload.
-/

namespace RuleBaseProxy.Socks5

open Go Duplex

/-! ## Addresses -/

/-- `ReadAddr` into a buffer of that length. -/
def readAddrScript (buffer : Nat) : Script (Except ReadError Addr) :=
  if buffer < maxAddrLen then .done (.error .shortBuffer)
  else
    readAddrFrom fun addr =>
      match addr with
      | some addr => .done (.ok addr)
      | none => .done (.error .addressNotSupported)

theorem exec_readAddrScript_iff {buffer : Nat} (hbuffer : maxAddrLen ≤ buffer) {input rest : Str}
    {a : Addr} :
    (∃ out, (readAddrScript buffer).exec input = ⟨.done (.ok a), rest, out⟩) ↔
      ∃ t : Target, a = t.encode ∧ input = t.encode ++ rest := by
  rw [readAddrScript, if_neg (Nat.not_lt.mpr hbuffer)]
  constructor
  · rintro ⟨out, h⟩
    rcases exec_readAddrFrom_done h with ⟨t, input', rfl, h'⟩ | ⟨input', h'⟩
    · cases h'
      exact ⟨t, rfl, rfl⟩
    · cases h'
  · rintro ⟨t, rfl, rfl⟩
    exact ⟨[], by rw [exec_readAddrFrom]; rfl⟩

/-- `SplitAddr` finds an address exactly if `ReadAddr` reads it, and `ReadAddr` leaves what
comes after it. -/
theorem splitAddr_iff_readAddr {buffer : Nat} (hbuffer : maxAddrLen ≤ buffer) (segs : List Str)
    (a : Addr) :
    splitAddr segs.flatten = some a ↔
      ∃ segs', (readAddrScript buffer).onConn segs = (.ok (.ok a), segs') ∧
        segs'.flatten = segs.flatten.drop a.length := by
  rw [onConn_ok_iff, exec_readAddrScript_iff hbuffer, splitAddr_eq_some_iff]
  constructor
  · rintro ⟨t, rfl, rest, hrest⟩
    refine ⟨t, rfl, ?_⟩
    rw [← hrest, List.drop_left]
  · rintro ⟨t, rfl, hinput⟩
    exact ⟨t, rfl, _, hinput.symm⟩

/-! ## Datagrams -/

inductive PacketError where
  | insufficientLength
  | reservedFields
  | fragmented
  | header
  /-- A nil address to encode. -/
  | invalidAddress
deriving DecidableEq

def decodeUDPPacket (packet : List UInt8) : Except PacketError (Addr × List UInt8) :=
  if packet.length < 5 then .error .insufficientLength
  else if packet.take 2 ≠ [0, 0] then .error .reservedFields
  else if packet.getD 2 0 ≠ 0 then .error .fragmented
  else
    match splitAddr (packet.drop 3) with
    | none => .error .header
    | some addr => .ok (addr, packet.drop (3 + addr.length))

/-- `EncodeUDPPacket`; `none` is the nil address. -/
def encodeUDPPacket (addr : Option Addr) (payload : List UInt8) : Except PacketError (List UInt8) :=
  match addr with
  | none => .error .invalidAddress
  | some addr => .ok ([0, 0, 0] ++ addr ++ payload)

theorem five_le_length_encode (t : Target) : 5 ≤ 3 + t.encode.length := by
  have hport : t.encode.length = t.dest.encode.length + 2 := by simp [Target.encode]
  omega

/-- A datagram is decoded exactly if it is three zero bytes, an address and a payload. -/
theorem decodeUDPPacket_eq_ok_iff {packet : List UInt8} {addr : Addr} {payload : List UInt8} :
    decodeUDPPacket packet = .ok (addr, payload) ↔
      ∃ t : Target, addr = t.encode ∧ packet = [0, 0, 0] ++ addr ++ payload := by
  constructor
  · intro h
    unfold decodeUDPPacket at h
    split at h
    · cases h
    rename_i hlen
    split at h
    · cases h
    rename_i hreserved
    split at h
    · cases h
    rename_i hfragment
    split at h
    · cases h
    · rename_i a ha
      cases h
      rcases splitAddr_eq_some_iff.mp ha with ⟨t, rfl, rest, hrest⟩
      refine ⟨t, rfl, ?_⟩
      match packet, hlen, hreserved, hfragment, hrest with
      | x :: y :: z :: packet, _, hreserved, hfragment, hrest =>
          simp only [ne_eq, List.take_succ_cons, List.take_zero, List.cons.injEq, and_true,
            not_not] at hreserved
          have hz : z = 0 := not_not.mp hfragment
          have hpacket : packet = t.encode ++ rest := hrest.symm
          rw [hreserved.1, hreserved.2, hz, hpacket]
          simp [Nat.add_comm 3]
  · rintro ⟨t, rfl, rfl⟩
    have hlen : ¬ ([0, 0, 0] ++ t.encode ++ payload).length < 5 := by
      have := five_le_length_encode t
      simp only [List.length_append, List.length_cons, List.length_nil]
      omega
    have hsplit : splitAddr (([0, 0, 0] ++ t.encode ++ payload).drop 3) = some t.encode :=
      splitAddr_eq_some_iff.mpr ⟨t, rfl, payload, rfl⟩
    have hdrop : ([0, 0, 0] ++ t.encode ++ payload).drop (3 + t.encode.length) = payload :=
      List.drop_left' List.length_append
    rw [decodeUDPPacket, if_neg hlen, if_neg (by simp), if_neg (by simp), hsplit]
    simp only [hdrop]

/-- Addresses and datagrams are framed alike everywhere: `SplitAddr` and `ReadAddr` agree on
every stream in every segmentation, and the two directions of a datagram undo each other. -/
theorem socksFraming_consistent :
    (∀ (buffer : Nat), maxAddrLen ≤ buffer → ∀ (b : List UInt8) (segs : List Str),
      segs.flatten = b → ∀ a : Addr,
        splitAddr b = some a ↔ ∃ segs', (readAddrScript buffer).onConn segs = (.ok (.ok a), segs') ∧
          segs'.flatten = b.drop a.length) ∧
    (∀ (a : Addr) (payload : List UInt8), splitAddr a = some a →
      (encodeUDPPacket (some a) payload).bind decodeUDPPacket = .ok (a, payload)) ∧
    ∀ (packet : List UInt8) (a : Addr) (payload : List UInt8),
      decodeUDPPacket packet = .ok (a, payload) → encodeUDPPacket (some a) payload = .ok packet := by
  refine ⟨?_, ?_, ?_⟩
  · rintro buffer hbuffer b segs rfl a
    exact splitAddr_iff_readAddr hbuffer segs a
  · intro a payload ha
    rcases splitAddr_eq_some_iff.mp ha with ⟨t, rfl, -⟩
    exact decodeUDPPacket_eq_ok_iff.mpr ⟨t, rfl, rfl⟩
  · intro packet a payload h
    rcases decodeUDPPacket_eq_ok_iff.mp h with ⟨t, rfl, rfl⟩
    rfl

end RuleBaseProxy.Socks5
