import RuleBaseProxy.Lib.PacketStream
import RuleBaseProxy.Lib.SegmentedRun
import RuleBaseProxy.Outbound.Socks5
import RuleBaseProxy.Transport.Socks5Handshake
import RuleBaseProxy.Transport.VmessBody

/-! # Trojan datagrams

A datagram goes over the stream as address, length, CRLF and payload, in several
packets if it is longer than `maxLength`. `PacketConn.ReadFrom` reads a packet into
the caller's buffer and remembers, in `remain` and `rAddr`, what had no room there.
-/

namespace RuleBaseProxy.Trojan

open Go ChunkedStream Duplex PacketStream
open Socks5 hiding ReadError
open Vmess (putUint16 uint16 uint16_putUint16)

def maxLength : Nat := 8192

def crlf : Str := [13, 10]

/-! ## Writing -/

/-- An `io.Writer`: what it has taken and, if it is to fail, how many calls it takes before that
and how many bytes of the call that fails. -/
structure Writer where
  stream : Str
  fails : Option (Nat × Nat)
deriving DecidableEq

structure Wrote where
  n : Nat
  failed : Bool
deriving DecidableEq

def Writer.write (w : Writer) (p : Str) : Wrote × Writer :=
  match w.fails with
  | none => (⟨p.length, false⟩, { w with stream := w.stream ++ p })
  | some (k + 1, m) => (⟨p.length, false⟩, ⟨w.stream ++ p, some (k, m)⟩)
  | some (0, m) => (⟨min m p.length, true⟩, { w with stream := w.stream ++ p.take m })

def packet (socks5Addr : Addr) (payload : Str) : Str :=
  socks5Addr ++ putUint16 payload.length ++ crlf ++ payload

def writePacket (w : Writer) (socks5Addr : Addr) (payload : Str) : Wrote × Writer :=
  w.write (packet socks5Addr payload)

def cursor (total offset : Nat) : Nat :=
  if total < offset + maxLength then total else offset + maxLength

theorem cursor_gains {total offset : Nat} (h : cursor total offset ≠ total) :
    total - cursor total offset < total - offset := by
  have hpos : 0 < maxLength := by decide
  unfold cursor at h ⊢
  split at h
  · exact absurd rfl h
  · rename_i hle
    rw [if_neg hle]
    omega

/-- The loop of `WritePacket`, at `offset`. -/
def writeLoop (w : Writer) (socks5Addr : Addr) (payload : Str) (offset : Nat) : Wrote × Writer :=
  let total := payload.length
  let (r, w) := writePacket w socks5Addr ((payload.take (cursor total offset)).drop offset)
  if r.failed then (⟨offset + r.n, true⟩, w)
  else if cursor total offset = total then (⟨total, false⟩, w)
  else writeLoop w socks5Addr payload (cursor total offset)
termination_by payload.length - offset
decreasing_by
  rename_i hne
  exact cursor_gains hne

def WritePacket (w : Writer) (socks5Addr : Addr) (payload : Str) : Wrote × Writer :=
  if payload.length ≤ maxLength then writePacket w socks5Addr payload
  else writeLoop w socks5Addr payload 0

/-! ### The packets of a payload -/

def pieces (payload : Str) : List Str :=
  if payload.length ≤ maxLength then [payload]
  else payload.take maxLength :: pieces (payload.drop maxLength)
termination_by payload.length
decreasing_by
  simp only [maxLength, List.length_drop] at *
  omega

theorem flatten_pieces (payload : Str) : (pieces payload).flatten = payload := by
  fun_induction pieces payload with
  | case1 payload h => simp
  | case2 payload h ih => rw [List.flatten_cons, ih, List.take_append_drop]

theorem length_le_of_mem_pieces {payload p : Str} (h : p ∈ pieces payload) :
    p.length ≤ maxLength := by
  fun_induction pieces payload with
  | case1 payload hle =>
      rw [List.mem_singleton] at h
      rwa [h]
  | case2 payload hlong ih =>
      rcases List.mem_cons.mp h with rfl | h
      · exact List.length_take_le ..
      · exact ih h

/-- The packets go out one after the other until a write fails; `sent` bytes went before. -/
def send (w : Writer) (socks5Addr : Addr) : List Str → Nat → Wrote × Writer
  | [], sent => (⟨sent, false⟩, w)
  | p :: ps, sent =>
      let (r, w) := writePacket w socks5Addr p
      if r.failed then (⟨sent + r.n, true⟩, w) else send w socks5Addr ps (sent + p.length)

/-- The loop over offsets sends the pieces of what is left. -/
theorem writeLoop_eq_send (w : Writer) (addr : Addr) (payload : Str) (offset : Nat)
    (h : offset < payload.length) :
    writeLoop w addr payload offset = send w addr (pieces (payload.drop offset)) offset := by
  induction hlen : payload.length - offset using Nat.strongRecOn generalizing w offset with
  | ind len ih =>
      rw [writeLoop, pieces]
      by_cases hlast : payload.length ≤ offset + maxLength
      · have hcursor : cursor payload.length offset = payload.length := by
          unfold cursor
          split <;> omega
        have hshort : (payload.drop offset).length ≤ maxLength := by
          rw [List.length_drop]
          omega
        have hsum : offset + (payload.drop offset).length = payload.length := by
          rw [List.length_drop]
          omega
        simp only [hcursor, List.take_length, if_true, if_pos hshort, send, hsum]
      · have hcursor : cursor payload.length offset = offset + maxLength := if_neg (by omega)
        have hlong : ¬ (payload.drop offset).length ≤ maxLength := by
          rw [List.length_drop]
          omega
        have hpiece : (payload.take (offset + maxLength)).drop offset =
            (payload.drop offset).take maxLength := by
          rw [List.drop_take, Nat.add_sub_cancel_left]
        have htake : ((payload.drop offset).take maxLength).length = maxLength := by
          rw [List.length_take]
          omega
        have hne : ¬ offset + maxLength = payload.length := by omega
        have hdec : payload.length - (offset + maxLength) < len := by
          have hpos : 0 < maxLength := by decide
          omega
        simp only [hcursor, hpiece, if_neg hne, if_neg hlong, send, htake]
        rw [ih _ hdec _ _ (by omega) rfl, List.drop_drop]

/-! ### What is reported -/

/-- The bytes of the payload in the packets that the writer has taken whole. -/
def completed (w : Writer) (payload : Str) : Nat :=
  match w.fails with
  | none => payload.length
  | some (k, _) => ((pieces payload).take k).flatten.length

def Writer.FailsOn (w : Writer) (packets : List Str) : Prop :=
  ∃ k m, w.fails = some (k, m) ∧ k < packets.length

structure ReportsWritten (w : Writer) (addr : Addr) (payload : Str) : Prop where
  accepted : ¬ w.FailsOn (pieces payload) → (WritePacket w addr payload).1 = ⟨payload.length, false⟩
  failing : w.FailsOn (pieces payload) →
    (WritePacket w addr payload).1 = ⟨completed w payload, true⟩ ∧
      completed w payload ≤ payload.length

/-- A payload that has to be split is counted right if the writer takes everything or nothing of
each packet. -/
def CountsPayload (w : Writer) (payload : Str) : Prop :=
  match w.fails with
  | none => maxLength < payload.length
  | some (k, m) => if k < (pieces payload).length then m = 0 else maxLength < payload.length

theorem length_packet (addr : Addr) (payload : Str) :
    (packet addr payload).length = addr.length + 4 + payload.length := by
  simp only [packet, putUint16, crlf, List.length_append, List.length_cons, List.length_nil]

theorem send_accepted {w : Writer} (addr : Addr) {ps : List Str} (h : ¬ w.FailsOn ps) (sent : Nat) :
    (send w addr ps sent).1 = ⟨sent + ps.flatten.length, false⟩ := by
  induction ps generalizing w sent with
  | nil => rfl
  | cons p ps ih =>
      have hrest : (writePacket w addr p).1.failed = false ∧
          ¬ (writePacket w addr p).2.FailsOn ps := by
        unfold writePacket Writer.write
        split
        · rename_i hfails
          exact ⟨rfl, by simp [Writer.FailsOn, hfails]⟩
        · rename_i k m hfails
          refine ⟨rfl, ?_⟩
          rintro ⟨k', m', hsome, hlt⟩
          cases hsome
          exact h ⟨k + 1, m, hfails, Nat.succ_lt_succ hlt⟩
        · rename_i m hfails
          exact absurd ⟨0, m, hfails, Nat.succ_pos ps.length⟩ h
      simp only [send, hrest.1, Bool.false_eq_true, if_false, ih hrest.2, List.flatten_cons,
        List.length_append, Nat.add_assoc]

theorem send_failing {w : Writer} {k m : Nat} (addr : Addr) {ps : List Str}
    (h : w.fails = some (k, m)) (hk : k < ps.length) (sent : Nat) :
    ∃ p ∈ ps, (send w addr ps sent).1 =
      ⟨sent + (ps.take k).flatten.length + min m (packet addr p).length, true⟩ := by
  induction ps generalizing w k sent with
  | nil => simp at hk
  | cons p ps ih =>
      cases k with
      | zero =>
          refine ⟨p, List.mem_cons_self, ?_⟩
          simp [send, writePacket, Writer.write, h]
      | succ k =>
          have hw : writePacket w addr p =
              (⟨(packet addr p).length, false⟩, ⟨w.stream ++ packet addr p, some (k, m)⟩) := by
            simp [writePacket, Writer.write, h]
          rcases ih (w := ⟨w.stream ++ packet addr p, some (k, m)⟩) rfl
            (Nat.lt_of_succ_lt_succ hk) (sent + p.length) with ⟨q, hq, hsend⟩
          refine ⟨q, List.mem_cons_of_mem p hq, ?_⟩
          simp only [send, hw, Bool.false_eq_true, if_false, hsend, List.take_succ_cons,
            List.flatten_cons, List.length_append, Nat.add_assoc]

theorem completed_le (w : Writer) (payload : Str) : completed w payload ≤ payload.length := by
  unfold completed
  split
  · exact Nat.le_refl _
  · rename_i k m _
    calc ((pieces payload).take k).flatten.length
      _ ≤ ((pieces payload).take k).flatten.length + ((pieces payload).drop k).flatten.length :=
          Nat.le_add_right ..
      _ = payload.length := by
          rw [← List.length_append, ← List.flatten_append, List.take_append_drop, flatten_pieces]

theorem pieces_of_le {payload : Str} (h : payload.length ≤ maxLength) : pieces payload = [payload] := by
  rw [pieces, if_pos h]

theorem WritePacket_of_lt {payload : Str} (h : maxLength < payload.length) (w : Writer)
    (addr : Addr) : WritePacket w addr payload = send w addr (pieces payload) 0 := by
  have hpos : 0 < payload.length := Nat.lt_of_le_of_lt (Nat.zero_le _) h
  rw [WritePacket, if_neg (Nat.not_le.mpr h), writeLoop_eq_send _ _ _ _ hpos, List.drop_zero]

/-- What is reported when a packet fails: the bytes of the packets before it, and those that the
writer has taken of this one. -/
theorem WritePacket_failing {w : Writer} {k m : Nat} {payload : Str} (h : w.fails = some (k, m))
    (hk : k < (pieces payload).length) (addr : Addr) :
    ∃ p ∈ pieces payload, (WritePacket w addr payload).1 =
      ⟨completed w payload + min m (packet addr p).length, true⟩ := by
  have hcompleted : completed w payload = ((pieces payload).take k).flatten.length := by
    rw [completed, h]
  by_cases hlong : maxLength < payload.length
  · rcases send_failing addr h hk 0 with ⟨p, hp, hsend⟩
    refine ⟨p, hp, ?_⟩
    rw [WritePacket_of_lt hlong, hsend, hcompleted, Nat.zero_add]
  · have hpieces := pieces_of_le (Nat.not_lt.mp hlong)
    have hzero : k = 0 := by
      rw [hpieces, List.length_singleton] at hk
      omega
    subst hzero
    refine ⟨payload, by simp [hpieces], ?_⟩
    rw [WritePacket, if_pos (Nat.not_lt.mp hlong), hcompleted]
    simp [writePacket, Writer.write, h]

theorem WritePacket_accepted {w : Writer} {payload : Str} (h : ¬ w.FailsOn (pieces payload))
    (addr : Addr) :
    (WritePacket w addr payload).1 =
      ⟨if maxLength < payload.length then payload.length else (packet addr payload).length, false⟩ := by
  split
  · rename_i hlong
    rw [WritePacket_of_lt hlong, send_accepted addr h, flatten_pieces, Nat.zero_add]
  · rename_i hshort
    rw [pieces_of_le (Nat.not_lt.mp hshort)] at h
    rw [WritePacket, if_pos (Nat.not_lt.mp hshort), writePacket, Writer.write]
    split
    · rfl
    · rfl
    · rename_i m hfails
      exact absurd ⟨0, m, hfails, Nat.one_pos⟩ h

/-- The report is right exactly for payloads that are split, over a writer that takes nothing of
the packet it fails on. -/
theorem reportsWritten_iff (w : Writer) (addr : Addr) (payload : Str) :
    ReportsWritten w addr payload ↔ CountsPayload w payload := by
  have hframe := length_packet addr payload
  by_cases hfails : w.FailsOn (pieces payload)
  · have hcopy := hfails
    rcases hcopy with ⟨k, m, hsome, hk⟩
    rcases WritePacket_failing hsome hk addr with ⟨p, -, hresult⟩
    have hcount : CountsPayload w payload ↔ m = 0 := by
      rw [CountsPayload, hsome]
      simp only [if_pos hk]
    rw [hcount]
    constructor
    · intro h
      have hn := congrArg Wrote.n (hresult.symm.trans (h.failing hfails).1)
      have hlen := length_packet addr p
      simp only at hn
      omega
    · intro hm
      refine ⟨fun hnot => absurd hfails hnot, fun _ => ⟨?_, completed_le w payload⟩⟩
      rw [hresult, hm, Nat.zero_min, Nat.add_zero]
  · have hcount : CountsPayload w payload ↔ maxLength < payload.length := by
      rw [CountsPayload]
      split
      · rfl
      · rename_i k m hsome
        rw [if_neg fun hk => hfails ⟨k, m, hsome, hk⟩]
    have hresult := WritePacket_accepted hfails addr
    rw [hcount]
    constructor
    · intro h
      have hn := congrArg Wrote.n (hresult.symm.trans (h.accepted hfails))
      simp only at hn
      split at hn
      · assumption
      · omega
    · intro hlong
      refine ⟨fun _ => ?_, fun hfail => absurd hfail hfails⟩
      rw [hresult, if_pos hlong]

/-- Two bytes to 1.2.3.4:80 are reported as thirteen. -/
theorem writePacket_counts_header :
    (WritePacket ⟨[], none⟩ [1, 1, 2, 3, 4, 0, 80] (str "hi")).1 = ⟨13, false⟩ ∧
      ¬ ReportsWritten ⟨[], none⟩ [1, 1, 2, 3, 4, 0, 80] (str "hi") := by
  have hresult : (WritePacket ⟨[], none⟩ [1, 1, 2, 3, 4, 0, 80] (str "hi")).1 = ⟨13, false⟩ := by
    decide +kernel
  refine ⟨hresult, fun h => ?_⟩
  have haccepted := h.accepted fun ⟨_, _, hsome, _⟩ => nomatch hsome
  rw [hresult] at haccepted
  exact absurd haccepted (by decide)

/-! ## Reading -/

inductive ReadStop where
  /-- "read addr error" -/
  | readAddr
  /-- "read length error" -/
  | readLength
  /-- "packet invalid" -/
  | packetInvalid
  /-- "read crlf error" -/
  | readCrlf
  /-- "read packet error" -/
  | readPacket
  /-- The error of the connection. -/
  | conn (err : ReadError)
  /-- A slice bound is out of range. -/
  | panicked
deriving DecidableEq

/-- `socks5.ReadAddr` into a buffer of `n` bytes. -/
def readAddr (segs : List Str) (n : Nat) : Option Addr × List Str :=
  if n < maxAddrLen then (none, segs)
  else
    match (readAddrFrom Prog.done).onConn segs with
    | (.ok addr, segs) => (addr, segs)
    | (.error _, segs) => (none, segs)

structure ReadResult where
  uAddr : Option UDPAddr
  payload : Str
  remain : Int

/-- `ReadPacket` into a buffer of `n` bytes. An address that was read has no index out of range
for `UDPAddr`, which makes a copy before the buffer is written again. -/
def readPacket (segs : List Str) (n : Nat) : Except ReadStop ReadResult × List Str :=
  match readAddr segs n with
  | (none, segs) => (.error .readAddr, segs)
  | (some addr, segs) =>
      let uAddr := (Addr.udpAddr addr).join
      match readFull segs 2 with
      | (.error _, segs) => (.error .readLength, segs)
      | (.ok b, segs) =>
          let total := uint16 b
          if maxLength < total then (.error .packetInvalid, segs)
          else
            match readFull segs 2 with
            | (.error _, segs) => (.error .readCrlf, segs)
            | (.ok _, segs) =>
                let length := if total < n then total else n
                match readFull segs length with
                | (.error _, segs) => (.error .readPacket, segs)
                | (.ok payload, segs) => (.ok ⟨uAddr, payload, (total : Int) - length⟩, segs)

/-- `early` says whether the connection reports its end together with the last bytes. -/
structure PacketConn where
  remain : Int
  rAddr : Option UDPAddr
  early : Bool
  segs : List Str

def PacketConn.readFrom (pc : PacketConn) (n : Nat) :
    Except ReadStop (Packet (Option UDPAddr) UInt8) × PacketConn :=
  if pc.remain ≠ 0 then
    let length := if pc.remain < n then pc.remain else n
    if length < 0 then (.error .panicked, pc)
    else
      match readOnce pc.early pc.segs length.toNat with
      | (_, some e, segs) => (.error (.conn e), { pc with segs })
      | (b, none, segs) =>
          let remain := pc.remain - b.length
          (.ok ⟨pc.rAddr, b⟩, { pc with remain, rAddr := if remain = 0 then none else pc.rAddr, segs })
  else
    match readPacket pc.segs n with
    | (.error e, segs) => (.error e, { pc with segs })
    | (.ok r, segs) =>
        (.ok ⟨r.uAddr, r.payload⟩,
          if r.remain ≠ 0 then { pc with remain := r.remain, rAddr := r.uAddr, segs }
          else { pc with segs })

/-! ### A packet that was written -/

theorem readAddr_encode {segs : List Str} {t : Target} {rest : Str} {n : Nat}
    (hn : maxAddrLen ≤ n) (h : segs.flatten = t.encode ++ rest) :
    ∃ segs', readAddr segs n = (some t.encode, segs') ∧ segs'.flatten = rest ∧
      segs'.length ≤ segs.length := by
  have hexec : (readAddrFrom Prog.done).exec segs.flatten = ⟨.done (some t.encode), rest, []⟩ := by
    rw [h, exec_readAddrFrom]
    rfl
  rcases onConn_of_exec hexec with ⟨segs', hconn, hrest⟩
  have hlen := onConn_length_le (readAddrFrom Prog.done) segs
  rw [hconn] at hlen
  exact ⟨segs', by rw [readAddr, if_neg (Nat.not_lt.mpr hn), hconn], hrest, hlen⟩

theorem readFull_segs {segs : List Str} {bs rest : Str} {n : Nat} (h : segs.flatten = bs ++ rest)
    (hn : bs.length = n) :
    ∃ segs', readFull segs n = (.ok bs, segs') ∧ segs'.flatten = rest ∧
      segs'.length ≤ segs.length := by
  rcases readFull_append h hn with ⟨segs', hread, hrest⟩
  have hlen := readFull_length_le segs n
  rw [hread] at hlen
  exact ⟨segs', hread, hrest, hlen⟩

/-- The first read of a packet fills the buffer or takes the packet. -/
theorem readPacket_packet {segs : List Str} {t : Target} {payload rest : Str} {n : Nat}
    (hn : maxAddrLen ≤ n) (hlen : payload.length ≤ maxLength)
    (h : segs.flatten = packet t.encode payload ++ rest) :
    ∃ segs', readPacket segs n =
        (.ok ⟨t.udpAddr, payload.take n, ((payload.drop n).length : Nat)⟩, segs') ∧
      segs'.flatten = payload.drop n ++ rest ∧ weight segs' < weight segs := by
  have haddr : segs.flatten = t.encode ++
      (putUint16 payload.length ++ (crlf ++ (payload.take n ++ (payload.drop n ++ rest)))) := by
    rw [h, packet, ← List.append_assoc (payload.take n), List.take_append_drop]
    simp only [List.append_assoc]
  rcases readAddr_encode hn haddr with ⟨segs₁, hread₁, hflat₁, hlen₁⟩
  rcases readFull_segs (n := 2) hflat₁ rfl with ⟨segs₂, hread₂, hflat₂, hlen₂⟩
  rcases readFull_segs (n := 2) hflat₂ rfl with ⟨segs₃, hread₃, hflat₃, hlen₃⟩
  have htotal : uint16 (putUint16 payload.length) = payload.length :=
    uint16_putUint16 (Nat.lt_of_le_of_lt hlen (by decide))
  have hlength : (if payload.length < n then payload.length else n) = (payload.take n).length := by
    rw [List.length_take]
    split <;> omega
  rcases readFull_segs hflat₃ rfl with ⟨segs₄, hread₄, hflat₄, hlen₄⟩
  refine ⟨segs₄, ?_, hflat₄, ?_⟩
  · have hremain : (payload.length : Int) - (payload.take n).length =
        ((payload.drop n).length : Nat) := by
      rw [List.length_take, List.length_drop]
      omega
    simp only [readPacket, hread₁, hread₂, htotal, if_neg (Nat.not_lt.mpr hlen), hread₃, hread₄,
      udpAddr_encode, Option.join_some, hlength, hremain]
  · rw [weight, weight, hflat₄, haddr]
    simp only [List.length_append, putUint16, crlf, List.length_cons, List.length_nil]
    omega

/-! ### Packets one after another -/

structure Sent where
  target : Target
  payload : Str

def Sent.packet (c : Sent) : Packet (Option UDPAddr) UInt8 := ⟨c.target.udpAddr, c.payload⟩

def Sent.pieces (c : Sent) : List Sent := (Trojan.pieces c.payload).map fun p => ⟨c.target, p⟩

def writeAll (w : Writer) (calls : List Sent) : Writer :=
  calls.foldl (fun w c => (WritePacket w c.target.encode c.payload).2) w

/-- `bs` is left of a packet from `label`, and the packets of `sent` follow. -/
structure PacketConn.Holds (pc : PacketConn) (label : Option UDPAddr) (bs : Str)
    (sent : List Sent) : Prop where
  remain : pc.remain = bs.length
  rAddr : pc.rAddr = if bs = [] then none else label
  stream : pc.segs.flatten = bs ++ sent.flatMap fun c => Trojan.packet c.target.encode c.payload
  short : ∀ c ∈ sent, c.payload.length ≤ maxLength

/-- The last bytes of the stream are read together with the header of their packet, if the
buffers have 259 bytes. -/
def EndsWhole (bs : Str) (sent : List Sent) : Prop :=
  match sent.getLast? with
  | none => bs = []
  | some c => c.payload.length ≤ maxAddrLen

theorem endsWhole_cons {bs : Str} {c : Sent} {sent : List Sent} :
    EndsWhole bs (c :: sent) ↔ EndsWhole (c.payload.drop maxAddrLen) sent := by
  cases sent with
  | nil => exact List.drop_eq_nil_iff.symm
  | cons d sent => rfl

theorem EndsWhole.of_imp {bs bs' : Str} {sent : List Sent} (h : EndsWhole bs sent)
    (hbs : bs = [] → bs' = []) : EndsWhole bs' sent := by
  cases sent with
  | nil => exact hbs h
  | cons c sent => exact h

theorem packet_ne_nil (addr payload : Str) : Trojan.packet addr payload ≠ [] := by
  simp [Trojan.packet, crlf]

section Holds

variable {pc : PacketConn} {label : Option UDPAddr} {bs : Str} {sent : List Sent} {n : Nat}

/-- The rest of a packet is read on, unless its last bytes come together with the end. -/
theorem PacketConn.Holds.resumes (h : pc.Holds label bs sent) (hbs : bs ≠ []) (hn : 0 < n) :
    ∃ out rest pc', bs = out ++ rest ∧ pc'.early = pc.early ∧ weight pc'.segs < weight pc.segs ∧
      ((pc.readFrom n = (.ok ⟨label, out⟩, pc') ∧ pc'.Holds label rest sent ∧
          (pc.early = false ∨ rest ≠ [] ∨ sent ≠ [])) ∨
        (pc.early = true ∧ rest = [] ∧ sent = []) ∧ pc.readFrom n = (.error (.conn .eof), pc')) := by
  have hpos := List.length_pos_iff.mpr hbs
  have hne : pc.remain ≠ 0 := by
    rw [h.remain]
    omega
  have hlength : (if pc.remain < (n : Int) then pc.remain else (n : Int)) =
      ((min bs.length n : Nat) : Int) := by
    rw [h.remain]
    split <;> omega
  have hrAddr : pc.rAddr = label := by rw [h.rAddr, if_neg hbs]
  rcases readOnce_append pc.early (n := min bs.length n) h.stream (by omega) (by omega) with
    ⟨out, rest, segs, hread, rfl, hflat, hweight⟩
  have hnonneg : ¬ ((min (out ++ rest).length n : Nat) : Int) < 0 := by omega
  have hempty : segs.flatten = [] ↔ rest = [] ∧ sent = [] := by
    rw [hflat, List.append_eq_nil_iff, List.flatMap_eq_nil_iff]
    refine and_congr_right fun _ => ⟨fun hall => ?_, fun hsent => by simp [hsent]⟩
    exact List.eq_nil_iff_forall_not_mem.mpr fun c hc => packet_ne_nil _ _ (hall c hc)
  by_cases hend : pc.early = true ∧ segs.flatten = []
  · have hcond : (pc.early && segs.flatten.isEmpty) = true := by simp [hend]
    rw [if_pos hcond] at hread
    refine ⟨out, rest, { pc with segs }, rfl, rfl, hweight, Or.inr ⟨⟨hend.1, hempty.mp hend.2⟩, ?_⟩⟩
    simp only [PacketConn.readFrom, if_pos hne, hlength, if_neg hnonneg, Int.toNat_natCast, hread]
  · have hcond : ¬ (pc.early && segs.flatten.isEmpty) = true := by simpa using hend
    rw [if_neg hcond] at hread
    have hremain : pc.remain - out.length = (rest.length : Nat) := by
      rw [h.remain, List.length_append]
      omega
    refine ⟨out, rest, { pc with
        remain := rest.length
        rAddr := if ((rest.length : Nat) : Int) = 0 then none else label
        segs }, rfl, rfl, hweight, Or.inl ⟨?_, ⟨rfl, ?_, hflat, h.short⟩, ?_⟩⟩
    · simp only [PacketConn.readFrom, if_pos hne, hlength, if_neg hnonneg, Int.toNat_natCast, hread,
        hremain, hrAddr]
    · simp
    · rw [hempty] at hend
      cases hearly : pc.early with
      | false => exact Or.inl rfl
      | true =>
          by_cases hrest : rest = []
          · exact Or.inr (Or.inr fun hsent => hend ⟨hearly, hrest, hsent⟩)
          · exact Or.inr (Or.inl hrest)

theorem PacketConn.Holds.begins {c : Sent} (h : pc.Holds label [] (c :: sent))
    (hn : maxAddrLen ≤ n) :
    ∃ pc', pc.readFrom n = (.ok ⟨c.target.udpAddr, c.payload.take n⟩, pc') ∧
      pc'.early = pc.early ∧ pc'.Holds c.target.udpAddr (c.payload.drop n) sent ∧
      weight pc'.segs < weight pc.segs := by
  have hzero : ¬ pc.remain ≠ 0 := by simp [h.remain]
  have hrAddr : pc.rAddr = none := h.rAddr
  have hstream := h.stream
  rw [List.nil_append, List.flatMap_cons] at hstream
  rcases readPacket_packet hn (h.short c List.mem_cons_self) hstream with
    ⟨segs, hread, hflat, hweight⟩
  refine ⟨{ pc with
      remain := (c.payload.drop n).length
      rAddr := if c.payload.drop n = [] then none else c.target.udpAddr
      segs }, ?_, rfl, ⟨rfl, rfl, hflat, fun d hd => h.short d (List.mem_cons_of_mem c hd)⟩, hweight⟩
  simp only [PacketConn.readFrom, if_neg hzero, hread]
  by_cases hnil : c.payload.drop n = []
  · simp [hnil, h.remain, hrAddr]
  · have hlen : ((c.payload.drop n).length : Int) ≠ 0 := by
      have := List.length_pos_iff.mpr hnil
      omega
    rw [if_pos hlen, if_neg hnil]

theorem PacketConn.Holds.ends (h : pc.Holds label [] []) (hn : maxAddrLen ≤ n) :
    ∃ pc', pc.readFrom n = (.error .readAddr, pc') ∧ pc'.early = pc.early ∧
      pc'.Holds label [] [] ∧ weight pc'.segs ≤ weight pc.segs := by
  have hzero : ¬ pc.remain ≠ 0 := by simp [h.remain]
  have hnil : pc.segs.flatten = [] := h.stream
  rcases readFull_eof (n := 0) hnil with ⟨segs, hread, hsegs⟩
  have hgone := (readFull_eq_error hread).1
  have hconn : (readAddrFrom Prog.done).onConn pc.segs = (.error .eof, segs) := by
    rw [readAddrFrom, Prog.onConn, hread]
  have haddr : readAddr pc.segs n = (none, segs) := by
    rw [readAddr, if_neg (Nat.not_lt.mpr hn), hconn]
  refine ⟨{ pc with segs }, ?_, rfl, ⟨h.remain, h.rAddr, hsegs, h.short⟩, ?_⟩
  · simp only [PacketConn.readFrom, if_neg hzero, readPacket, haddr]
  · simp [hgone, weight]

end Holds

/-- The connection stands where the calls have left the packets, and no rest of a packet comes
together with the end. -/
def PacketConn.Sim (pc : PacketConn) (l : Left (Option UDPAddr) UInt8) : Prop :=
  ∃ label bs sent, l = .resume label bs (sent.map Sent.packet) ∧ pc.Holds label bs sent ∧
    (pc.early = false ∨ EndsWhole bs sent)

theorem PacketConn.Sim.readFrom {pc : PacketConn} {l : Left (Option UDPAddr) UInt8} {n : Nat}
    (h : pc.Sim l) (hn : maxAddrLen ≤ n) :
    (∃ l', Serves .readAddr l (pc.readFrom n).1 l' ∧ (pc.readFrom n).2.Sim l') ∧
      weight (pc.readFrom n).2.segs ≤ weight pc.segs ∧
      ((∃ e, (pc.readFrom n).1 = .error e) ∨ weight (pc.readFrom n).2.segs < weight pc.segs) := by
  rcases h with ⟨label, bs, sent, rfl, h, hwhole⟩
  by_cases hbs : bs = []
  · subst hbs
    cases sent with
    | nil =>
        rcases h.ends hn with ⟨pc', hread, hearly, hholds, hweight⟩
        rw [← hearly] at hwhole
        rw [hread]
        exact ⟨⟨_, .finish, _, _, _, rfl, hholds, hwhole⟩, hweight, Or.inl ⟨_, rfl⟩⟩
    | cons c sent =>
        rcases h.begins hn with ⟨pc', hread, hearly, hholds, hweight⟩
        have hserve : Serves ReadStop.readAddr (.all (c.packet :: sent.map Sent.packet))
            (.ok ⟨c.target.udpAddr, c.payload.take n⟩)
            (.resume c.target.udpAddr (c.payload.drop n) (sent.map Sent.packet)) :=
          .take_next _ c.packet (sent.map Sent.packet) n
        have hwhole' : pc'.early = false ∨ EndsWhole (c.payload.drop n) sent := by
          rw [hearly]
          refine hwhole.imp_right fun hwhole => (endsWhole_cons.mp hwhole).of_imp fun hnil => ?_
          rw [List.drop_eq_nil_iff] at hnil ⊢
          omega
        rw [hread]
        exact ⟨⟨_, hserve, _, _, _, rfl, hholds, hwhole'⟩, Nat.le_of_lt hweight, Or.inr hweight⟩
  · have hpos : 0 < n := Nat.lt_of_lt_of_le (by decide) hn
    rcases h.resumes hbs hpos with ⟨out, rest, pc', rfl, hearly, hweight,
      ⟨hread, hholds, -⟩ | ⟨⟨htrue, -, rfl⟩, -⟩⟩
    · have hserve : Serves ReadStop.readAddr (.resume label (out ++ rest) (sent.map Sent.packet))
          (.ok ⟨label, out⟩) (.resume label rest (sent.map Sent.packet)) := by
        rw [Left.resume_of_ne_nil hbs]
        exact .resume
      have hwhole' : pc'.early = false ∨ EndsWhole rest sent := by
        rw [hearly]
        refine hwhole.imp_right fun hwhole => hwhole.of_imp fun hnil => ?_
        exact (List.append_eq_nil_iff.mp hnil).2
      rw [hread]
      exact ⟨⟨_, hserve, _, _, _, rfl, hholds, hwhole'⟩, Nat.le_of_lt hweight, Or.inr hweight⟩
    · rcases hwhole with hfalse | hwhole
      · cases htrue.symm.trans hfalse
      · exact absurd hwhole hbs

/-- Where the last rest of a packet comes together with the end, reads of 259 bytes come to the
error of the connection. -/
theorem PacketConn.Holds.loses {pc : PacketConn} {label : Option UDPAddr} {bs : Str}
    {sent : List Sent} (h : pc.Holds label bs sent) (hearly : pc.early = true)
    (hwhole : ¬ EndsWhole bs sent) :
    ∃ k, .error (.conn .eof) ∈ (readAll PacketConn.readFrom pc (List.replicate k maxAddrLen)).1 := by
  induction hw : weight pc.segs using Nat.strong_induction_on generalizing pc label bs sent with
  | _ w ih =>
      subst hw
      by_cases hbs : bs = []
      · subst hbs
        cases sent with
        | nil => exact absurd rfl hwhole
        | cons c sent =>
            rcases h.begins (Nat.le_refl _) with ⟨pc', hread, hsame, hholds, hweight⟩
            rw [endsWhole_cons] at hwhole
            rcases ih _ hweight hholds (hsame.trans hearly) hwhole rfl with ⟨k, hk⟩
            refine ⟨k + 1, ?_⟩
            rw [List.replicate_succ, readAll, hread]
            exact List.mem_cons_of_mem _ hk
      · rcases h.resumes hbs (n := maxAddrLen) (by decide) with ⟨out, rest, pc', rfl, hsame, hweight,
          ⟨hread, hholds, hmore⟩ | ⟨-, hread⟩⟩
        · have hwhole' : ¬ EndsWhole rest sent := by
            cases sent with
            | nil =>
                rcases hmore with hfalse | hrest | hnil
                · cases hearly.symm.trans hfalse
                · exact hrest
                · exact absurd rfl hnil
            | cons c sent => exact hwhole
          rcases ih _ hweight hholds (hsame.trans hearly) hwhole' rfl with ⟨k, hk⟩
          refine ⟨k + 1, ?_⟩
          rw [List.replicate_succ, readAll, hread]
          exact List.mem_cons_of_mem _ hk
        · refine ⟨1, ?_⟩
          rw [List.replicate_one, readAll, hread]
          exact List.mem_cons_self

theorem reads_readFrom : Reads ReadStop.readAddr PacketConn.readFrom PacketConn.Sim
    (fun n => maxAddrLen ≤ n) (fun _ => true) (fun pc => weight pc.segs) where
  serves _ _ _ hn h := (h.readFrom hn).1
  rank_le _ _ _ hn h := (h.readFrom hn).2.1
  takes _ _ _ hn _ h := (h.readFrom hn).2.2

/-! ### What is written -/

theorem send_stream (w : Writer) (h : w.fails = none) (addr : Addr) (ps : List Str) (sent : Nat) :
    (send w addr ps sent).2 = ⟨w.stream ++ ps.flatMap (packet addr), none⟩ := by
  induction ps generalizing w sent with
  | nil =>
      cases w
      cases h
      simp [send]
  | cons p ps ih =>
      have hw : writePacket w addr p =
          (⟨(packet addr p).length, false⟩, ⟨w.stream ++ packet addr p, none⟩) := by
        simp [writePacket, Writer.write, h]
      simp only [send, hw, Bool.false_eq_true, if_false, ih ⟨_, none⟩ rfl, List.flatMap_cons,
        List.append_assoc]

theorem WritePacket_stream (w : Writer) (h : w.fails = none) (c : Sent) :
    (WritePacket w c.target.encode c.payload).2 =
      ⟨w.stream ++ c.pieces.flatMap fun p => packet p.target.encode p.payload, none⟩ := by
  have hpieces : (c.pieces.flatMap fun p => packet p.target.encode p.payload) =
      (pieces c.payload).flatMap (packet c.target.encode) := by
    rw [Sent.pieces, List.flatMap_map]
  rw [hpieces]
  by_cases hlong : maxLength < c.payload.length
  · rw [WritePacket_of_lt hlong, send_stream w h]
  · have hle := Nat.not_lt.mp hlong
    rw [WritePacket, if_pos hle, pieces_of_le hle, List.flatMap_singleton]
    simp [writePacket, Writer.write, h]

theorem writeAll_stream (calls : List Sent) (w : Writer) (h : w.fails = none) :
    writeAll w calls = ⟨w.stream ++ (calls.flatMap Sent.pieces).flatMap
      fun p => packet p.target.encode p.payload, none⟩ := by
  induction calls generalizing w with
  | nil =>
      cases w
      cases h
      simp [writeAll]
  | cons c calls ih =>
      have hstep : writeAll w (c :: calls) =
          writeAll (WritePacket w c.target.encode c.payload).2 calls := rfl
      rw [hstep, WritePacket_stream w h, ih _ rfl, List.flatMap_cons, List.flatMap_append,
        List.append_assoc]

/-- Splitting a datagram changes neither its bytes nor their address. -/
theorem tagged_pieces (c : Sent) :
    (c.pieces.map Sent.packet).flatMap Packet.tagged = c.packet.tagged := by
  calc (c.pieces.map Sent.packet).flatMap Packet.tagged
    _ = ((pieces c.payload).map (List.map (c.target.udpAddr, ·))).flatten := by
        simp only [Sent.pieces, List.map_map, List.flatMap_def]
        rfl
    _ = (pieces c.payload).flatten.map (c.target.udpAddr, ·) := List.map_flatten.symm
    _ = c.packet.tagged := by rw [flatten_pieces, Sent.packet, Packet.tagged]

theorem tagged_all_pieces (calls : List Sent) :
    (Left.all ((calls.flatMap Sent.pieces).map Sent.packet)).tagged =
      calls.flatMap fun c => c.packet.tagged := by
  induction calls with
  | nil => rfl
  | cons c calls ih =>
      simp only [Left.all, Left.tagged, Option.map_none, Option.getD_none, List.nil_append] at ih ⊢
      rw [List.flatMap_cons, List.map_append, List.flatMap_append, tagged_pieces, ih,
        List.flatMap_cons]

/-- Datagrams of any length, written one after another, come out of the stream as they went in:
each run of bytes has the address of its packet, the runs and what is left make up the payloads in
order, `remain` and `rAddr` are about what is left of the packet begun, and the end comes after the
last byte. -/
def Lossless (calls : List Sent) (early : Bool) (segs : List Str) (ns : List Nat) : Prop :=
  let reads := readAll PacketConn.readFrom ⟨0, none, early, segs⟩ ns
  let payloads := calls.flatMap fun c => c.packet.tagged
  ∃ left : Left (Option UDPAddr) UInt8,
    Conveys .readAddr (.all ((calls.flatMap Sent.pieces).map Sent.packet)) reads.1 left ∧
    reads.2.remain = left.unread ∧ reads.2.rAddr = left.begun.bind Packet.label ∧
    runsTagged reads.1 ++ left.tagged = payloads ∧
    (∀ e, .error e ∈ reads.1 → e = .readAddr ∧ runsTagged reads.1 = payloads) ∧
    (weight segs < ns.length → runsTagged reads.1 = payloads)

theorem PacketConn.Sim.lossless {calls : List Sent} {early : Bool} {segs : List Str}
    (h : PacketConn.Sim ⟨0, none, early, segs⟩
      (.all ((calls.flatMap Sent.pieces).map Sent.packet))) {ns : List Nat}
    (hns : ∀ n ∈ ns, maxAddrLen ≤ n) : Lossless calls early segs ns := by
  have htagged := tagged_all_pieces calls
  rcases reads_readFrom.conveys ns hns h with ⟨left, hconvey, hsim⟩
  refine ⟨left, hconvey, ?_, ?_, by rw [hconvey.tagged, htagged], ?_, ?_⟩
  · rcases hsim with ⟨label, bs, sent, rfl, hholds, -⟩
    rw [hholds.remain, Left.unread_resume]
  · rcases hsim with ⟨label, bs, sent, rfl, hholds, -⟩
    rw [hholds.rAddr]
    cases bs <;> rfl
  · intro e he
    exact ⟨(hconvey.of_error he).1, by rw [hconvey.runsTagged_of_error he, htagged]⟩
  · intro hlong
    rcases reads_readFrom.error_mem ns hns h (by simpa using hlong) with ⟨e, he⟩
    rw [hconvey.runsTagged_of_error he, htagged]

theorem holds_start {calls : List Sent} (early : Bool) {segs : List Str}
    (hsegs : segs.flatten = (writeAll ⟨[], none⟩ calls).stream) :
    PacketConn.Holds ⟨0, none, early, segs⟩ none [] (calls.flatMap Sent.pieces) := by
  refine ⟨rfl, rfl, ?_, ?_⟩
  · rw [writeAll_stream calls ⟨[], none⟩ rfl] at hsegs
    exact hsegs
  · intro c hc
    rcases List.mem_flatMap.mp hc with ⟨d, -, hd⟩
    rcases List.mem_map.mp hd with ⟨p, hp, rfl⟩
    exact length_le_of_mem_pieces hp

/-- Through all buffers of at least 259 bytes, and however the connection cuts the stream, nothing
is lost if and only if the connection reports its end in a read of its own, or the last packet
fits into 259 bytes. Otherwise the last bytes can come together with the end, in a read of the rest
of a packet, and `ReadFrom` drops them. -/
theorem trojan_lossless_iff (calls : List Sent) (early : Bool) (segs : List Str)
    (hsegs : segs.flatten = (writeAll ⟨[], none⟩ calls).stream) :
    (∀ ns : List Nat, (∀ n ∈ ns, 259 ≤ n) → Lossless calls early segs ns) ↔
      early = false ∨
        ∀ c, (calls.flatMap Sent.pieces).getLast? = some c → c.payload.length ≤ 259 := by
  have hstart := holds_start early hsegs
  have hends : EndsWhole [] (calls.flatMap Sent.pieces) ↔
      ∀ c, (calls.flatMap Sent.pieces).getLast? = some c → c.payload.length ≤ 259 := by
    unfold EndsWhole
    cases (calls.flatMap Sent.pieces).getLast? with
    | none => simp
    | some c => simp [maxAddrLen]
  rw [← hends]
  constructor
  · intro hall
    by_contra hnot
    obtain ⟨hearly, hwhole⟩ := not_or.mp hnot
    rcases hstart.loses (Bool.not_eq_false _ ▸ hearly) hwhole with ⟨k, hk⟩
    have hroom : ∀ n ∈ List.replicate k maxAddrLen, 259 ≤ n := by
      intro n hn
      rw [List.eq_of_mem_replicate hn]
      decide
    rcases hall _ hroom with ⟨-, -, -, -, -, herror, -⟩
    cases (herror _ hk).1
  · intro hends ns hns
    exact PacketConn.Sim.lossless ⟨none, [], _, rfl, hstart, hends⟩ hns

/-- Two bytes to 1.2.3.4:80, the stream in one segment and its end with it, into buffers of 300
bytes. -/
theorem trojan_lossless_hi :
    let call : Sent := ⟨⟨.ipv4 [1, 2, 3, 4] rfl, 0, 80⟩, str "hi"⟩
    runsTagged (readAll PacketConn.readFrom ⟨0, none, true, [(writeAll ⟨[], none⟩ [call]).stream]⟩
      (List.replicate 20 300)).1 = call.packet.tagged := by
  intro call
  have hroom : ∀ n ∈ List.replicate 20 300, 259 ≤ n := by decide
  have hlast : ∀ c, ([call].flatMap Sent.pieces).getLast? = some c → c.payload.length ≤ 259 := by
    have hpieces : ([call].flatMap Sent.pieces).getLast? = some call := by
      rw [List.flatMap_singleton, Sent.pieces, pieces_of_le (by decide)]
      rfl
    intro c hc
    cases hpieces.symm.trans hc
    decide
  have hlossless := (trojan_lossless_iff [call] true [(writeAll ⟨[], none⟩ [call]).stream]
    (List.append_nil _)).mpr (Or.inr hlast) (List.replicate 20 300) hroom
  rcases hlossless with ⟨left, -, -, -, -, -, hall⟩
  have hlong : weight [(writeAll ⟨[], none⟩ [call]).stream] < (List.replicate 20 300).length := by
    decide +kernel
  have hruns := hall hlong
  rwa [List.flatMap_singleton] at hruns

/-- A packet of 260 bytes, the stream in one segment and its end with it: the second read has the
last byte and drops it, and the end stays behind it with `remain` set. -/
theorem trojan_loses_rest :
    let call : Sent := ⟨⟨.ipv4 [1, 2, 3, 4] rfl, 0, 80⟩, List.replicate 260 7⟩
    let reads := readAll PacketConn.readFrom
      ⟨0, none, true, [(writeAll ⟨[], none⟩ [call]).stream]⟩ [259, 259, 259]
    reads.1 = [.ok ⟨call.target.udpAddr, List.replicate 259 7⟩, .error (.conn .eof),
        .error (.conn .eof)] ∧
      reads.2.remain = 1 ∧
      ¬ Lossless [call] true [(writeAll ⟨[], none⟩ [call]).stream] [259, 259, 259] := by
  intro call reads
  have hreads : reads.1 = [.ok ⟨call.target.udpAddr, List.replicate 259 7⟩, .error (.conn .eof),
      .error (.conn .eof)] := by
    decide +kernel
  refine ⟨hreads, by decide +kernel, ?_⟩
  rintro ⟨left, -, -, -, -, herror, -⟩
  have hmem : .error (.conn .eof) ∈ reads.1 := by
    rw [hreads]
    exact List.mem_cons_of_mem _ List.mem_cons_self
  cases (herror _ hmem).1

end RuleBaseProxy.Trojan
