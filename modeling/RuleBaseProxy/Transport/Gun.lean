import RuleBaseProxy.Lib.GoString
import RuleBaseProxy.Lib.PacketStream
import RuleBaseProxy.Lib.Uvarint

/-! # The gun stream

`Conn.Write` wraps what it is given into a frame: the five bytes of a gRPC header,
one byte for the protobuf field, the length as a varint, the bytes. `Conn.Read`
skips the first six, believes the varint and keeps in `remain` how much of a
frame its callers' buffers have had no room for. `int` has 64 bits.
-/

namespace RuleBaseProxy.Gun

open Go ChunkedStream Duplex PacketStream Uvarint

inductive Stop where
  /-- The error of `RoundTrip`. -/
  | roundTrip
  /-- `net.ErrClosed` -/
  | closed
  /-- `io.ErrClosedPipe` -/
  | closedPipe
  | conn (err : ReadError)
  /-- `ErrInvalidLength` -/
  | invalidLength
  /-- A slice bound is out of range. -/
  | panicked
deriving DecidableEq

structure Conn where
  err : Option Stop
  /-- Whether there is a `response`. -/
  response : Bool
  remain : Int
  /-- What `br` has yet to give. -/
  segs : List Str

inductive RoundTrip where
  | failed
  /-- A response, with the segments of its body. -/
  | answered (body : List Str)

/-- The connection after `initRequest`; `closed` if `Close` came before the response. -/
def initRequest (closed : Bool) : RoundTrip → Conn
  | .failed => ⟨some .roundTrip, false, 0, []⟩
  | .answered body => if closed then ⟨none, false, 0, []⟩ else ⟨none, true, 0, body⟩

/-! ## Write -/

/-- `binary.BigEndian.PutUint32` of `uint32(n)`. -/
def putUint32 (n : Nat) : Str :=
  [UInt8.ofNat (n / 2 ^ 24), UInt8.ofNat (n / 2 ^ 16), UInt8.ofNat (n / 2 ^ 8), UInt8.ofNat n]

/-- The bytes `Write` gives to the pipe. -/
def frame (b : Str) : Str :=
  let varuint := putUvarint b.length
  let grpcHeader := 0 :: putUint32 (varuint.length + 1 + b.length)
  let protobufHeader := 0x0a :: varuint
  grpcHeader ++ protobufHeader ++ b

/-- What `Write` returns when the pipe returns `err`. -/
def Conn.write (g : Conn) (b : Str) (err : Option Stop) : Nat × Option Stop :=
  (b.length, if err = some .closedPipe ∧ g.err.isSome then g.err else err)

/-! ## Read -/

/-- `int(v)` of a `uint64`. -/
def toInt (v : Nat) : Int := if v < 2 ^ 63 then v else v - 2 ^ 64

structure Returned where
  bytes : Str
  err : Option Stop
deriving DecidableEq

/-- The read of a payload when `remain` or a new frame has one. -/
def Conn.readPayload (g : Conn) (segs : List Str) (size : Int) : Returned × Conn :=
  let (bytes, err, segs) := readFullPartial segs size.toNat
  (⟨bytes, err.map .conn⟩, { g with segs })

def Conn.readFrame (g : Conn) (segs : List Str) (protobufPayloadLen n : Nat) : Returned × Conn :=
  let len := toInt protobufPayloadLen
  let size := if (n : Int) < len then (n : Int) else len
  if size < 0 then (⟨[], some .panicked⟩, { g with segs })
  else
    let (r, g) := g.readPayload segs size
    if r.err.isSome then (r, g)
    else
      let remain := len - r.bytes.length
      (r, { g with remain := if 0 < remain then remain else g.remain })

def Conn.read (g : Conn) (n : Nat) : Returned × Conn :=
  if g.err.isSome then (⟨[], g.err⟩, g)
  else if 0 < g.remain then
    let size := if (n : Int) < g.remain then (n : Int) else g.remain
    let (r, g) := g.readPayload g.segs size
    (r, { g with remain := g.remain - r.bytes.length })
  else if !g.response then (⟨[], some .closed⟩, g)
  else
    -- `Discard` reports the end as it finds it
    match readFull g.segs 6 with
    | (.error _, segs) => (⟨[], some (.conn .eof)⟩, { g with segs })
    | (.ok _, segs) =>
        match readUvarint.onConn segs with
        | (.ok (some len), segs) => g.readFrame segs len n
        | (_, segs) => (⟨[], some .invalidLength⟩, { g with segs })

/-! ## Frame headers -/

/-- What stands at the head of a stream: nothing that is complete, or a length with what comes
after it, or ten bytes that are none. -/
def header (s : Str) : Option (Option Nat × Str) :=
  match (Prog.read 6 fun _ => readUvarint).exec s with
  | ⟨.done len, rest, _⟩ => some (len, rest)
  | _ => none

theorem header_eq_some_iff {segs : List Str} {len : Option Nat} {rest : Str} :
    header segs.flatten = some (len, rest) ↔
      ∃ b segs₁ segs₂, readFull segs 6 = (.ok b, segs₁) ∧
        readUvarint.onConn segs₁ = (.ok len, segs₂) ∧ segs₂.flatten = rest := by
  constructor
  · intro h
    have hexec : ∃ out, (Prog.read 6 fun _ => readUvarint).exec segs.flatten =
        ⟨.done len, rest, out⟩ := by
      unfold header at h
      split at h
      · rename_i len' rest' out hexec
        cases h
        exact ⟨out, hexec⟩
      · cases h
    rcases onConn_ok_iff.mpr hexec with ⟨segs₂, hconn, hrest⟩
    rw [Prog.onConn] at hconn
    cases hread : readFull segs 6 with
    | mk result segs₁ =>
        rw [hread] at hconn
        cases result with
        | error e => cases hconn
        | ok b => exact ⟨b, segs₁, segs₂, rfl, hconn, hrest⟩
  · rintro ⟨b, segs₁, segs₂, hread, hconn, rfl⟩
    rcases exec_of_onConn hconn with ⟨out, hexec⟩
    have hbytes := readFull_eq_ok hread
    rw [header, hbytes.1, exec_read_append _ hbytes.2, hexec]

theorem header_lt {s rest : Str} {len : Nat} (h : header s = some (some len, rest)) : len < 2 ^ 64 := by
  unfold header at h
  split at h
  · rename_i len' rest' out hexec
    cases h
    rcases exec_read_done hexec with ⟨b, s', -, -, hexec⟩
    exact lt_of_exec_readUvarint hexec
  · cases h

theorem length_putUint32 (n : Nat) : (putUint32 n).length = 4 := rfl

theorem header_frame {b : Str} (h : b.length < 2 ^ 64) (rest : Str) :
    header (frame b ++ rest) = some (some b.length, b ++ rest) := by
  have hsplit : frame b ++ rest =
      (0 :: putUint32 ((putUvarint b.length).length + 1 + b.length) ++ [0x0a]) ++
        (putUvarint b.length ++ (b ++ rest)) := by simp [frame]
  have hsix : (0 :: putUint32 ((putUvarint b.length).length + 1 + b.length) ++ [0x0a]).length = 6 :=
    rfl
  rw [header, hsplit, exec_read_append _ hsix, exec_readUvarint_putUvarint h]

/-! ## What a read does -/

section Read

variable {g : Conn} {n : Nat}

def Conn.Open (g : Conn) : Prop := g.err = none ∧ g.response = true

theorem read_remain {bytes : Str} {err : Option ReadError} {segs : List Str} (hopen : g.Open)
    (hremain : 0 < g.remain)
    (hread : readFullPartial g.segs (min n g.remain.toNat) = (bytes, err, segs)) :
    g.read n =
      (⟨bytes, err.map .conn⟩, { g with remain := g.remain - bytes.length, segs := segs }) := by
  have hsize : (if (n : Int) < g.remain then (n : Int) else g.remain).toNat =
      min n g.remain.toNat := by
    split <;> omega
  simp only [Conn.read, hopen.1, Option.isSome_none, Bool.false_eq_true, if_false, if_pos hremain,
    Conn.readPayload, hsize, hread]

theorem read_discard {e : ReadError} {segs : List Str} (hopen : g.Open) (hremain : g.remain = 0)
    (hread : readFull g.segs 6 = (.error e, segs)) (n : Nat) :
    g.read n = (⟨[], some (.conn .eof)⟩, { g with segs }) := by
  simp [Conn.read, hopen.1, hopen.2, hremain, hread]

theorem read_frame {b : Str} {segs₁ segs₂ : List Str} {len : Nat} (hopen : g.Open)
    (hremain : g.remain = 0) (hread : readFull g.segs 6 = (.ok b, segs₁))
    (hconn : readUvarint.onConn segs₁ = (.ok (some len), segs₂)) (n : Nat) :
    g.read n = g.readFrame segs₂ len n := by
  simp [Conn.read, hopen.1, hopen.2, hremain, hread, hconn]

theorem read_invalid {b : Str} {segs₁ segs₂ : List Str} {r : Except ReadError (Option Nat)}
    (hopen : g.Open) (hremain : g.remain = 0) (hread : readFull g.segs 6 = (.ok b, segs₁))
    (hconn : readUvarint.onConn segs₁ = (r, segs₂)) (hr : ∀ len, r ≠ .ok (some len)) (n : Nat) :
    g.read n = (⟨[], some .invalidLength⟩, { g with segs := segs₂ }) := by
  simp only [Conn.read, hopen.1, hopen.2, hremain, hread, hconn, Option.isSome_none,
    Bool.false_eq_true, if_false, Int.lt_irrefl, Bool.not_true]

theorem readFrame_of_lt {segs segs' : List Str} {len : Nat} {bytes : Str} {err : Option ReadError}
    (hlen : len < 2 ^ 63) (hread : readFullPartial segs (min n len) = (bytes, err, segs')) :
    g.readFrame segs len n =
      (⟨bytes, err.map .conn⟩,
      { g with
        segs := segs'
        remain :=
          if err.isSome then g.remain
          else if bytes.length < len then len - bytes.length else g.remain }) := by
  have hint : toInt len = len := if_pos hlen
  have hsize : (if (n : Int) < (len : Int) then (n : Int) else (len : Int)) = (min n len : Nat) := by
    split <;> omega
  have hpos : ¬ ((min n len : Nat) : Int) < 0 := by omega
  have hcond : (0 < (len : Int) - bytes.length) ↔ bytes.length < len := by omega
  simp only [Conn.readFrame, hint, hsize, if_neg hpos, Conn.readPayload, Int.toNat_natCast, hread,
    Option.isSome_map, hcond]
  cases err <;> rfl

/-- A length beyond the range of `int` turns negative, and a slice bound with it. -/
theorem readFrame_of_ge {segs : List Str} {len : Nat} (hlen : 2 ^ 63 ≤ len) (hlt : len < 2 ^ 64)
    (n : Nat) : g.readFrame segs len n = (⟨[], some .panicked⟩, { g with segs }) := by
  have hint : toInt len = len - 2 ^ 64 := if_neg (Nat.not_lt.mpr hlen)
  have hsize : (if (n : Int) < toInt len then (n : Int) else toInt len) < 0 := by
    split <;> omega
  simp only [Conn.readFrame, if_pos hsize]

end Read
/-! ## Frames that were written -/

/-- `bs` is left of a frame, and the frames of `packets` follow. -/
structure Conn.Holds (g : Conn) (bs : Str) (packets : List (Packet Unit UInt8)) : Prop where
  isOpen : g.Open
  remain : g.remain = bs.length
  stream : g.segs.flatten = bs ++ packets.flatMap fun p => frame p.payload
  short : ∀ p ∈ packets, p.payload.length < 2 ^ 31

section Holds

variable {g : Conn} {bs : Str} {packets : List (Packet Unit UInt8)}

theorem Conn.Holds.resumes (h : g.Holds bs packets) (hbs : bs ≠ []) (n : Nat) :
    ∃ g' : Conn, g.read n = (⟨bs.take n, none⟩, g') ∧ g'.Holds (bs.drop n) packets ∧
      g'.segs.flatten.length = g.segs.flatten.length - min n bs.length := by
  have hpos : 0 < g.remain := by
    have := List.length_pos_iff.mpr hbs
    rw [h.remain]
    omega
  have hsplit : g.segs.flatten =
      bs.take n ++ (bs.drop n ++ packets.flatMap fun p => frame p.payload) := by
    rw [h.stream, ← List.append_assoc, List.take_append_drop]
  have hlen : (bs.take n).length = min n g.remain.toNat := by
    rw [List.length_take, h.remain, Int.toNat_natCast]
  rcases readFullPartial_append hsplit hlen with ⟨segs, hread, hsegs⟩
  refine ⟨_, read_remain h.isOpen hpos hread, ⟨h.isOpen, ?_, hsegs, h.short⟩, ?_⟩
  · simp only [h.remain, List.length_take, List.length_drop]
    omega
  · simp only [hsegs, h.stream, List.length_append, List.length_drop]
    omega

theorem Conn.Holds.begins {p : Packet Unit UInt8} (h : g.Holds [] (p :: packets)) (n : Nat) :
    ∃ g' : Conn, g.read n = (⟨p.payload.take n, none⟩, g') ∧ g'.Holds (p.payload.drop n) packets ∧
      g'.segs.flatten.length < g.segs.flatten.length := by
  have hshort := h.short p List.mem_cons_self
  have hstream : g.segs.flatten =
      frame p.payload ++ packets.flatMap fun p => frame p.payload := by
    rw [h.stream, List.nil_append, List.flatMap_cons]
  have hheader := header_frame (Nat.lt_trans hshort (by decide : 2 ^ 31 < 2 ^ 64))
    (packets.flatMap fun p => frame p.payload)
  rw [← hstream] at hheader
  rcases header_eq_some_iff.mp hheader with ⟨b, segs₁, segs₂, hdiscard, hconn, hrest⟩
  have hsplit : segs₂.flatten =
      p.payload.take n ++ (p.payload.drop n ++ packets.flatMap fun p => frame p.payload) := by
    rw [hrest, ← List.append_assoc, List.take_append_drop]
  rcases readFullPartial_append hsplit List.length_take with ⟨segs, hread, hsegs⟩
  have hpayload := readFrame_of_lt (g := g) (Nat.lt_trans hshort (by decide)) hread
  refine ⟨_, (read_frame h.isOpen h.remain hdiscard hconn n).trans hpayload,
    ⟨h.isOpen, ?_, hsegs, fun q hq => h.short q (List.mem_cons_of_mem p hq)⟩, ?_⟩
  · simp only [Option.isSome_none, Bool.false_eq_true, if_false, h.remain, List.length_take,
      List.length_drop, List.length_nil]
    split <;> omega
  · have hframe : (frame p.payload).length ≥ p.payload.length + 6 := by
      simp only [frame, List.length_append, List.length_cons, length_putUint32]
      omega
    simp only [hsegs, hstream, List.length_append, List.length_drop]
    omega

theorem Conn.Holds.ends (h : g.Holds [] []) (n : Nat) :
    ∃ g' : Conn, g.read n = (⟨[], some (.conn .eof)⟩, g') ∧ g'.Holds [] [] ∧
      g'.segs.flatten = [] := by
  have hnil : g.segs.flatten = [] := h.stream
  rcases readFull_eof hnil with ⟨segs, hread, hsegs⟩
  exact ⟨_, read_discard h.isOpen h.remain hread n, ⟨h.isOpen, h.remain, hsegs, h.short⟩, hsegs⟩

end Holds

/-- `Read` as its caller sees it: bytes, or else an error. -/
def Conn.readRun (g : Conn) (n : Nat) : Except Stop (Packet Unit UInt8) × Conn :=
  let (r, g) := g.read n
  (match r.err with
    | none => .ok ⟨(), r.bytes⟩
    | some e => .error e, g)

def Conn.Sim (g : Conn) (l : Left Unit UInt8) : Prop :=
  ∃ bs packets, l = .resume () bs packets ∧ g.Holds bs packets

theorem Conn.Sim.readRun {g : Conn} {l : Left Unit UInt8} (h : g.Sim l) (n : Nat) :
    (∃ l', Serves (.conn .eof) l (g.readRun n).1 l' ∧ (g.readRun n).2.Sim l') ∧
      (g.readRun n).2.segs.flatten.length ≤ g.segs.flatten.length ∧
      (0 < n → (∃ e, (g.readRun n).1 = .error e) ∨
        (g.readRun n).2.segs.flatten.length < g.segs.flatten.length) := by
  rcases h with ⟨bs, packets, rfl, h⟩
  cases bs with
  | cons b bs =>
      rcases h.resumes (List.cons_ne_nil b bs) n with ⟨g', hread, hholds, hlen⟩
      have hstream := congrArg List.length h.stream
      have hserve : Serves (.conn .eof : Stop) (.resume () (b :: bs) packets)
          (.ok ⟨(), (b :: bs).take n⟩) (.resume () ((b :: bs).drop n) packets) :=
        .take_resume _ () (List.cons_ne_nil b bs) packets n
      simp only [Conn.readRun, hread]
      rw [List.length_append, List.length_cons] at hstream
      rw [List.length_cons] at hlen
      exact ⟨⟨_, hserve, _, _, rfl, hholds⟩, by omega, fun hn => Or.inr (by omega)⟩
  | nil =>
      cases packets with
      | cons p packets =>
          rcases h.begins n with ⟨g', hread, hholds, hlen⟩
          have hserve : Serves (.conn .eof : Stop) (.all (p :: packets))
              (.ok ⟨(), p.payload.take n⟩) (.resume () (p.payload.drop n) packets) :=
            .take_next _ p packets n
          simp only [Conn.readRun, hread]
          exact ⟨⟨_, hserve, _, _, rfl, hholds⟩, Nat.le_of_lt hlen, fun _ => Or.inr hlen⟩
      | nil =>
          rcases h.ends n with ⟨g', hread, hholds, hnil⟩
          simp only [Conn.readRun, hread]
          exact ⟨⟨_, .finish, _, _, rfl, hholds⟩, by simp [hnil], fun _ => Or.inl ⟨_, rfl⟩⟩

theorem reads_readRun : Reads (.conn .eof : Stop) Conn.readRun Conn.Sim (fun _ => True)
    (fun n => decide (0 < n)) (fun g => g.segs.flatten.length) where
  serves _ _ n _ h := (h.readRun n).1
  rank_le _ _ n _ h := (h.readRun n).2.1
  takes _ _ n _ hn h := (h.readRun n).2.2 (of_decide_eq_true hn)

/-- Whatever is written in slices below 2^31 bytes is read back in order, through buffers of any
lengths and whatever the segments of the stream: bytes read and bytes left make up the bytes
written, `remain` counts what is left of the frame begun, and the end comes after the last
byte. -/
theorem gun_lossless (bs : List Str) (hbs : ∀ b ∈ bs, b.length < 2 ^ 31) (segs : List Str)
    (hsegs : segs.flatten = bs.flatMap frame) (ns : List Nat) :
    let reads := readAll Conn.readRun (initRequest false (.answered segs)) ns
    ∃ left : Left Unit UInt8,
      Conveys (.conn .eof) (.all (bs.map (Packet.mk ()))) reads.1 left ∧
      reads.2.remain = left.unread ∧
      runsBytes reads.1 ++ left.bytes = bs.flatten ∧
      (∀ e, .error e ∈ reads.1 → e = .conn .eof ∧ runsBytes reads.1 = bs.flatten) ∧
      (segs.flatten.length < ns.countP (0 < ·) → runsBytes reads.1 = bs.flatten) := by
  intro reads
  have hstart : (initRequest false (.answered segs)).Sim (.all (bs.map (Packet.mk ()))) := by
    refine ⟨[], _, rfl, ⟨rfl, rfl⟩, rfl, ?_, ?_⟩
    · simpa [initRequest, List.flatMap_map] using hsegs
    · simpa using hbs
  rcases reads_readRun.conveys ns (fun _ _ => trivial) hstart with ⟨left, hconvey, hsim⟩
  have hbytes : (Left.all (bs.map (Packet.mk ()))).bytes = bs.flatten := by
    rw [Left.bytes_all, List.flatMap_map]
    exact List.flatMap_id'
  refine ⟨left, hconvey, ?_, by rw [hconvey.bytes, hbytes], ?_, ?_⟩
  · rcases hsim with ⟨rest, packets, rfl, hholds⟩
    rw [hholds.remain, Left.unread_resume]
  · intro e he
    exact ⟨(hconvey.of_error he).1, by rw [hconvey.runsBytes_of_error he, hbytes]⟩
  · intro hlong
    rcases reads_readRun.error_mem ns (fun _ _ => trivial) hstart hlong with ⟨e, he⟩
    rw [hconvey.runsBytes_of_error he, hbytes]

/-- A frame and an empty one, three bytes at a time. -/
theorem gun_lossless_hello :
    runsBytes (readAll Conn.readRun
      (initRequest false (.answered [frame (str "hello"), frame []])) (List.replicate 20 3)).1 =
      str "hello" := by
  have hshort : ∀ b ∈ [str "hello", []], b.length < 2 ^ 31 := by decide
  have hlossless := gun_lossless [str "hello", []] hshort [frame (str "hello"), frame []]
    (by simp [List.flatMap_cons]) (List.replicate 20 3)
  rcases hlossless with ⟨left, -, -, -, -, hall⟩
  exact hall (by decide +kernel)

/-! ## Any stream -/

def Conn.after (g : Conn) (ns : List Nat) : Conn := ns.foldl (fun g n => (g.read n).2) g

structure SafeRead (g : Conn) (n : Nat) : Prop where
  returns : (g.read n).1.err ≠ some .panicked
  within : (g.read n).1.bytes.length ≤ n
  remain : 0 ≤ (g.read n).2.remain

/-- Every call does, on a stream that comes in these segments. -/
def ReadsSafely (segs : List Str) : Prop :=
  ∀ (ns : List Nat) (n : Nat), SafeRead ((initRequest false (.answered segs)).after ns) n

/-- Among the frames that `Read` finds in the stream one after another, one claims 2^63 bytes
or more. -/
inductive Oversized : Str → Prop where
  | here {s rest : Str} {len : Nat} : header s = some (some len, rest) → 2 ^ 63 ≤ len → Oversized s
  | later {s rest : Str} {len : Nat} :
      header s = some (some len, rest) → len < 2 ^ 63 → Oversized (rest.drop len) → Oversized s
  /-- Where there is no length, the next call goes on from there. -/
  | skip {s rest : Str} : header s = some (none, rest) → Oversized rest → Oversized s

theorem not_oversized_nil : ¬ Oversized [] := by
  have hheader : header [] = none := rfl
  intro h
  cases h with
  | here h | later h | skip h => cases hheader.symm.trans h

/-- What the reads so far leave of a frame does not matter to the frames after it. -/
structure Conn.Fits (g : Conn) : Prop where
  isOpen : g.Open
  remain : 0 ≤ g.remain
  frames : ¬ Oversized (g.segs.flatten.drop g.remain.toNat)

theorem Conn.Fits.of_nil {g : Conn} (hopen : g.Open) (hremain : 0 ≤ g.remain) (hsegs : g.segs = []) :
    g.Fits := by
  refine ⟨hopen, hremain, ?_⟩
  rw [hsegs, List.flatten_nil, List.drop_nil]
  exact not_oversized_nil

/-- A position is reached with fewer bytes to skip once some are read. -/
theorem drop_of_read {segs segs' : List Str} {bytes : Str} {k : Nat}
    (hflat : segs.flatten = bytes ++ segs'.flatten) (hle : bytes.length ≤ k) :
    segs.flatten.drop k = segs'.flatten.drop (k - bytes.length) := by
  rw [hflat, List.drop_append, List.drop_eq_nil_of_le hle, List.nil_append]

section Fits

variable {g : Conn} {n : Nat}

theorem Conn.Fits.safe_remain (h : g.Fits) (hremain : 0 < g.remain) :
    SafeRead g n ∧ (g.read n).2.Fits := by
  have hframes := h.frames
  cases hread : readFullPartial g.segs (min n g.remain.toNat) with
  | mk bytes rest =>
      rcases rest with ⟨err, segs⟩
      have hlen := readFullPartial_length_le hread
      have hflat := (readFullPartial_eq hread).1
      have hdrop : g.segs.flatten.drop g.remain.toNat =
          segs.flatten.drop (g.remain - bytes.length).toNat := by
        have hsub : (g.remain - bytes.length).toNat = g.remain.toNat - bytes.length := by omega
        rw [drop_of_read hflat (by omega), hsub]
      have hresult := read_remain h.isOpen hremain hread
      refine ⟨⟨?_, ?_, ?_⟩, ?_⟩
      · rw [hresult]
        cases err <;> simp
      · rw [hresult]
        exact hlen.trans (Nat.min_le_left ..)
      · rw [hresult]
        show 0 ≤ g.remain - bytes.length
        omega
      · rw [hresult]
        refine ⟨h.isOpen, ?_, ?_⟩
        · show 0 ≤ g.remain - bytes.length
          omega
        · rw [hdrop] at hframes
          exact hframes

theorem Conn.Fits.safe_frame (h : g.Fits) (hremain : g.remain = 0) {b : Str} {segs₁ segs₂ : List Str}
    {len : Nat} (hdiscard : readFull g.segs 6 = (.ok b, segs₁))
    (hconn : readUvarint.onConn segs₁ = (.ok (some len), segs₂)) :
    SafeRead g n ∧ (g.read n).2.Fits := by
  have hheader := header_eq_some_iff.mpr ⟨b, segs₁, segs₂, hdiscard, hconn, rfl⟩
  have hframes := h.frames
  rw [hremain, Int.toNat_zero, List.drop_zero] at hframes
  have hlt : len < 2 ^ 63 := by
    apply Nat.lt_of_not_le
    exact fun hge => hframes (.here hheader hge)
  have hnext : ¬ Oversized (segs₂.flatten.drop len) := fun hover => hframes (.later hheader hlt hover)
  cases hread : readFullPartial segs₂ (min n len) with
  | mk bytes rest =>
      rcases rest with ⟨err, segs⟩
      have hlen := readFullPartial_length_le hread
      have hflat := (readFullPartial_eq hread).1
      have hresult := (read_frame h.isOpen hremain hdiscard hconn n).trans
        (readFrame_of_lt hlt hread)
      have hnonneg : 0 ≤ (g.read n).2.remain := by
        rw [hresult]
        simp only [hremain]
        split
        · exact Int.le_refl 0
        · split <;> omega
      refine ⟨⟨?_, ?_, hnonneg⟩, ?_⟩
      · rw [hresult]
        cases err <;> simp
      · rw [hresult]
        exact hlen.trans (Nat.min_le_left ..)
      · have hopen : (g.read n).2.Open := by
          rw [hresult]
          exact h.isOpen
        rcases (readFullPartial_eq hread).2 with ⟨rfl, hfull⟩ | ⟨-, -, hgone⟩
        · refine ⟨hopen, hnonneg, ?_⟩
          rw [drop_of_read hflat (by omega)] at hnext
          rw [hresult]
          simp only [Option.isSome_none, Bool.false_eq_true, if_false, hremain]
          have hrest : (if bytes.length < len then (len : Int) - bytes.length else 0).toNat =
              len - bytes.length := by
            split <;> omega
          rwa [hrest]
        · refine .of_nil hopen hnonneg ?_
          rw [hresult]
          exact hgone

theorem Conn.Fits.safe (h : g.Fits) (n : Nat) : SafeRead g n ∧ (g.read n).2.Fits := by
  rcases Int.lt_or_eq_of_le h.remain with hpos | hzero
  · exact h.safe_remain hpos
  have hremain : g.remain = 0 := hzero.symm
  cases hdiscard : readFull g.segs 6 with
  | mk result segs₁ =>
      cases result with
      | error e =>
          have hresult := read_discard h.isOpen hremain hdiscard n
          refine ⟨⟨by simp [hresult], by simp [hresult], by simp [hresult, hremain]⟩, ?_⟩
          rw [hresult]
          exact .of_nil h.isOpen h.remain (readFull_eq_error hdiscard).1
      | ok b =>
          cases hconn : readUvarint.onConn segs₁ with
          | mk len segs₂ =>
              by_cases hlen : ∃ v, len = .ok (some v)
              · rcases hlen with ⟨v, rfl⟩
                exact h.safe_frame hremain hdiscard hconn
              · have hresult := read_invalid h.isOpen hremain hdiscard hconn
                  (fun v hv => hlen ⟨v, hv⟩) n
                refine ⟨⟨by simp [hresult], by simp [hresult], by simp [hresult, hremain]⟩, ?_⟩
                rw [hresult]
                cases len with
                | error e => exact .of_nil h.isOpen h.remain (onConn_eq_error hconn)
                | ok v =>
                    cases v with
                    | some v => exact absurd ⟨v, rfl⟩ hlen
                    | none =>
                        have hheader :=
                          header_eq_some_iff.mpr ⟨b, segs₁, segs₂, hdiscard, hconn, rfl⟩
                        have hframes := h.frames
                        rw [hremain, Int.toNat_zero, List.drop_zero] at hframes
                        refine ⟨h.isOpen, h.remain, ?_⟩
                        rw [hremain, Int.toNat_zero, List.drop_zero]
                        exact fun hover => hframes (.skip hheader hover)

end Fits

def Conn.Panics (g : Conn) : Prop := ∃ ns n, ((g.after ns).read n).1.err = some .panicked

theorem Conn.Panics.of_read {g : Conn} (n : Nat) (h : (g.read n).2.Panics) : g.Panics := by
  rcases h with ⟨ns, m, hpanic⟩
  exact ⟨n :: ns, m, hpanic⟩

/-- One buffer for each frame before it leads to the one that is too long. -/
theorem panics_of_oversized {s : Str} (h : Oversized s) {g : Conn} (hopen : g.Open)
    (hremain : g.remain = 0) (hs : g.segs.flatten = s) : g.Panics := by
  induction h generalizing g with
  | @here s rest len hheader hge =>
      have hlt := header_lt hheader
      rw [← hs] at hheader
      rcases header_eq_some_iff.mp hheader with ⟨b, segs₁, segs₂, hdiscard, hconn, -⟩
      refine ⟨[], 0, ?_⟩
      show (g.read 0).1.err = _
      rw [read_frame hopen hremain hdiscard hconn, readFrame_of_ge hge hlt]
  | @later s rest len hheader hlt hover ih =>
      rw [← hs] at hheader
      rcases header_eq_some_iff.mp hheader with ⟨b, segs₁, segs₂, hdiscard, hconn, hrest⟩
      have hlen : len ≤ rest.length := by
        apply Nat.le_of_not_lt
        intro hshort
        rw [List.drop_eq_nil_of_le (Nat.le_of_lt hshort)] at hover
        exact not_oversized_nil hover
      have hsplit : segs₂.flatten = rest.take len ++ rest.drop len := by
        rw [hrest, List.take_append_drop]
      have htake : (rest.take len).length = min len len := by
        rw [List.length_take_of_le hlen, Nat.min_self]
      rcases readFullPartial_append hsplit htake with ⟨segs, hread, hsegs⟩
      have hresult := (read_frame hopen hremain hdiscard hconn len).trans
        (readFrame_of_lt hlt hread)
      apply Conn.Panics.of_read len
      rw [hresult]
      exact ih hopen (by simp [hremain, List.length_take_of_le hlen]) hsegs
  | @skip s rest hheader hover ih =>
      rw [← hs] at hheader
      rcases header_eq_some_iff.mp hheader with ⟨b, segs₁, segs₂, hdiscard, hconn, hrest⟩
      apply Conn.Panics.of_read 0
      rw [read_invalid hopen hremain hdiscard hconn (by simp) 0]
      exact ih hopen hremain hrest

theorem Conn.Fits.after {g : Conn} (h : g.Fits) (ns : List Nat) : (g.after ns).Fits := by
  induction ns generalizing g with
  | nil => exact h
  | cons n ns ih => exact ih (h.safe n).2

/-- No call of `Read` leaves its bounds exactly if no frame claims 2^63 bytes or more. -/
theorem readsSafely_iff (segs : List Str) : ReadsSafely segs ↔ ¬ Oversized segs.flatten := by
  constructor
  · intro hsafe hover
    have hpanics : (initRequest false (.answered segs)).Panics :=
      panics_of_oversized hover ⟨rfl, rfl⟩ rfl rfl
    rcases hpanics with ⟨ns, n, hpanic⟩
    exact (hsafe ns n).returns hpanic
  · intro hframes ns n
    have hstart : (initRequest false (.answered segs)).Fits := ⟨⟨rfl, rfl⟩, Int.le_refl 0, hframes⟩
    exact ((hstart.after ns).safe n).1

def hostileHeader : Str := [0, 0, 0, 0, 12, 10, 128, 128, 128, 128, 128, 128, 128, 128, 128, 1]

theorem hostileHeader_not_safe :
    ¬ ReadsSafely [hostileHeader] ∧
      ((initRequest false (.answered [hostileHeader])).read 16).1.err = some .panicked := by
  have hpanic : ((initRequest false (.answered [hostileHeader])).read 16).1.err =
      some .panicked := by decide +kernel
  exact ⟨fun h => (h [] 16).returns hpanic, hpanic⟩

end RuleBaseProxy.Gun
