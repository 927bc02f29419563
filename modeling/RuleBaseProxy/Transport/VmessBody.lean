import RuleBaseProxy.Lib.ChunkedStream
import RuleBaseProxy.Lib.GoString

/-! # The body of a vmess stream

The writers cut what they are given into chunks and send each one with its
length in front, plain or sealed. The readers take the stream apart again,
however the connection below cuts it, and keep what a caller's buffer has no
room for. Writer and reader each count the chunks in 16 bits for the nonce.
-/

namespace RuleBaseProxy.Vmess

open Go ChunkedStream

def lenSize : Nat := 2
def chunkSize : Nat := 2 ^ 14
def maxSize : Nat := 17 * 1024

/-- `binary.BigEndian.PutUint16` of `uint16(n)`. -/
def putUint16 (n : Nat) : Str := [UInt8.ofNat (n / 256), UInt8.ofNat n]

def uint16 (b : Str) : Nat := 256 * (b.getD 0 0).toNat + (b.getD 1 0).toNat

theorem uint16_putUint16 {n : Nat} (h : n < 2 ^ 16) : uint16 (putUint16 n) = n := toNat_ofNat_bytes h

/-! ## The connection below a writer -/

/-- What the connection has taken, and how many calls of `Write` it still takes before
it fails for good (`none`: it does not fail). -/
structure Sink where
  stream : Str
  room : Option Nat
deriving DecidableEq

def Sink.write (s : Sink) (bytes : Str) : Option Sink :=
  match s.room with
  | none => some { s with stream := s.stream ++ bytes }
  | some 0 => none
  | some (k + 1) => some { stream := s.stream ++ bytes, room := some k }

/-! ## Writers -/

/-- What `Write` returns, with the writer and the connection after it. -/
structure Written (σ : Type) where
  n : Nat
  failed : Bool
  writer : σ
  sink : Sink

def readLen (limit : Nat) (b : Str) : Nat := if b.length < limit then b.length else limit

/-- The loop of both `Write` methods, at `b[n:]`. A chunk has at most `limit` bytes.
`none` is a panic, or a loop that has not come to its end. -/
def writeLoop {σ : Type} (limit : Nat) (frame : σ → Str → Option (Str × σ)) :
    Nat → σ → Sink → Str → Nat → Option (Written σ)
  | _, w, sink, [], n => some ⟨n, false, w, sink⟩
  | 0, _, _, _ :: _, _ => none
  | turns + 1, w, sink, b, n =>
      match frame w (b.take (readLen limit b)) with
      | none => none
      | some (bytes, w) =>
          match sink.write bytes with
          | none => some ⟨n, true, w, sink⟩
          | some sink =>
              writeLoop limit frame turns w sink (b.drop (readLen limit b)) (n + readLen limit b)

/-- Each turn of the loop takes bytes, or else uses up the room. -/
def turns (sink : Sink) (b : Str) : Nat := b.length + sink.room.getD 0

def chunkFrame (_ : Unit) (payload : Str) : Option (Str × Unit) :=
  some (putUint16 payload.length ++ payload, ())

/-- `chunkWriter.Write`. -/
def chunkWrite (w : Unit) (sink : Sink) (b : Str) : Option (Written Unit) :=
  writeLoop chunkSize chunkFrame (turns sink b) w sink b 0

/-- A `cipher.AEAD` under its key, with what its documentation says of `Seal` and `Open`. -/
structure AEAD where
  nonceSize : Nat
  overhead : Nat
  sealText : Str → Str → Str
  openText : Str → Str → Option Str
  length_sealText : ∀ nonce plain, (sealText nonce plain).length = plain.length + overhead
  openText_sealText : ∀ nonce plain, openText nonce (sealText nonce plain) = some plain

/-- The array `nonce`, with the counter and `iv[2:12]` in it. -/
def nonceArray (iv : Str) (count : UInt16) : Str :=
  putUint16 count.toNat ++ (iv.take 12).drop 2 ++ List.replicate 20 0

def AEAD.nonce (a : AEAD) (iv : Str) (count : UInt16) : Str :=
  (nonceArray iv count).take a.nonceSize

structure AEADWriter where
  count : UInt16
  /-- The nonces of the calls of `Seal` so far. -/
  nonces : List Str

def newAEADWriter : AEADWriter := ⟨0, []⟩

/-- Out of these bounds a slice expression of `Write` panics. -/
def AEAD.Sliceable (a : AEAD) (iv : Str) : Prop :=
  a.overhead ≤ chunkSize ∧ 12 ≤ iv.length ∧ a.nonceSize ≤ 32

instance (a : AEAD) (iv : Str) : Decidable (a.Sliceable iv) :=
  inferInstanceAs (Decidable (_ ∧ _ ∧ _))

def aeadFrame (a : AEAD) (iv : Str) (w : AEADWriter) (payload : Str) : Option (Str × AEADWriter) :=
  if a.Sliceable iv then
    let nonce := a.nonce iv w.count
    some (putUint16 (payload.length + a.overhead) ++ a.sealText nonce payload,
      ⟨w.count + 1, w.nonces ++ [nonce]⟩)
  else none

/-- `aeadWriter.Write`. -/
def aeadWrite (a : AEAD) (iv : Str) (w : AEADWriter) (sink : Sink) (b : Str) :
    Option (Written AEADWriter) :=
  writeLoop (chunkSize - a.overhead) (aeadFrame a iv) (turns sink b) w sink b 0

def writes {σ : Type} (write : σ → Sink → Str → Option (Written σ)) :
    σ → Sink → List Str → Option (σ × Sink)
  | w, sink, [] => some (w, sink)
  | w, sink, b :: bs =>
      match write w sink b with
      | none => none
      | some r => writes write r.writer r.sink bs

/-! ## Readers -/

inductive ReadStop where
  | conn (err : ReadError)
  /-- "buffer is larger than standard" -/
  | larger
  /-- The error of `Open`. -/
  | unauthenticated
  | panics
deriving DecidableEq

/-- `buf` and `offset` of a reader. -/
structure Pending where
  buf : Option Str
  offset : Nat

/-- The branch `buf != nil` of both `Read` methods. -/
def Pending.copy (p : Pending) (n : Nat) : Option (Str × Pending) :=
  p.buf.map fun buf =>
    let out := (buf.drop p.offset).take n
    let offset := p.offset + out.length
    (out, ⟨if offset = buf.length then none else some buf, offset⟩)

def readSize (segs : List Str) : Except ReadStop Nat × List Str :=
  match readFull segs lenSize with
  | (.error e, segs) => (.error (.conn e), segs)
  | (.ok sizeBuf, segs) =>
      let size := uint16 sizeBuf
      if maxSize < size then (.error .larger, segs) else (.ok size, segs)

structure ChunkReader where
  pending : Pending
  segs : List Str

def newChunkReader (segs : List Str) : ChunkReader := ⟨⟨none, 0⟩, segs⟩

def ChunkReader.read (r : ChunkReader) (n : Nat) : Except ReadStop Str × ChunkReader :=
  match r.pending.copy n with
  | some (out, pending) => (.ok out, { r with pending })
  | none =>
      match readSize r.segs with
      | (.error e, segs) => (.error e, { r with segs })
      | (.ok size, segs) =>
          if size ≤ n then
            match readFull segs size with
            | (.error e, segs) => (.error (.conn e), { r with segs })
            | (.ok b, segs) => (.ok b, { r with segs })
          else
            match readFull segs size with
            | (.error e, segs) => (.error (.conn e), { r with segs })
            | (.ok buf, segs) =>
                let out := buf.take n
                (.ok out, ⟨⟨some buf, out.length⟩, segs⟩)

structure AEADReader where
  pending : Pending
  count : UInt16
  segs : List Str

def newAEADReader (segs : List Str) : AEADReader := ⟨⟨none, 0⟩, 0, segs⟩

/-- `aeadReader.Read` into a buffer of `n` bytes. `Open` puts the plain text over the
sealed one, in the same buffer. -/
def AEADReader.read (a : AEAD) (iv : Str) (r : AEADReader) (n : Nat) :
    Except ReadStop Str × AEADReader :=
  match r.pending.copy n with
  | some (out, pending) => (.ok out, { r with pending })
  | none =>
      match readSize r.segs with
      | (.error e, segs) => (.error e, { r with segs })
      | (.ok size, segs) =>
          match readFull segs size with
          | (.error e, segs) => (.error (.conn e), { r with segs })
          | (.ok body, segs) =>
              if ¬ (12 ≤ iv.length ∧ a.nonceSize ≤ 32) then (.error .panics, { r with segs })
              else
                match a.openText (a.nonce iv r.count) body with
                | none => (.error .unauthenticated, { r with segs, count := r.count + 1 })
                | some plain =>
                    if size < a.overhead then
                      (.error .panics, { r with segs, count := r.count + 1 })
                    else
                      let realLen := size - a.overhead
                      let buf := (plain ++ body.drop plain.length).take realLen
                      let out := buf.take n
                      if realLen ≤ n then (.ok out, { r with segs, count := r.count + 1 })
                      else (.ok out, ⟨⟨some buf, out.length⟩, r.count + 1, segs⟩)

/-! ## What the writers send -/

/-- `bytes` are the frames of chunks that make up `b`, none of them empty. -/
def Framed {σ : Type} (frame : σ → Str → Option (Str × σ)) (limit : Nat) (w : σ) (b bytes : Str)
    (w' : σ) : Prop :=
  ∃ payloads, encode frame w payloads = some (bytes, w') ∧ payloads.flatten = b ∧
    ∀ payload ∈ payloads, payload ≠ [] ∧ payload.length ≤ limit

section Writers

variable {σ : Type} {frame : σ → Str → Option (Str × σ)} {limit : Nat}
  {write : σ → Sink → Str → Option (Written σ)}

theorem Framed.nil (w : σ) : Framed frame limit w [] [] w :=
  ⟨[], rfl, rfl, fun _ h => nomatch h⟩

theorem Framed.append {w w₁ w₂ : σ} {b b' bytes bytes' : Str}
    (h : Framed frame limit w b bytes w₁) (h' : Framed frame limit w₁ b' bytes' w₂) :
    Framed frame limit w (b ++ b') (bytes ++ bytes') w₂ := by
  obtain ⟨payloads, hencode, rfl, hall⟩ := h
  obtain ⟨payloads', hencode', rfl, hall'⟩ := h'
  refine ⟨payloads ++ payloads', encode_append hencode hencode', List.flatten_append, ?_⟩
  intro payload hmem
  obtain hmem | hmem := List.mem_append.mp hmem
  · exact hall payload hmem
  · exact hall' payload hmem

theorem Framed.single {w w₁ : σ} {payload bytes : Str} (h : frame w payload = some (bytes, w₁))
    (hne : payload ≠ []) (hlen : payload.length ≤ limit) :
    Framed frame limit w payload bytes w₁ := by
  refine ⟨[payload], ?_, List.flatten_singleton, ?_⟩
  · exact encode_cons_eq_some.mpr ⟨bytes, w₁, [], h, rfl, (List.append_nil bytes).symm⟩
  · intro p hp
    rw [List.mem_singleton.mp hp]
    exact ⟨hne, hlen⟩

@[simp] theorem Sink.write_open (stream bytes : Str) :
    Sink.write ⟨stream, none⟩ bytes = some ⟨stream ++ bytes, none⟩ := rfl

theorem writeLoop_nil (t : Nat) (w : σ) (sink : Sink) (n : Nat) :
    writeLoop limit frame t w sink [] n = some ⟨n, false, w, sink⟩ := by
  cases t <;> rfl

theorem writeLoop_cons (t : Nat) (w : σ) (sink : Sink) {b : Str} (hb : b ≠ []) (n : Nat) :
    writeLoop limit frame (t + 1) w sink b n =
      match frame w (b.take (readLen limit b)) with
      | none => none
      | some (bytes, w) =>
          match sink.write bytes with
          | none => some ⟨n, true, w, sink⟩
          | some sink =>
              writeLoop limit frame t w sink (b.drop (readLen limit b)) (n + readLen limit b) := by
  rw [writeLoop]
  exact hb

theorem readLen_le (limit : Nat) (b : Str) : readLen limit b ≤ limit ∧ readLen limit b ≤ b.length := by
  unfold readLen
  split <;> omega

theorem readLen_pos {b : Str} (hb : b ≠ []) (hlimit : 0 < limit) : 0 < readLen limit b := by
  have := List.length_pos_iff.mpr hb
  unfold readLen
  split <;> omega

/-- With no room for a byte in a chunk the loop goes on for ever. -/
theorem writeLoop_limit_zero (t : Nat) (w : σ) (stream : Str) {b : Str} (hb : b ≠ []) (n : Nat) :
    writeLoop 0 frame t w ⟨stream, none⟩ b n = none := by
  induction t generalizing w stream n with
  | zero =>
      obtain ⟨c, cs, rfl⟩ := List.exists_cons_of_ne_nil hb
      rfl
  | succ t ih =>
      have hzero : readLen 0 b = 0 := Nat.le_zero.mp (readLen_le 0 b).1
      rw [writeLoop_cons t w _ hb, hzero]
      cases frame w (b.take 0) with
      | none => rfl
      | some out => exact ih ..

theorem writeLoop_nil_framed {t : Nat} {w : σ} {stream : Str} {n : Nat} {r : Written σ}
    (h : writeLoop limit frame t w ⟨stream, none⟩ [] n = some r) :
    ∃ bytes w', r = ⟨n, false, w', ⟨stream ++ bytes, none⟩⟩ ∧ Framed frame limit w [] bytes w' := by
  rw [writeLoop_nil] at h
  cases h
  exact ⟨[], w, by rw [List.append_nil], .nil w⟩

/-- On a connection that does not fail, `Write` that returns has sent everything. -/
theorem writeLoop_framed {t : Nat} {w : σ} {stream b : Str} {n : Nat} {r : Written σ}
    (h : writeLoop limit frame t w ⟨stream, none⟩ b n = some r) :
    ∃ bytes w', r = ⟨n + b.length, false, w', ⟨stream ++ bytes, none⟩⟩ ∧
      Framed frame limit w b bytes w' := by
  induction t generalizing w stream b n with
  | zero =>
      cases b with
      | nil => exact writeLoop_nil_framed h
      | cons c cs => cases h
  | succ t ih =>
      by_cases hb : b = []
      · subst hb
        exact writeLoop_nil_framed h
      · have hlimit : 0 < limit := by
          by_contra hzero
          rw [Nat.eq_zero_of_not_pos hzero, writeLoop_limit_zero _ w stream hb n] at h
          cases h
        rw [writeLoop_cons t w _ hb] at h
        cases hframe : frame w (b.take (readLen limit b)) with
        | none =>
            rw [hframe] at h
            cases h
        | some out =>
            obtain ⟨head, w₁⟩ := out
            simp only [hframe, Sink.write_open] at h
            obtain ⟨bytes, w', hr, hframed⟩ := ih h
            have hne : b.take (readLen limit b) ≠ [] := by
              have hpos := readLen_pos hb hlimit
              intro hnil
              obtain hzero | hnil := List.take_eq_nil_iff.mp hnil
              · omega
              · exact hb hnil
            have hlen : (b.take (readLen limit b)).length ≤ limit :=
              Nat.le_trans (List.length_take_le ..) (readLen_le limit b).1
            have hn : n + readLen limit b + (b.drop (readLen limit b)).length = n + b.length := by
              have := (readLen_le limit b).2
              rw [List.length_drop]
              omega
            refine ⟨head ++ bytes, w', by rw [hr, hn, List.append_assoc], ?_⟩
            have happend := (Framed.single hframe hne hlen).append hframed
            rwa [List.take_append_drop] at happend

theorem writes_framed
    (hwrite : ∀ (w : σ) (stream b : Str) (r : Written σ), write w ⟨stream, none⟩ b = some r →
      ∃ bytes w', r = ⟨0 + b.length, false, w', ⟨stream ++ bytes, none⟩⟩ ∧
        Framed frame limit w b bytes w')
    {bs : List Str} {w w' : σ} {stream : Str} {sink : Sink}
    (h : writes write w ⟨stream, none⟩ bs = some (w', sink)) :
    ∃ bytes, sink = ⟨stream ++ bytes, none⟩ ∧ Framed frame limit w bs.flatten bytes w' := by
  induction bs generalizing w stream with
  | nil =>
      cases h
      exact ⟨[], by rw [List.append_nil], .nil _⟩
  | cons b bs ih =>
      rw [writes] at h
      cases hr : write w ⟨stream, none⟩ b with
      | none =>
          rw [hr] at h
          cases h
      | some r =>
          simp only [hr] at h
          obtain ⟨bytes, w₁, rfl, hframed⟩ := hwrite w stream b r hr
          obtain ⟨more, hmore, hframed'⟩ := ih h
          exact ⟨bytes ++ more, by rw [hmore, List.append_assoc], hframed.append hframed'⟩

/-- With chunks that can hold a byte, and no panic, `Write` returns. -/
theorem writeLoop_isSome (hframe : ∀ w payload, (frame w payload).isSome) (hlimit : 0 < limit)
    {t : Nat} {b : Str} (ht : b.length ≤ t) (w : σ) (sink : Sink) (n : Nat) :
    (writeLoop limit frame t w sink b n).isSome := by
  induction t generalizing w sink b n with
  | zero =>
      have hb : b = [] := List.length_eq_zero_iff.mp (Nat.le_zero.mp ht)
      rw [hb, writeLoop_nil]
      rfl
  | succ t ih =>
      by_cases hb : b = []
      · rw [hb, writeLoop_nil]
        rfl
      · rw [writeLoop_cons t w sink hb]
        obtain ⟨out, hout⟩ := Option.isSome_iff_exists.mp (hframe w (b.take (readLen limit b)))
        rw [hout]
        cases hsink : sink.write out.1 with
        | none => simp only [hsink, Option.isSome_some]
        | some sink' =>
            simp only [hsink]
            have hpos := readLen_pos hb hlimit
            exact ih (by rw [List.length_drop]; omega) _ _ _

theorem writes_isSome (hwrite : ∀ w sink b, (write w sink b).isSome) (bs : List Str) (w : σ)
    (sink : Sink) : (writes write w sink bs).isSome := by
  induction bs generalizing w sink with
  | nil => rfl
  | cons b bs ih =>
      obtain ⟨r, hr⟩ := Option.isSome_iff_exists.mp (hwrite w sink b)
      rw [writes, hr]
      exact ih ..

end Writers

theorem chunkWrite_isSome (w : Unit) (sink : Sink) (b : Str) : (chunkWrite w sink b).isSome :=
  writeLoop_isSome (fun _ _ => rfl) (by decide) (Nat.le_add_right ..) w sink 0

theorem aeadFrame_of_sliceable {a : AEAD} {iv : Str} (h : a.Sliceable iv) (w : AEADWriter)
    (payload : Str) :
    aeadFrame a iv w payload =
      some (putUint16 (payload.length + a.overhead) ++ a.sealText (a.nonce iv w.count) payload,
        ⟨w.count + 1, w.nonces ++ [a.nonce iv w.count]⟩) := if_pos h

theorem aeadWrite_isSome {a : AEAD} {iv : Str} (h : a.Sliceable iv) (hlt : a.overhead < chunkSize)
    (w : AEADWriter) (sink : Sink) (b : Str) : (aeadWrite a iv w sink b).isSome := by
  refine writeLoop_isSome ?_ (Nat.sub_pos_of_lt hlt) (Nat.le_add_right ..) w sink 0
  intro w payload
  rw [aeadFrame_of_sliceable h]
  rfl

/-! ## What the readers make of it -/

/-- The bytes of `buf` from `offset` on, if there is a buffer. -/
def Pending.Holds (p : Pending) (leftover : Str) : Prop :=
  match p.buf with
  | none => leftover = []
  | some buf => leftover = buf.drop p.offset ∧ leftover ≠ []

theorem Pending.Holds.copy_nil {p : Pending} (h : p.Holds []) (n : Nat) : p.copy n = none := by
  obtain ⟨buf, offset⟩ := p
  cases buf with
  | none => rfl
  | some buf => exact absurd rfl h.2

theorem Pending.Holds.copy_ne_nil {p : Pending} {leftover : Str} (h : p.Holds leftover)
    (hne : leftover ≠ []) (n : Nat) :
    ∃ p', p.copy n = some (leftover.take n, p') ∧ p'.Holds (leftover.drop n) := by
  obtain ⟨buf, offset⟩ := p
  cases buf with
  | none => exact absurd h hne
  | some buf =>
      obtain ⟨rfl, -⟩ := h
      refine ⟨_, rfl, ?_⟩
      have hlen : 0 < (buf.drop offset).length := List.length_pos_iff.mpr hne
      rw [List.length_drop] at hlen
      simp only [Holds, List.length_take, List.length_drop]
      by_cases hall : offset + min n (buf.length - offset) = buf.length
      · rw [if_pos hall]
        exact List.drop_eq_nil_of_le (by rw [List.length_drop]; omega)
      · rw [if_neg hall]
        have hn : min n (buf.length - offset) = n := by omega
        rw [hn, List.drop_drop]
        refine ⟨rfl, ?_⟩
        intro hnil
        have := List.drop_eq_nil_iff.mp hnil
        omega

theorem Pending.holds_rest {buf : Str} {n : Nat} (h : n < buf.length) :
    Pending.Holds ⟨some buf, (buf.take n).length⟩ (buf.drop n) := by
  have hlen : (buf.take n).length = n := List.length_take_of_le (Nat.le_of_lt h)
  refine ⟨by rw [hlen], ?_⟩
  intro hnil
  have := List.drop_eq_nil_iff.mp hnil
  omega

theorem readSize_putUint16 {segs : List Str} {size : Nat} {rest : Str}
    (h : segs.flatten = putUint16 size ++ rest) (hsize : size ≤ maxSize) :
    ∃ segs', readSize segs = (.ok size, segs') ∧ segs'.flatten = rest := by
  have hlen : (putUint16 size).length = lenSize := rfl
  obtain ⟨segs', hread, hrest⟩ := readFull_append h hlen
  have hlt : size < 2 ^ 16 := Nat.lt_of_le_of_lt hsize (by decide)
  refine ⟨segs', ?_, hrest⟩
  simp only [readSize, hread, uint16_putUint16 hlt, if_neg (Nat.not_lt.mpr hsize)]

theorem readSize_eof {segs : List Str} (h : segs.flatten = []) :
    ∃ segs', readSize segs = (.error (.conn .eof), segs') ∧ segs'.flatten = [] := by
  have hread : ∃ segs', readFull segs (1 + 1) = (.error .eof, segs') ∧ segs'.flatten = [] :=
    readFull_eof h
  obtain ⟨segs', hread, hnil⟩ := hread
  refine ⟨segs', ?_, hnil⟩
  simp only [readSize, lenSize, hread]

/-- A reader's buffer, the state the writer had at this point and the bytes still to
come, against what is still to be handed out. -/
def KeepsUp {σ : Type} (frame : σ → Str → Option (Str × σ)) (limit : Nat) (pending : Pending) (w : σ)
    (segs : List Str) (r : Held UInt8) : Prop :=
  pending.Holds r.leftover ∧ (∀ chunk ∈ r.chunks, chunk ≠ [] ∧ chunk.length ≤ limit) ∧
    ∃ w', encode frame w r.chunks = some (segs.flatten, w')

section Readers

variable {σ : Type} {frame : σ → Str → Option (Str × σ)} {limit : Nat} {pending : Pending} {w : σ}
  {segs : List Str} {chunks : List Str}

theorem KeepsUp.left {leftover : Str} (h : KeepsUp frame limit pending w segs ⟨leftover, chunks⟩)
    (hne : leftover ≠ []) (n : Nat) :
    ∃ pending', pending.copy n = some (leftover.take n, pending') ∧
      KeepsUp frame limit pending' w segs ⟨leftover.drop n, chunks⟩ := by
  obtain ⟨hholds, hchunks⟩ := h
  obtain ⟨pending', hcopy, hrest⟩ := hholds.copy_ne_nil hne n
  exact ⟨pending', hcopy, hrest, hchunks⟩

theorem KeepsUp.next {chunk : Str} (h : KeepsUp frame limit pending w segs ⟨[], chunk :: chunks⟩) :
    ∃ head w₁ rest, frame w chunk = some (head, w₁) ∧ segs.flatten = head ++ rest ∧
      chunk.length ≤ limit ∧
      ∀ {pending' segs' leftover}, pending'.Holds leftover → segs'.flatten = rest →
        KeepsUp frame limit pending' w₁ segs' ⟨leftover, chunks⟩ := by
  obtain ⟨-, hchunks, w', hencode⟩ := h
  obtain ⟨head, w₁, rest, hframe, hrest, hflat⟩ := encode_cons_eq_some.mp hencode
  refine ⟨head, w₁, rest, hframe, hflat, (hchunks chunk List.mem_cons_self).2, ?_⟩
  intro pending' segs' leftover hholds hsegs'
  refine ⟨hholds, ?_, w', by rw [hsegs']; exact hrest⟩
  intro c hc
  exact hchunks c (List.mem_cons_of_mem chunk hc)

theorem KeepsUp.flatten_eq_nil (h : KeepsUp frame limit pending w segs ⟨[], []⟩) :
    segs.flatten = [] := by
  obtain ⟨-, -, w', hencode⟩ := h
  exact (Prod.mk.inj (Option.some.inj hencode)).1.symm

end Readers

/-! ### The plain reader -/

def ChunkReader.KeepsUp (s : ChunkReader) (r : Held UInt8) : Prop :=
  Vmess.KeepsUp chunkFrame chunkSize s.pending () s.segs r

theorem ChunkReader.read_left {s : ChunkReader} {leftover : Str} {chunks : List Str} (n : Nat)
    (hne : leftover ≠ []) (h : s.KeepsUp ⟨leftover, chunks⟩) :
    (s.read n).1 = .ok (leftover.take n) ∧ (s.read n).2.KeepsUp ⟨leftover.drop n, chunks⟩ := by
  obtain ⟨pending', hcopy, hkeeps⟩ := h.left hne n
  simp only [read, hcopy]
  exact ⟨trivial, hkeeps⟩

theorem ChunkReader.read_next {s : ChunkReader} {chunk : Str} {chunks : List Str} (n : Nat)
    (h : s.KeepsUp ⟨[], chunk :: chunks⟩) :
    (s.read n).1 = .ok (chunk.take n) ∧ (s.read n).2.KeepsUp ⟨chunk.drop n, chunks⟩ := by
  obtain ⟨head, w₁, rest, hframe, hflat, hlen, hkeeps⟩ := h.next
  have hcopy := h.1.copy_nil n
  cases hframe
  rw [List.append_assoc] at hflat
  obtain ⟨segs₁, hsize, hsegs₁⟩ := readSize_putUint16 hflat (Nat.le_trans hlen (by decide))
  obtain ⟨segs₂, hbody, hsegs₂⟩ := readFull_append hsegs₁ rfl
  by_cases hn : chunk.length ≤ n
  · simp only [read, hcopy, hsize, if_pos hn, hbody]
    rw [List.take_of_length_le hn, List.drop_eq_nil_of_le hn]
    exact ⟨rfl, hkeeps h.1 hsegs₂⟩
  · simp only [read, hcopy, hsize, if_neg hn, hbody]
    exact ⟨trivial, hkeeps (Pending.holds_rest (Nat.lt_of_not_le hn)) hsegs₂⟩

theorem ChunkReader.read_end {s : ChunkReader} (n : Nat) (h : s.KeepsUp ⟨[], []⟩) :
    (s.read n).1 = .error (.conn .eof) ∧ (s.read n).2.KeepsUp ⟨[], []⟩ := by
  obtain ⟨segs', hsize, hnil⟩ := readSize_eof h.flatten_eq_nil
  simp only [read, h.1.copy_nil n, hsize]
  exact ⟨trivial, h.1, h.2.1, (), by rw [hnil]; rfl⟩

/-! ### The reader of sealed chunks -/

/-- The writer's record of its nonces is no part of what the reader follows. -/
def AEADReader.KeepsUp (a : AEAD) (iv : Str) (s : AEADReader) (r : Held UInt8) : Prop :=
  ∃ nonces, Vmess.KeepsUp (aeadFrame a iv) (chunkSize - a.overhead) s.pending ⟨s.count, nonces⟩
    s.segs r

section Sealed

variable {a : AEAD} {iv : Str} {s : AEADReader}

theorem AEADReader.read_left {leftover : Str} {chunks : List Str} (n : Nat) (hne : leftover ≠ [])
    (h : s.KeepsUp a iv ⟨leftover, chunks⟩) :
    (s.read a iv n).1 = .ok (leftover.take n) ∧
      (s.read a iv n).2.KeepsUp a iv ⟨leftover.drop n, chunks⟩ := by
  obtain ⟨nonces, h⟩ := h
  obtain ⟨pending', hcopy, hkeeps⟩ := h.left hne n
  simp only [read, hcopy]
  exact ⟨trivial, nonces, hkeeps⟩

theorem AEADReader.read_next {chunk : Str} {chunks : List Str} (n : Nat)
    (h : s.KeepsUp a iv ⟨[], chunk :: chunks⟩) :
    (s.read a iv n).1 = .ok (chunk.take n) ∧
      (s.read a iv n).2.KeepsUp a iv ⟨chunk.drop n, chunks⟩ := by
  obtain ⟨nonces, h⟩ := h
  obtain ⟨head, w₁, rest, hframe, hflat, hlen, hkeeps⟩ := h.next
  have hcopy := h.1.copy_nil n
  have hslice : a.Sliceable iv := by
    by_contra hno
    rw [aeadFrame, if_neg hno] at hframe
    cases hframe
  rw [aeadFrame_of_sliceable hslice] at hframe
  cases hframe
  have hsum : chunk.length + a.overhead ≤ chunkSize := by
    have := hslice.1
    omega
  rw [List.append_assoc] at hflat
  obtain ⟨segs₁, hsize, hsegs₁⟩ := readSize_putUint16 hflat (Nat.le_trans hsum (by decide))
  obtain ⟨segs₂, hbody, hsegs₂⟩ := readFull_append hsegs₁ (a.length_sealText _ chunk)
  have hopen := a.openText_sealText (a.nonce iv s.count) chunk
  have hlt : ¬ chunk.length + a.overhead < a.overhead := by omega
  have hreal : chunk.length + a.overhead - a.overhead = chunk.length := by omega
  simp only [read, hcopy, hsize, hbody, hslice.2, hopen, if_neg hlt, hreal, List.take_left]
  by_cases hn : chunk.length ≤ n
  · rw [if_pos hn, List.drop_eq_nil_of_le hn]
    exact ⟨rfl, _, hkeeps h.1 hsegs₂⟩
  · rw [if_neg hn]
    exact ⟨rfl, _, hkeeps (Pending.holds_rest (Nat.lt_of_not_le hn)) hsegs₂⟩

theorem AEADReader.read_end (n : Nat) (h : s.KeepsUp a iv ⟨[], []⟩) :
    (s.read a iv n).1 = .error (.conn .eof) ∧ (s.read a iv n).2.KeepsUp a iv ⟨[], []⟩ := by
  obtain ⟨nonces, h⟩ := h
  obtain ⟨segs', hsize, hnil⟩ := readSize_eof h.flatten_eq_nil
  simp only [read, h.1.copy_nil n, hsize]
  exact ⟨trivial, nonces, h.1, h.2.1, _, by rw [hnil]; rfl⟩

end Sealed

/-! ## Nothing lost, nothing repeated -/

/-- Reads into buffers of these lengths give `content`, each byte once and in order,
with no error but the end of the stream after its last byte. -/
def ReadsBack (content : Str) (ns : List Nat) (results : List (Except ReadStop Str)) : Prop :=
  Delivers (.conn .eof) content ns results ∧ returned results <+: content ∧
    (∀ e, .error e ∈ results → e = .conn .eof ∧ returned results = content) ∧
    (content.length ≤ ns.countP (0 < ·) → returned results = content)

theorem readsBack_of_delivers {content : Str} {ns : List Nat} {results : List (Except ReadStop Str)}
    (h : Delivers (.conn .eof) content ns results) : ReadsBack content ns results :=
  ⟨h, h.returned_isPrefix, fun _ he => h.returned_of_error he, h.returned_all⟩

theorem Framed.keepsUp {σ : Type} {frame : σ → Str → Option (Str × σ)} {limit : Nat} {w w' : σ}
    {b bytes : Str} {segs : List Str} (h : Framed frame limit w b bytes w')
    (hsegs : segs.flatten = bytes) :
    ∃ chunks, b = Held.content ⟨[], chunks⟩ ∧ KeepsUp frame limit ⟨none, 0⟩ w segs ⟨[], chunks⟩ := by
  obtain ⟨payloads, hencode, hflat, hall⟩ := h
  exact ⟨payloads, hflat.symm, rfl, hall, w', by rw [hsegs]; exact hencode⟩

theorem chunk_readsBack {bs : List Str} {sink : Sink}
    (h : writes chunkWrite () ⟨[], none⟩ bs = some ((), sink)) {segs : List Str}
    (hsegs : segs.flatten = sink.stream) (ns : List Nat) :
    ReadsBack bs.flatten ns (reads ChunkReader.read (newChunkReader segs) ns) := by
  obtain ⟨bytes, rfl, hframed⟩ := writes_framed (fun _ _ _ _ => writeLoop_framed) h
  obtain ⟨chunks, hcontent, hkeeps⟩ := hframed.keepsUp hsegs
  have hsim : ChunkReader.KeepsUp (newChunkReader segs) ⟨[], chunks⟩ := hkeeps
  have hchunks : ∀ s r, ChunkReader.KeepsUp s r → ∀ chunk ∈ r.chunks, chunk ≠ [] :=
    fun _ _ h chunk hmem => (h.2.1 chunk hmem).1
  rw [hcontent]
  exact readsBack_of_delivers (reads_deliver hchunks
    (fun _ _ _ n hne h => ChunkReader.read_left n hne h) (fun _ _ _ n h => ChunkReader.read_next n h)
    (fun _ n h => ChunkReader.read_end n h) ns hsim)

theorem aead_readsBack {a : AEAD} {iv : Str} {bs : List Str} {w : AEADWriter} {sink : Sink}
    (h : writes (aeadWrite a iv) newAEADWriter ⟨[], none⟩ bs = some (w, sink)) {segs : List Str}
    (hsegs : segs.flatten = sink.stream) (ns : List Nat) :
    ReadsBack bs.flatten ns (reads (AEADReader.read a iv) (newAEADReader segs) ns) := by
  obtain ⟨bytes, rfl, hframed⟩ := writes_framed (fun _ _ _ _ => writeLoop_framed) h
  obtain ⟨chunks, hcontent, hkeeps⟩ := hframed.keepsUp hsegs
  have hsim : AEADReader.KeepsUp a iv (newAEADReader segs) ⟨[], chunks⟩ := ⟨[], hkeeps⟩
  have hchunks : ∀ s r, AEADReader.KeepsUp a iv s r → ∀ chunk ∈ r.chunks, chunk ≠ [] :=
    fun _ _ ⟨_, h⟩ chunk hmem => (h.2.1 chunk hmem).1
  rw [hcontent]
  exact readsBack_of_delivers (reads_deliver hchunks
    (fun _ _ _ n hne h => AEADReader.read_left n hne h) (fun _ _ _ n h => AEADReader.read_next n h)
    (fun _ n h => AEADReader.read_end n h) ns hsim)

/-- The body of a vmess stream is read back as it was written, plain or sealed by any
AEAD, whatever the lengths of the writes, of the reads and of the pieces in between. The
16-bit counters of writer and reader wrap together. Sealed writes return whenever
the writer's slices hold the overhead and the nonce of the AEAD. -/
theorem vmessBody_lossless (a : AEAD) (iv : Str) (bs : List Str) :
    (∃ sink, writes chunkWrite () ⟨[], none⟩ bs = some ((), sink) ∧
      ∀ segs : List Str, segs.flatten = sink.stream → ∀ ns,
        ReadsBack bs.flatten ns (reads ChunkReader.read (newChunkReader segs) ns)) ∧
    (∀ w sink, writes (aeadWrite a iv) newAEADWriter ⟨[], none⟩ bs = some (w, sink) →
      ∀ segs : List Str, segs.flatten = sink.stream → ∀ ns,
        ReadsBack bs.flatten ns (reads (AEADReader.read a iv) (newAEADReader segs) ns)) ∧
    (a.Sliceable iv → a.overhead < chunkSize →
      ∃ w sink, writes (aeadWrite a iv) newAEADWriter ⟨[], none⟩ bs = some (w, sink)) := by
  refine ⟨?_, fun w sink h segs hsegs ns => aead_readsBack h hsegs ns, ?_⟩
  · obtain ⟨⟨⟨⟩, sink⟩, h⟩ :=
      Option.isSome_iff_exists.mp (writes_isSome chunkWrite_isSome bs () ⟨[], none⟩)
    exact ⟨sink, h, fun segs hsegs ns => chunk_readsBack h hsegs ns⟩
  · intro hslice hlt
    obtain ⟨⟨w, sink⟩, h⟩ := Option.isSome_iff_exists.mp
      (writes_isSome (aeadWrite_isSome hslice hlt) bs newAEADWriter ⟨[], none⟩)
    exact ⟨w, sink, h⟩

end RuleBaseProxy.Vmess
