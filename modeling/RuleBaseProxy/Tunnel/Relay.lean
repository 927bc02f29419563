import RuleBaseProxy.Lib.Bufio
import RuleBaseProxy.Lib.StreamCopy

/-! # What a relay delivers

A connection reaches `relay` inside any number of layers. A `BufferedConn` may hold
bytes that were read ahead of the protocol that was recognised; the other layers pass
every read on. With `zeroCopy` the buffers are first emptied into the other side,
from the outermost inwards, and the copy then goes on below them.
-/

namespace RuleBaseProxy.Tunnel.Relay

open Go StreamCopy

/-- A connection without layers. Its reads bring the segments; it may give the last one
together with the end. -/
structure RawConn where
  isTCP : Bool
  segs : List Str
  endsEarly : Bool
  deriving DecidableEq

def RawConn.read (c : RawConn) (n : Nat) : Taken RawConn UInt8 :=
  match c.segs with
  | [] => ⟨[], true, c⟩
  | seg :: segs =>
      if n < seg.length then ⟨seg.take n, false, { c with segs := seg.drop n :: segs }⟩
      else ⟨seg, c.endsEarly && segs.isEmpty, { c with segs }⟩

inductive Wrapper where
  | idleConn
  | tcpTracker
  /-- `outbound.conn`. -/
  | conn (canRaw : Bool)
  deriving DecidableEq

/-- Whether `RawConn` gives what is inside and not `nil`. -/
def Wrapper.givesRaw : Wrapper → Bool
  | .idleConn => true
  | .tcpTracker => true
  | .conn canRaw => canRaw

inductive Conn where
  | raw (c : RawConn)
  /-- `BufferedConn`: the bytes in the buffer of its `bufio.Reader`, and whether the read
  that brought the last of them also brought the end. -/
  | buffered (buf : Str) (err : Bool) (inner : Conn)
  | wrapped (w : Wrapper) (inner : Conn)
  deriving DecidableEq

namespace Conn

def read : Conn → Nat → Taken Conn UInt8
  | .raw c, n => ⟨(c.read n).bytes, (c.read n).ended, .raw (c.read n).next⟩
  | .buffered buf err inner, n =>
      if buf ≠ [] then ⟨buf.take n, false, .buffered (buf.drop n) err inner⟩
      else if err then ⟨[], true, .buffered [] false inner⟩
      else if Bufio.size ≤ n then
        -- a large read does not go through the buffer
        let t := inner.read n
        ⟨t.bytes, t.ended, .buffered [] false t.next⟩
      else
        let t := inner.read Bufio.size
        if t.bytes = [] then ⟨[], t.ended, .buffered [] false t.next⟩
        else ⟨t.bytes.take n, false, .buffered (t.bytes.drop n) t.ended t.next⟩
  | .wrapped w inner, n =>
      let t := inner.read n
      ⟨t.bytes, t.ended, .wrapped w t.next⟩

def innermost : Conn → Conn
  | .raw c => .raw c
  | .buffered _ _ inner => inner.innermost
  | .wrapped _ inner => inner.innermost

def PassThrough : Conn → Prop
  | .raw _ => True
  | .buffered _ _ inner => inner.PassThrough
  | .wrapped w inner => w.givesRaw = true ∧ inner.PassThrough

end Conn

/-- What `drainAndUnwrap` has written to the target, the connection it returns (`none` is
`nil`), and the connection it was given as it is afterwards. -/
structure Drained where
  written : Str
  curr : Option Conn
  conn : Conn

def drainAndUnwrap : Conn → Drained
  | .raw c => ⟨[], some (.raw c), .raw c⟩
  | .buffered buf err inner =>
      -- `Read` of as many bytes as are buffered
      let n := buf.length
      let d := drainAndUnwrap inner
      if 0 < n then ⟨buf.take n ++ d.written, d.curr, .buffered (buf.drop n) err d.conn⟩
      else ⟨d.written, d.curr, .buffered buf err d.conn⟩
  | .wrapped w inner =>
      if w.givesRaw then
        let d := drainAndUnwrap inner
        ⟨d.written, d.curr, .wrapped w d.conn⟩
      else ⟨[], none, .wrapped w inner⟩

/-- The assertion that the connection is a `*net.TCPConn`. -/
def isTCP : Option Conn → Bool
  | some (.raw c) => c.isTCP
  | _ => false

/-- The buffers of `bufPool`. -/
def bufSize : Nat := 128 * 1024

def copyNSize : Nat := 1024 * 1024

/-- `copyFunc` of `relay`, cut off after `steps` reads. Inside the kernel the bytes are
moved in pieces. -/
def copyFunc (piece steps : Nat) (src : Drained) (dstIsTCP srcIsTCP : Bool) : Taken Conn UInt8 :=
  match src.curr with
  | some rawSrc =>
      if dstIsTCP && srcIsTCP then copyNLoop Conn.read piece copyNSize steps steps rawSrc
      else copy Conn.read bufSize steps src.conn
  | none => copy Conn.read bufSize steps src.conn

/-- `relay`: what is written to the right and to the left. Each direction is cut off after
its number of steps, as when the other one ends first and closes the connections. `none` if
there are too many connections. -/
def relay (zeroCopy : Bool) (count maxConns : Int) (piece : Nat) (steps : Nat × Nat)
    (left right : Conn) : Option (Taken Conn UInt8 × Taken Conn UInt8) :=
  if count > maxConns then none
  else
    let leftConn := Conn.wrapped .idleConn left
    let rightConn := Conn.wrapped .idleConn right
    if !zeroCopy then
      -- `noZeroCopyRelay`
      some (copy Conn.read bufSize steps.1 leftConn, copy Conn.read bufSize steps.2 rightConn)
    else
      let orgLeft := drainAndUnwrap leftConn
      let orgRight := drainAndUnwrap rightConn
      let leftIsTCP := isTCP orgLeft.curr
      let rightIsTCP := isTCP orgRight.curr
      some ((copyFunc piece steps.1 orgLeft rightIsTCP leftIsTCP).after orgLeft.written,
        (copyFunc piece steps.2 orgRight leftIsTCP rightIsTCP).after orgRight.written)

/-! ## The bytes of a connection -/

namespace Conn

/-- The bytes that are still to be read, from the outermost buffer inwards. -/
def stream : Conn → Str
  | .raw c => c.segs.flatten
  | .buffered buf _ inner => buf ++ inner.stream
  | .wrapped _ inner => inner.stream

def weight : Conn → Nat
  | .raw c => ChunkedStream.weight c.segs
  | .buffered buf _ inner => buf.length + inner.weight
  | .wrapped _ inner => inner.weight

/-- A reader that has seen the end has nothing below it. -/
def Settled : Conn → Prop
  | .raw _ => True
  | .buffered _ err inner => inner.Settled ∧ (err = true → inner.stream = [])
  | .wrapped _ inner => inner.Settled

theorem raw_reads (c : RawConn) {n : Nat} (hn : 0 < n) :
    Reads Settled stream weight n (.raw c) ((Conn.raw c).read n) := by
  rcases c with ⟨isTCP, segs, endsEarly⟩
  rw [Conn.read, RawConn.read]
  cases segs with
  | nil => exact ⟨⟨trivial, rfl, Nat.le_refl _⟩, Nat.zero_le _, fun _ => rfl, fun h => nomatch h⟩
  | cons seg segs =>
      by_cases hlt : n < seg.length
      · simp only [if_pos hlt]
        refine ⟨⟨trivial, ?_, ?_⟩, ?_, ?_, ?_⟩
        · simp only [stream, List.flatten_cons]
          rw [← List.append_assoc, List.take_append_drop]
        · simp only [weight, ChunkedStream.weight, List.flatten_cons, List.length_append,
            List.length_drop, List.length_take, List.length_cons]
          omega
        · exact List.length_take_le n seg
        · intro h
          cases h
        · intro _ hnil
          have hlen := congrArg List.length hnil
          rw [List.length_take, List.length_nil] at hlen
          omega
      · simp only [if_neg hlt]
        refine ⟨⟨trivial, rfl, ?_⟩, Nat.le_of_not_lt hlt, ?_, ?_⟩
        · simp only [weight, ChunkedStream.weight, List.flatten_cons, List.length_append,
            List.length_cons]
          omega
        · intro hend
          rw [Bool.and_eq_true, List.isEmpty_iff] at hend
          simp only [stream, hend.2, List.flatten_nil]
        · intro _ _
          simp only [weight, ChunkedStream.weight, List.flatten_cons, List.length_append,
            List.length_cons]
          omega

theorem buffered_reads {buf : Str} (hbuf : buf ≠ []) {err : Bool} {inner : Conn} {n : Nat}
    (hn : 0 < n) (hs : (Conn.buffered buf err inner).Settled) :
    Reads Settled stream weight n (.buffered buf err inner)
      ⟨buf.take n, false, .buffered (buf.drop n) err inner⟩ := by
  refine ⟨⟨hs, ?_, ?_⟩, List.length_take_le n buf, ?_, ?_⟩
  · simp only [stream]
    rw [← List.append_assoc, List.take_append_drop]
  · simp only [weight, List.length_drop, List.length_take]
    omega
  · intro h
    cases h
  · intro _ hnil
    rcases List.take_eq_nil_iff.mp hnil with hzero | hempty
    · omega
    · exact absurd hempty hbuf

theorem buffered_reads_through {inner : Conn} {n m : Nat} {t : Taken Conn UInt8}
    (h : Reads Settled stream weight m inner t) (hlen : t.bytes.length ≤ n) :
    Reads Settled stream weight n (.buffered [] false inner)
      ⟨t.bytes, t.ended, .buffered [] false t.next⟩ := by
  refine ⟨⟨⟨h.inv, fun herr => nomatch herr⟩, ?_, ?_⟩, hlen, h.ended, ?_⟩
  · exact h.content_eq
  · have hle := h.weight_le
    simp only [weight, List.length_nil]
    omega
  · intro hended hbytes
    have hlt := h.progress hended hbytes
    simp only [weight, List.length_nil]
    omega

/-- A read that fills the empty buffer and takes from there. -/
theorem buffered_reads_fill {inner : Conn} {n m : Nat} (hn : 0 < n) {t : Taken Conn UInt8}
    (h : Reads Settled stream weight m inner t) (hbytes : t.bytes ≠ []) :
    Reads Settled stream weight n (.buffered [] false inner)
      ⟨t.bytes.take n, false, .buffered (t.bytes.drop n) t.ended t.next⟩ := by
  refine ⟨⟨⟨h.inv, h.ended⟩, ?_, ?_⟩, List.length_take_le n t.bytes, ?_, ?_⟩
  · simp only [stream, List.nil_append]
    rw [← List.append_assoc, List.take_append_drop, h.content_eq]
  · have hle := h.weight_le
    simp only [weight, List.length_drop, List.length_take, List.length_nil]
    omega
  · intro hended
    cases hended
  · intro _ hnil
    rcases List.take_eq_nil_iff.mp hnil with hzero | hempty
    · omega
    · exact absurd hempty hbytes

theorem read_lawful : Lawful Conn.read Settled stream weight := by
  intro c
  induction c with
  | raw c =>
      intro n hn _
      exact raw_reads c hn
  | buffered buf err inner ih =>
      intro n hn hs
      rw [Conn.read]
      by_cases hbuf : buf = []
      · subst hbuf
        rw [if_neg (fun h => h rfl)]
        cases err with
        | true =>
            have hempty : inner.stream = [] := hs.2 rfl
            refine ⟨⟨⟨hs.1, fun h => nomatch h⟩, rfl, Nat.le_refl _⟩, Nat.zero_le n, ?_, ?_⟩
            · intro _
              exact hempty
            · intro h
              cases h
        | false =>
            rw [if_neg Bool.false_ne_true]
            by_cases hlarge : Bufio.size ≤ n
            · have hread := ih n hn hs.1
              rw [if_pos hlarge]
              exact buffered_reads_through hread hread.length_le
            · have hread := ih Bufio.size (by decide) hs.1
              rw [if_neg hlarge]
              by_cases hbytes : (inner.read Bufio.size).bytes = []
              · have hthrough := buffered_reads_through (n := n) hread (by simp [hbytes])
                rw [hbytes] at hthrough
                simp only [if_pos hbytes]
                exact hthrough
              · simp only [if_neg hbytes]
                exact buffered_reads_fill hn hread hbytes
      · rw [if_pos hbuf]
        exact buffered_reads hbuf hn hs
  | wrapped w inner ih =>
      intro n hn hs
      have hread := ih n hn hs
      exact ⟨⟨hread.inv, hread.content_eq, hread.weight_le⟩, hread.length_le, hread.ended,
        hread.progress⟩

end Conn

/-! ## Draining -/

/-- The buffer goes out as a whole, before what comes from further in. -/
theorem drainAndUnwrap_buffered (buf : Str) (err : Bool) (inner : Conn) :
    drainAndUnwrap (.buffered buf err inner) =
      ⟨buf ++ (drainAndUnwrap inner).written, (drainAndUnwrap inner).curr,
        .buffered [] err (drainAndUnwrap inner).conn⟩ := by
  rw [drainAndUnwrap]
  cases buf with
  | nil => rfl
  | cons b bs =>
      have hpos : 0 < (b :: bs).length := Nat.succ_pos _
      simp only [if_pos hpos, List.take_length, List.drop_length]

theorem drainAndUnwrap_wrapped {w : Wrapper} (hw : w.givesRaw = true) (inner : Conn) :
    drainAndUnwrap (.wrapped w inner) =
      ⟨(drainAndUnwrap inner).written, (drainAndUnwrap inner).curr,
        .wrapped w (drainAndUnwrap inner).conn⟩ := by
  rw [drainAndUnwrap]
  simp only [hw, if_true]

theorem drainAndUnwrap_refused {w : Wrapper} (hw : w.givesRaw = false) (inner : Conn) :
    drainAndUnwrap (.wrapped w inner) = ⟨[], none, .wrapped w inner⟩ := by
  rw [drainAndUnwrap]
  simp only [hw, Bool.false_eq_true, if_false]

/-- What was written and what is left are the bytes that were there. -/
theorem drainAndUnwrap_stream (c : Conn) :
    (drainAndUnwrap c).written ++ (drainAndUnwrap c).conn.stream = c.stream := by
  induction c with
  | raw c => rfl
  | buffered buf err inner ih =>
      rw [drainAndUnwrap_buffered]
      simp only [Conn.stream, List.nil_append, List.append_assoc, ih]
  | wrapped w inner ih =>
      cases hw : w.givesRaw with
      | true =>
          rw [drainAndUnwrap_wrapped hw]
          exact ih
      | false =>
          rw [drainAndUnwrap_refused hw]
          rfl

theorem drainAndUnwrap_settled {c : Conn} (h : c.Settled) : (drainAndUnwrap c).conn.Settled := by
  induction c with
  | raw c => trivial
  | buffered buf err inner ih =>
      rw [drainAndUnwrap_buffered]
      refine ⟨ih h.1, ?_⟩
      intro herr
      have hstream := drainAndUnwrap_stream inner
      rw [h.2 herr] at hstream
      exact (List.append_eq_nil_iff.mp hstream).2
  | wrapped w inner ih =>
      cases hw : w.givesRaw with
      | true =>
          rw [drainAndUnwrap_wrapped hw]
          exact ih h
      | false =>
          rw [drainAndUnwrap_refused hw]
          exact h

/-- Only the innermost connection is returned, and above it nothing is left. -/
theorem drainAndUnwrap_eq_some {c curr : Conn} (h : (drainAndUnwrap c).curr = some curr) :
    curr = c.innermost ∧ (drainAndUnwrap c).conn.stream = curr.stream := by
  induction c with
  | raw c =>
      cases h
      exact ⟨rfl, rfl⟩
  | buffered buf err inner ih =>
      rw [drainAndUnwrap_buffered] at h ⊢
      exact ih h
  | wrapped w inner ih =>
      cases hw : w.givesRaw with
      | true =>
          rw [drainAndUnwrap_wrapped hw] at h ⊢
          exact ih h
      | false =>
          rw [drainAndUnwrap_refused hw] at h
          cases h

theorem drainAndUnwrap_curr {c : Conn} (h : c.PassThrough) :
    (drainAndUnwrap c).curr = some c.innermost := by
  induction c with
  | raw c => rfl
  | buffered buf err inner ih =>
      rw [drainAndUnwrap_buffered]
      exact ih h
  | wrapped w inner ih =>
      rw [drainAndUnwrap_wrapped h.1]
      exact ih h.2

theorem innermost_settled (c : Conn) : c.innermost.Settled := by
  induction c with
  | raw c => trivial
  | buffered buf err inner ih => exact ih
  | wrapped w inner ih => exact ih

/-! ## The branches of `relay` -/

/-- A copy of the connection, cut off after any number of steps. -/
structure Copies (bytes : Str) (copied : Nat → Taken Conn UInt8) : Prop where
  isPrefix : ∀ steps, (copied steps).bytes <+: bytes
  all : ∃ enough, ∀ steps, enough ≤ steps →
    (copied steps).ended = true ∧ (copied steps).bytes = bytes

theorem Copies.after {bytes : Str} {copied : Nat → Taken Conn UInt8} (h : Copies bytes copied)
    (written : Str) : Copies (written ++ bytes) fun steps => (copied steps).after written := by
  refine ⟨fun steps => ?_, ?_⟩
  · exact (List.prefix_append_right_inj written).mpr (h.isPrefix steps)
  · rcases h.all with ⟨enough, hall⟩
    refine ⟨enough, fun steps hsteps => ⟨(hall steps hsteps).1, ?_⟩⟩
    rw [Taken.after_bytes, (hall steps hsteps).2]

theorem copy_copies {c : Conn} (h : c.Settled) :
    Copies c.stream fun steps => copy Conn.read bufSize steps c := by
  have hpos : 0 < bufSize := by decide
  refine ⟨fun steps => ?_, c.weight + 1, fun steps hsteps => ?_⟩
  · exact ⟨_, (Conn.read_lawful.copy_takes hpos steps h).1.content_eq⟩
  · exact Conn.read_lawful.copy_eq hpos h hsteps

theorem copyNLoop_copies {c : Conn} (h : c.Settled) {piece : Nat} (hpiece : 0 < piece) :
    Copies c.stream fun steps => copyNLoop Conn.read piece copyNSize steps steps c := by
  have hpos : 0 < copyNSize := by decide
  refine ⟨fun steps => ?_, c.weight + 1, fun steps hsteps => ?_⟩
  · exact ⟨_, (Conn.read_lawful.copyNLoop_takes hpiece hpos steps steps h).1.content_eq⟩
  · exact Conn.read_lawful.copyNLoop_eq hpiece hpos h hsteps hsteps

/-- After draining, either way of copying brings the rest. -/
theorem copyFunc_copies {c : Conn} (h : c.Settled) {piece : Nat} (hpiece : 0 < piece)
    (dstIsTCP srcIsTCP : Bool) :
    Copies (drainAndUnwrap c).conn.stream
      fun steps => copyFunc piece steps (drainAndUnwrap c) dstIsTCP srcIsTCP := by
  unfold copyFunc
  cases hcurr : (drainAndUnwrap c).curr with
  | none => exact copy_copies (drainAndUnwrap_settled h)
  | some rawSrc =>
      cases hfast : dstIsTCP && srcIsTCP with
      | false => exact copy_copies (drainAndUnwrap_settled h)
      | true =>
          have hraw := drainAndUnwrap_eq_some hcurr
          have hsettled : rawSrc.Settled := by
            rw [hraw.1]
            exact innermost_settled c
          rw [hraw.2]
          exact copyNLoop_copies hsettled hpiece

theorem relay_copies {left right : Conn} (hleft : left.Settled) (hright : right.Settled)
    (zeroCopy : Bool) {count maxConns : Int} (hcount : count ≤ maxConns) {piece : Nat}
    (hpiece : 0 < piece) :
    ∃ toRight toLeft : Nat → Taken Conn UInt8,
      (∀ steps, relay zeroCopy count maxConns piece steps left right =
        some (toRight steps.1, toLeft steps.2)) ∧
      Copies left.stream toRight ∧ Copies right.stream toLeft := by
  have hnot : ¬ count > maxConns := by omega
  have hdrained : ∀ {c : Conn}, c.Settled → ∀ dstIsTCP srcIsTCP,
      Copies c.stream fun steps =>
        (copyFunc piece steps (drainAndUnwrap c) dstIsTCP srcIsTCP).after
          (drainAndUnwrap c).written := by
    intro c hc dstIsTCP srcIsTCP
    have hcopies := (copyFunc_copies hc hpiece dstIsTCP srcIsTCP).after (drainAndUnwrap c).written
    rwa [drainAndUnwrap_stream] at hcopies
  unfold relay
  simp only [if_neg hnot]
  cases zeroCopy with
  | false =>
      exact ⟨_, _, fun _ => rfl, copy_copies (c := .wrapped .idleConn left) hleft,
        copy_copies (c := .wrapped .idleConn right) hright⟩
  | true =>
      exact ⟨_, _, fun _ => rfl, hdrained (c := .wrapped .idleConn left) hleft _ _,
        hdrained (c := .wrapped .idleConn right) hright _ _⟩

/-- `drainAndUnwrap` returns the innermost connection, and what it has written followed by
what can be read there is what reading the whole connection would have brought. With and
without `zeroCopy` each side is given exactly what reading the other one would have
brought. -/
theorem relay_delivers_stream (left right : Conn) (hpass : left.PassThrough)
    (hleft : left.Settled) (hright : right.Settled) :
    ∃ leftBytes rightBytes rest,
      Produces Conn.read left leftBytes ∧ Produces Conn.read right rightBytes ∧
      (drainAndUnwrap left).curr = some left.innermost ∧
      Produces Conn.read left.innermost rest ∧
      (drainAndUnwrap left).written ++ rest = leftBytes ∧
      ∀ (zeroCopy : Bool) (count maxConns : Int) (piece : Nat), count ≤ maxConns → 0 < piece →
        ∃ enough, ∀ steps : Nat × Nat, enough ≤ steps.1 → enough ≤ steps.2 →
          ∃ toRight toLeft,
            relay zeroCopy count maxConns piece steps left right = some (toRight, toLeft) ∧
            toRight.ended = true ∧ toRight.bytes = leftBytes ∧
            toLeft.ended = true ∧ toLeft.bytes = rightBytes := by
  have hcurr := drainAndUnwrap_curr hpass
  have hrest : (drainAndUnwrap left).written ++ left.innermost.stream = left.stream := by
    rw [← (drainAndUnwrap_eq_some hcurr).2]
    exact drainAndUnwrap_stream left
  refine ⟨left.stream, right.stream, left.innermost.stream, Conn.read_lawful.produces hleft,
    Conn.read_lawful.produces hright, hcurr, Conn.read_lawful.produces (innermost_settled left),
    hrest, ?_⟩
  intro zeroCopy count maxConns piece hcount hpiece
  rcases relay_copies hleft hright zeroCopy hcount hpiece with
    ⟨toRight, toLeft, hrelay, htoRight, htoLeft⟩
  rcases htoRight.all with ⟨enoughRight, hallRight⟩
  rcases htoLeft.all with ⟨enoughLeft, hallLeft⟩
  refine ⟨max enoughRight enoughLeft, fun steps hfirst hsecond => ?_⟩
  have hdoneRight := hallRight steps.1 (by omega)
  have hdoneLeft := hallLeft steps.2 (by omega)
  exact ⟨_, _, hrelay steps, hdoneRight.1, hdoneRight.2, hdoneLeft.1, hdoneLeft.2⟩

/-- The mixed listener's buffer around the tracker around the buffer of the HTTP handler. -/
def nested : Conn :=
  .buffered (str "CON") false (.wrapped .tcpTracker (.buffered (str "NECT ") false
    (.wrapped (.conn true) (.raw ⟨true, [str "a:443", [], str " HTTP/1.1"], false⟩))))

theorem relay_delivers_nested :
    nested.PassThrough ∧ nested.Settled ∧
      (drainAndUnwrap nested).curr = some nested.innermost ∧
      ∃ rest, Produces Conn.read nested.innermost rest ∧
        Produces Conn.read nested ((drainAndUnwrap nested).written ++ rest) := by
  have hpass : nested.PassThrough := ⟨rfl, rfl, trivial⟩
  have hsettled : nested.Settled := ⟨⟨trivial, fun h => nomatch h⟩, fun h => nomatch h⟩
  rcases relay_delivers_stream nested nested hpass hsettled hsettled with
    ⟨leftBytes, rightBytes, rest, hleft, -, hcurr, hrest, hbytes, -⟩
  rw [← hbytes] at hleft
  exact ⟨hpass, hsettled, hcurr, rest, hrest, hleft⟩

end RuleBaseProxy.Tunnel.Relay
