import Mathlib.Data.List.Basic

/-! # Streams that come in pieces

Two sides of `io.Reader`. Below, a connection delivers its bytes in segments of
any lengths, and `io.ReadFull` puts them together. Above, a reader hands out
chunks through buffers of any lengths and keeps what did not fit. `Delivers`
says that such a sequence of reads gives the bytes of a stream, each once and
in order, and ends with them.
-/

namespace ChunkedStream

variable {β : Type u} {ε : Type v}

/-! ## Segments -/

inductive ReadError where
  | eof
  | unexpectedEOF
deriving DecidableEq

/-- `io.ReadFull` of `n` bytes from a connection whose next reads give these segments. -/
def readFull : List (List β) → Nat → Except ReadError (List β) × List (List β)
  | segs, 0 => (.ok [], segs)
  | [], _ + 1 => (.error .eof, [])
  | seg :: segs, n + 1 =>
      if n + 1 ≤ seg.length then (.ok (seg.take (n + 1)), seg.drop (n + 1) :: segs)
      else
        match readFull segs (n + 1 - seg.length) with
        | (.ok bs, segs) => (.ok (seg ++ bs), segs)
        | (.error e, segs) => (.error (if seg = [] then e else .unexpectedEOF), segs)

/-- Whatever the segments, the next `n` bytes are read. -/
theorem readFull_append {n : Nat} {segs : List (List β)} {bs rest : List β}
    (h : segs.flatten = bs ++ rest) (hn : bs.length = n) :
    ∃ segs', readFull segs n = (.ok bs, segs') ∧ segs'.flatten = rest := by
  induction segs generalizing n bs with
  | nil =>
      have hbs : bs = [] := (List.append_eq_nil_iff.mp h.symm).1
      have hrest : rest = [] := (List.append_eq_nil_iff.mp h.symm).2
      subst hbs hrest hn
      exact ⟨[], rfl, rfl⟩
  | cons seg segs ih =>
      cases n with
      | zero =>
          have hbs : bs = [] := List.length_eq_zero_iff.mp hn
          subst hbs
          exact ⟨seg :: segs, rfl, h⟩
      | succ n =>
          rw [List.flatten_cons] at h
          rw [readFull]
          by_cases hle : n + 1 ≤ seg.length
          · have htake : seg.take (n + 1) = bs := by
              have := congrArg (List.take (n + 1)) h
              rwa [List.take_append_of_le_length hle, ← hn, List.take_left, hn] at this
            have hdrop : seg.drop (n + 1) ++ segs.flatten = rest := by
              have := congrArg (List.drop (n + 1)) h
              rwa [List.drop_append_of_le_length hle, ← hn, List.drop_left, hn] at this
            exact ⟨_, by rw [if_pos hle, htake], by rw [List.flatten_cons, hdrop]⟩
          · obtain ⟨more, rfl⟩ : seg <+: bs :=
              List.prefix_of_prefix_length_le ⟨segs.flatten, h⟩ (List.prefix_append bs rest)
                (by omega)
            rw [List.append_assoc] at h
            rw [List.length_append] at hn
            have hmore : more.length = n + 1 - seg.length := by omega
            obtain ⟨segs', hread, hflat⟩ := ih (List.append_cancel_left h) hmore
            exact ⟨segs', by rw [if_neg hle, hread], hflat⟩

theorem readFull_eq_ok {n : Nat} {segs segs' : List (List β)} {bs : List β}
    (h : readFull segs n = (.ok bs, segs')) :
    segs.flatten = bs ++ segs'.flatten ∧ bs.length = n := by
  induction segs generalizing n bs with
  | nil =>
      cases n with
      | zero =>
          cases h
          exact ⟨rfl, rfl⟩
      | succ n => cases h
  | cons seg segs ih =>
      cases n with
      | zero =>
          cases h
          exact ⟨rfl, rfl⟩
      | succ n =>
          rw [readFull] at h
          split at h
          · rename_i hle
            cases h
            refine ⟨?_, List.length_take_of_le hle⟩
            rw [List.flatten_cons, List.flatten_cons, ← List.append_assoc, List.take_append_drop]
          · rename_i hle
            cases hrest : readFull segs (n + 1 - seg.length) with
            | mk result left =>
                rw [hrest] at h
                cases result with
                | error e => cases h
                | ok more =>
                    cases h
                    have hih := ih hrest
                    refine ⟨?_, ?_⟩
                    · rw [List.flatten_cons, hih.1, List.append_assoc]
                    · rw [List.length_append, hih.2]
                      omega

theorem readFull_eof {n : Nat} {segs : List (List β)} (h : segs.flatten = []) :
    ∃ segs', readFull segs (n + 1) = (.error .eof, segs') ∧ segs'.flatten = [] := by
  induction segs with
  | nil => exact ⟨[], rfl, rfl⟩
  | cons seg segs ih =>
      rw [List.flatten_cons, List.append_eq_nil_iff] at h
      obtain ⟨rfl, hsegs⟩ := h
      obtain ⟨segs', hread, hflat⟩ := ih hsegs
      refine ⟨segs', ?_, hflat⟩
      rw [readFull, if_neg (by simp)]
      simp only [List.length_nil, Nat.sub_zero, hread, if_true]

/-- Where the bytes do not suffice, all of them are gone. -/
theorem readFull_eq_error {n : Nat} {segs segs' : List (List β)} {e : ReadError}
    (h : readFull segs n = (.error e, segs')) : segs' = [] ∧ segs.flatten.length < n := by
  induction segs generalizing n e with
  | nil =>
      cases n with
      | zero => cases h
      | succ n =>
          cases h
          exact ⟨rfl, Nat.succ_pos n⟩
  | cons seg segs ih =>
      cases n with
      | zero => cases h
      | succ n =>
          rw [readFull] at h
          split at h
          · cases h
          · rename_i hle
            cases hrest : readFull segs (n + 1 - seg.length) with
            | mk result left =>
                rw [hrest] at h
                cases result with
                | ok more => cases h
                | error e' =>
                    cases h
                    have hih := ih hrest
                    rw [List.flatten_cons, List.length_append]
                    exact ⟨hih.1, by omega⟩

theorem readFull_length_le (segs : List (List β)) (n : Nat) :
    (readFull segs n).2.length ≤ segs.length := by
  induction segs generalizing n with
  | nil => cases n <;> simp [readFull]
  | cons seg segs ih =>
      cases n with
      | zero => simp [readFull]
      | succ n =>
          have hrest := ih (n + 1 - seg.length)
          rw [readFull]
          split
          · simp
          · cases hread : readFull segs (n + 1 - seg.length) with
            | mk result left =>
                rw [hread] at hrest
                simp only [List.length_cons]
                cases result <;> exact Nat.le_succ_of_le hrest

/-- `io.ReadFull` with the bytes it has put into the buffer when it fails. -/
def readFullPartial (segs : List (List β)) (n : Nat) :
    List β × Option ReadError × List (List β) :=
  match readFull segs n with
  | (.ok bs, segs') => (bs, none, segs')
  | (.error e, segs') => (segs.flatten, some e, segs')

section Partial

variable {segs segs' : List (List β)} {n : Nat} {bytes : List β} {err : Option ReadError}

theorem readFullPartial_eq (h : readFullPartial segs n = (bytes, err, segs')) :
    segs.flatten = bytes ++ segs'.flatten ∧
      (err = none ∧ bytes.length = n ∨ err.isSome ∧ bytes.length < n ∧ segs' = []) := by
  unfold readFullPartial at h
  split at h
  · rename_i hread
    cases h
    have hok := readFull_eq_ok hread
    exact ⟨hok.1, Or.inl ⟨rfl, hok.2⟩⟩
  · rename_i hread
    cases h
    have herror := readFull_eq_error hread
    exact ⟨by simp [herror.1], Or.inr ⟨rfl, herror.2, herror.1⟩⟩

theorem readFullPartial_length_le (h : readFullPartial segs n = (bytes, err, segs')) :
    bytes.length ≤ n := by
  rcases (readFullPartial_eq h).2 with ⟨-, hlen⟩ | ⟨-, hlen, -⟩ <;> omega

end Partial

theorem readFullPartial_append {n : Nat} {segs : List (List β)} {bs rest : List β}
    (h : segs.flatten = bs ++ rest) (hn : bs.length = n) :
    ∃ segs', readFullPartial segs n = (bs, none, segs') ∧ segs'.flatten = rest := by
  rcases readFull_append h hn with ⟨segs', hread, hrest⟩
  exact ⟨segs', by rw [readFullPartial, hread], hrest⟩

/-- One `Read` into a buffer of `n` bytes: what there is of the next segment. The end comes in a
read of its own or, where `early` says so, together with the last bytes. `io.ReadFull` above does
not see the difference. -/
def readOnce (early : Bool) : List (List β) → Nat → List β × Option ReadError × List (List β)
  | [], _ => ([], some .eof, [])
  | seg :: segs, n =>
      if n < seg.length then (seg.take n, none, seg.drop n :: segs)
      else (seg, if early && segs.flatten.isEmpty then some .eof else none, segs)

def weight (segs : List (List β)) : Nat := segs.flatten.length + segs.length

/-- A read takes some of the next bytes, perhaps none, but then a segment is used up. -/
theorem readOnce_append (early : Bool) {n : Nat} {segs : List (List β)} {bs rest : List β}
    (h : segs.flatten = bs ++ rest) (hpos : 0 < n) (hn : n ≤ bs.length) :
    ∃ out more segs', readOnce early segs n =
        (out, if early && segs'.flatten.isEmpty then some .eof else none, segs') ∧
      bs = out ++ more ∧ segs'.flatten = more ++ rest ∧ weight segs' < weight segs := by
  cases segs with
  | nil =>
      have hbs : bs = [] := (List.append_eq_nil_iff.mp h.symm).1
      rw [hbs, List.length_nil] at hn
      omega
  | cons seg segs =>
      rw [List.flatten_cons] at h
      rw [readOnce]
      by_cases hlt : n < seg.length
      · have htake : seg.take n <+: bs := by
          refine List.prefix_of_prefix_length_le ⟨seg.drop n ++ segs.flatten, ?_⟩
            (List.prefix_append bs rest) ?_
          · rw [← List.append_assoc, List.take_append_drop, h]
          · rw [List.length_take]
            omega
        rcases htake with ⟨more, rfl⟩
        have hsplit : seg.drop n ++ segs.flatten = more ++ rest := by
          have hseg : seg.take n ++ (seg.drop n ++ segs.flatten) = seg.take n ++ (more ++ rest) := by
            rw [← List.append_assoc, List.take_append_drop, h, List.append_assoc]
          exact List.append_cancel_left hseg
        have hmore : (seg.drop n :: segs).flatten.isEmpty = false := by
          simp [List.drop_eq_nil_iff, Nat.not_le.mpr hlt]
        refine ⟨_, more, seg.drop n :: segs, ?_, rfl, hsplit, ?_⟩
        · rw [if_pos hlt, hmore, Bool.and_false, if_neg Bool.false_ne_true]
        · simp only [weight, List.flatten_cons, List.length_append, List.length_drop,
            List.length_cons]
          omega
      · have hseg : seg <+: bs :=
          List.prefix_of_prefix_length_le ⟨segs.flatten, h⟩ (List.prefix_append bs rest) (by omega)
        rcases hseg with ⟨more, rfl⟩
        rw [List.append_assoc] at h
        refine ⟨seg, more, segs, by rw [if_neg hlt], rfl, List.append_cancel_left h, ?_⟩
        simp only [weight, List.flatten_cons, List.length_append, List.length_cons]
        omega

/-! ## Frames -/

/-- A writer with a state of its own puts chunk after chunk into frames. -/
def encode {σ : Type w} (frame : σ → List β → Option (List β × σ)) :
    σ → List (List β) → Option (List β × σ)
  | s, [] => some ([], s)
  | s, chunk :: chunks => do
      let (bytes, s) ← frame s chunk
      let (rest, s) ← encode frame s chunks
      some (bytes ++ rest, s)

theorem encode_cons_eq_some {σ : Type w} {frame : σ → List β → Option (List β × σ)} {s s' : σ}
    {chunk : List β} {chunks : List (List β)} {bytes : List β} :
    encode frame s (chunk :: chunks) = some (bytes, s') ↔
      ∃ head s₁ rest, frame s chunk = some (head, s₁) ∧
        encode frame s₁ chunks = some (rest, s') ∧ bytes = head ++ rest := by
  rw [encode]
  cases hframe : frame s chunk with
  | none => simp
  | some head =>
      cases hrest : encode frame head.2 chunks with
      | none => grind
      | some rest => grind

theorem encode_append {σ : Type w} {frame : σ → List β → Option (List β × σ)} {s s₁ s₂ : σ}
    {chunks more : List (List β)} {bytes rest : List β}
    (h : encode frame s chunks = some (bytes, s₁)) (hmore : encode frame s₁ more = some (rest, s₂)) :
    encode frame s (chunks ++ more) = some (bytes ++ rest, s₂) := by
  induction chunks generalizing s bytes with
  | nil =>
      cases h
      exact hmore
  | cons chunk chunks ih =>
      obtain ⟨head, s', tail, hframe, htail, rfl⟩ := encode_cons_eq_some.mp h
      rw [List.cons_append, List.append_assoc]
      exact encode_cons_eq_some.mpr ⟨head, s', tail ++ rest, hframe, ih htail, rfl⟩

/-! ## Chunks -/

/-- What a reader of chunks still has to hand out: what earlier buffers had no room
for, then the chunks. -/
structure Held (β : Type u) where
  leftover : List β
  chunks : List (List β)

def Held.content (r : Held β) : List β := r.leftover ++ r.chunks.flatten

/-- The results of reads into buffers of these lengths are the bytes `content`:
each read takes the next ones, at least one if its buffer has room, and the end
comes when there are none left and not before. -/
def Delivers (eof : ε) : List β → List Nat → List (Except ε (List β)) → Prop
  | _, [], [] => True
  | content, n :: ns, .ok out :: results =>
      ∃ rest, content = out ++ rest ∧ out.length ≤ n ∧ (0 < n → out ≠ []) ∧
        Delivers eof rest ns results
  | content, _ :: ns, .error e :: results => e = eof ∧ content = [] ∧ Delivers eof content ns results
  | _, _, _ => False

/-- Any reader, given by its read function, into buffers of these lengths. -/
def reads {σ : Type w} (read : σ → Nat → Except ε (List β) × σ) :
    σ → List Nat → List (Except ε (List β))
  | _, [] => []
  | s, n :: ns => (read s n).1 :: reads read (read s n).2 ns

theorem Delivers.take {eof : ε} {bs rest : List β} {n : Nat} {ns : List Nat}
    {results : List (Except ε (List β))} (hbs : bs ≠ [])
    (h : Delivers eof (bs.drop n ++ rest) ns results) :
    Delivers eof (bs ++ rest) (n :: ns) (.ok (bs.take n) :: results) := by
  refine ⟨bs.drop n ++ rest, ?_, List.length_take_le .., ?_, h⟩
  · rw [← List.append_assoc, List.take_append_drop]
  · intro hn hnil
    obtain hzero | hempty := List.take_eq_nil_iff.mp hnil
    · omega
    · exact hbs hempty

/-- A reader delivers what it holds if it serves the leftover first, then opens the
next chunk and keeps what does not fit, and reports the end when it has neither. -/
theorem reads_deliver {σ : Type w} {read : σ → Nat → Except ε (List β) × σ} {eof : ε}
    {Sim : σ → Held β → Prop}
    (hchunks : ∀ s r, Sim s r → ∀ chunk ∈ r.chunks, chunk ≠ [])
    (hleft : ∀ s leftover chunks n, leftover ≠ [] → Sim s ⟨leftover, chunks⟩ →
      (read s n).1 = .ok (leftover.take n) ∧ Sim (read s n).2 ⟨leftover.drop n, chunks⟩)
    (hnext : ∀ s chunk chunks n, Sim s ⟨[], chunk :: chunks⟩ →
      (read s n).1 = .ok (chunk.take n) ∧ Sim (read s n).2 ⟨chunk.drop n, chunks⟩)
    (hend : ∀ s n, Sim s ⟨[], []⟩ → (read s n).1 = .error eof ∧ Sim (read s n).2 ⟨[], []⟩)
    (ns : List Nat) {s : σ} {r : Held β} (h : Sim s r) :
    Delivers eof r.content ns (reads read s ns) := by
  induction ns generalizing s r with
  | nil => trivial
  | cons n ns ih =>
      rw [reads]
      obtain ⟨leftover, chunks⟩ := r
      match leftover, chunks with
      | b :: bs, chunks =>
          obtain ⟨hread, hsim⟩ := hleft s (b :: bs) chunks n (List.cons_ne_nil b bs) h
          rw [hread]
          exact (ih hsim).take (List.cons_ne_nil b bs)
      | [], chunk :: chunks =>
          obtain ⟨hread, hsim⟩ := hnext s chunk chunks n h
          rw [hread]
          exact (ih hsim).take (hchunks s _ h chunk List.mem_cons_self)
      | [], [] =>
          obtain ⟨hread, hsim⟩ := hend s n h
          rw [hread]
          exact ⟨rfl, rfl, ih hsim⟩

/-! ## What delivery means for the bytes as a whole -/

def returned : List (Except ε (List β)) → List β
  | [] => []
  | .ok out :: results => out ++ returned results
  | .error _ :: results => returned results

theorem Delivers.returned_isPrefix {eof : ε} {content : List β} {ns : List Nat}
    {results : List (Except ε (List β))} (h : Delivers eof content ns results) :
    returned results <+: content := by
  induction results generalizing content ns with
  | nil => exact List.nil_prefix
  | cons result results ih =>
      cases ns with
      | nil => exact h.elim
      | cons n ns =>
          cases result with
          | error e => exact ih h.2.2
          | ok out =>
              obtain ⟨rest, rfl, -, -, hrest⟩ := h
              exact (List.prefix_append_right_inj out).mpr (ih hrest)

theorem Delivers.returned_of_error {eof e : ε} {content : List β} {ns : List Nat}
    {results : List (Except ε (List β))} (h : Delivers eof content ns results)
    (he : .error e ∈ results) : e = eof ∧ returned results = content := by
  induction results generalizing content ns with
  | nil => cases he
  | cons result results ih =>
      cases ns with
      | nil => exact h.elim
      | cons n ns =>
          cases result with
          | error e' =>
              obtain ⟨rfl, rfl, hrest⟩ := h
              have hnil : returned results = [] := List.prefix_nil.mp hrest.returned_isPrefix
              obtain heq | he := List.mem_cons.mp he
              · cases heq
                exact ⟨rfl, hnil⟩
              · exact ih hrest he
          | ok out =>
              obtain ⟨rest, rfl, -, -, hrest⟩ := h
              obtain heq | he := List.mem_cons.mp he
              · cases heq
              · obtain ⟨heof, hreturned⟩ := ih hrest he
                exact ⟨heof, by rw [returned, hreturned]⟩

/-- Every read with room in its buffer brings at least one byte, until all are there. -/
theorem Delivers.returned_all {eof : ε} {content : List β} {ns : List Nat}
    {results : List (Except ε (List β))} (h : Delivers eof content ns results)
    (hns : content.length ≤ ns.countP (0 < ·)) : returned results = content := by
  induction results generalizing content ns with
  | nil =>
      cases ns with
      | nil => exact (List.length_eq_zero_iff.mp (Nat.le_zero.mp hns)).symm
      | cons n ns => exact h.elim
  | cons result results ih =>
      cases ns with
      | nil => exact h.elim
      | cons n ns =>
          cases result with
          | error e =>
              obtain ⟨-, rfl, hrest⟩ := h
              exact List.prefix_nil.mp hrest.returned_isPrefix
          | ok out =>
              obtain ⟨rest, rfl, -, hne, hrest⟩ := h
              rw [returned, ih hrest]
              rw [List.length_append, List.countP_cons] at hns
              by_cases hn : 0 < n
              · have hout := List.length_pos_iff.mpr (hne hn)
                simp only [hn, decide_true, if_true] at hns
                omega
              · simp only [hn, decide_false, Bool.false_eq_true, if_false] at hns
                omega

end ChunkedStream
