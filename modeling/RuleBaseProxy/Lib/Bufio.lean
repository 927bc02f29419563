import RuleBaseProxy.Lib.ChunkedStream
import RuleBaseProxy.Lib.GoString

/-! # Lines through a buffered reader

`bufio.Reader` of the default size over a connection whose next reads give these segments, and
the lines that `textproto` reads through it. The reader takes from the connection what a read
gives, up to the room in its buffer, so after a line it may hold bytes that come after it.

`EndsAt r t` says that the reads of the connection can be cut where `t` ends. It is followed
through every fill and every line: at the end of `t` it says that the buffer is empty.
-/

namespace Go.Bufio

open ChunkedStream

/-- `defaultBufSize`. -/
def size : Nat := 4096

def maxConsecutiveEmptyReads : Nat := 100

inductive Stop where
  | eof
  | noProgress
  deriving DecidableEq

/-- The bytes in the buffer, and the segments still in the connection. -/
structure Reader where
  buf : Str
  segs : List Str
  deriving DecidableEq

def newReader (segs : List Str) : Reader := ⟨[], segs⟩

namespace Reader

def bytes (r : Reader) : Str := r.buf ++ r.segs.flatten

/-- The loop of `fill`: the next read that is not empty. An end that comes with the last bytes is
kept for the next `fill`. -/
def fillLoop (buf : Str) : Nat → List Str → Except Stop Reader
  | 0, _ => .error .noProgress
  | n + 1, segs =>
      match readOnce false segs (size - buf.length) with
      | ([], some _, _) => .error .eof
      | ([], none, segs) => fillLoop buf n segs
      | (b :: bs, _, segs) => .ok ⟨buf ++ b :: bs, segs⟩

def fill (r : Reader) : Except Stop Reader := fillLoop r.buf maxConsecutiveEmptyReads r.segs

/-! ## Where the reads end -/

def EndsAt (r : Reader) (t : Str) : Prop :=
  ∃ used rest, r.segs = used ++ rest ∧ r.buf ++ used.flatten = t

theorem endsAt_nil {r : Reader} : r.EndsAt [] ↔ r.buf = [] := by
  constructor
  · rintro ⟨used, rest, -, happ⟩
    exact (List.append_eq_nil_iff.mp happ).1
  · intro hbuf
    exact ⟨[], r.segs, rfl, by simp [hbuf]⟩

theorem endsAt_append_left {a buf t : Str} {segs : List Str} :
    EndsAt ⟨a ++ buf, segs⟩ (a ++ t) ↔ EndsAt ⟨buf, segs⟩ t := by
  simp [EndsAt]

theorem endsAt_cons {buf seg t : Str} {segs : List Str} (h : buf.length < t.length) :
    EndsAt ⟨buf, seg :: segs⟩ t ↔ EndsAt ⟨buf ++ seg, segs⟩ t := by
  constructor
  · rintro ⟨used, rest, hsegs, happ⟩
    cases used with
    | nil =>
        rw [← happ, List.flatten_nil, List.append_nil] at h
        exact absurd h (Nat.lt_irrefl _)
    | cons s used =>
        cases hsegs
        exact ⟨used, rest, rfl, by simpa using happ⟩
  · rintro ⟨used, rest, hsegs, happ⟩
    have hsegs' : segs = used ++ rest := hsegs
    exact ⟨seg :: used, rest, by simp [hsegs'], by simpa using happ⟩

/-- A read that stops inside a segment because the buffer is full. -/
theorem endsAt_take {buf seg t : Str} {segs : List Str} {n : Nat} (h : buf.length < t.length)
    (hends : EndsAt ⟨buf, seg :: segs⟩ t) :
    EndsAt ⟨buf ++ seg.take n, seg.drop n :: segs⟩ t := by
  obtain ⟨used, rest, hsegs, happ⟩ := (endsAt_cons h).mp hends
  have hsegs' : segs = used ++ rest := hsegs
  refine ⟨seg.drop n :: used, rest, by simp [hsegs'], ?_⟩
  rw [List.flatten_cons, List.append_assoc, ← List.append_assoc (seg.take n),
    List.take_append_drop, ← List.append_assoc]
  exact happ

/-- If such a read ended at `t`, then `t` would fill the buffer. -/
theorem endsAt_of_take {buf seg t : Str} {segs : List Str} {n : Nat}
    (hne : (buf ++ seg.take n).length ≠ t.length)
    (hends : EndsAt ⟨buf ++ seg.take n, seg.drop n :: segs⟩ t) :
    EndsAt ⟨buf, seg :: segs⟩ t := by
  obtain ⟨used, rest, hsegs, happ⟩ := hends
  cases used with
  | nil => exact absurd (by simpa using congrArg List.length happ) hne
  | cons s used =>
      cases hsegs
      refine ⟨seg :: used, rest, rfl, ?_⟩
      rw [← happ]
      simp only [List.flatten_cons, List.append_assoc]
      rw [← List.append_assoc (seg.take n), List.take_append_drop]

/-! ## Filling the buffer -/

/-- The bytes stay the same, the connection has less of them, and the reads end where they
did before. They end nowhere else, but for the place where the buffer is full. -/
structure Advances (r r' : Reader) : Prop where
  bytes : r'.bytes = r.bytes
  weight : weight r'.segs < weight r.segs
  endsAt : ∀ t, r.buf.length < t.length → r.EndsAt t → r'.EndsAt t
  exact : ∀ t, r.buf.length < t.length → t.length < size → r'.EndsAt t → r.EndsAt t

theorem advances_readOnce {buf bs : Str} {segs segs' : List Str} {err : Option ReadError}
    (hroom : buf.length < size) (h : readOnce false segs (size - buf.length) = (bs, err, segs'))
    (hread : bs ≠ [] ∨ err = none) :
    Advances ⟨buf, segs⟩ ⟨buf ++ bs, segs'⟩ := by
  cases segs with
  | nil =>
      cases h
      rcases hread with hbs | herr
      · exact absurd rfl hbs
      · cases herr
  | cons seg segs =>
      rw [readOnce] at h
      by_cases hlt : size - buf.length < seg.length
      · rw [if_pos hlt] at h
        cases h
        refine ⟨by simp [bytes, ← List.append_assoc (List.take _ _)], ?_,
          fun t ht => endsAt_take ht, fun t _ hsize => endsAt_of_take ?_⟩
        · simp only [ChunkedStream.weight, List.flatten_cons, List.length_append, List.length_drop,
            List.length_cons]
          omega
        · rw [List.length_append, List.length_take]
          omega
      · rw [if_neg hlt] at h
        cases h
        refine ⟨by simp [bytes], ?_, fun t ht => (endsAt_cons ht).mp,
          fun t ht _ => (endsAt_cons ht).mpr⟩
        simp only [ChunkedStream.weight, List.flatten_cons, List.length_append, List.length_cons]
        omega

theorem advances_fillLoop {buf : Str} {n : Nat} {segs : List Str} {r : Reader}
    (hroom : buf.length < size) (h : fillLoop buf n segs = .ok r) :
    Advances ⟨buf, segs⟩ r := by
  induction n generalizing segs with
  | zero => cases h
  | succ n ih =>
      rw [fillLoop] at h
      split at h
      · cases h
      · rename_i segs' hread
        have hempty := advances_readOnce hroom hread (Or.inr rfl)
        rw [List.append_nil] at hempty
        have hrest := ih h
        exact ⟨hrest.bytes.trans hempty.bytes, Nat.lt_trans hrest.weight hempty.weight,
          fun t ht he => hrest.endsAt t ht (hempty.endsAt t ht he),
          fun t ht hsize he => hempty.exact t ht hsize (hrest.exact t ht hsize he)⟩
      · rename_i hread
        cases h
        exact advances_readOnce hroom hread (Or.inl (List.cons_ne_nil _ _))

theorem advances_fill {r r' : Reader} (hroom : r.buf.length < size) (h : r.fill = .ok r') :
    Advances r r' := advances_fillLoop hroom h

/-! ## Lines -/

end Reader

def dropCR (s : Str) : Str := if s.getLast? = some 13 then s.dropLast else s

def keepCR (s : Str) : Str := if s.getLast? = some 13 then [13] else []

theorem dropCR_append_keepCR (s : Str) : dropCR s ++ keepCR s = s := by
  unfold dropCR keepCR
  split
  · rename_i h
    exact List.dropLast_append_getLast? 13 h
  · exact List.append_nil s

theorem length_keepCR_le (s : Str) : (keepCR s).length ≤ 1 := by
  unfold keepCR
  split
  · exact Nat.le_refl 1
  · exact Nat.zero_le 1

namespace Reader

/-- The next line without its end, `\n` or `\r\n`; `line` is what was read of it so far. A line
that does not fit into the buffer comes in parts, and a `\r` at the end of a part is put back. -/
def readLine (r : Reader) (line : Str) : Except Stop (Str × Reader) :=
  if 10 ∈ r.buf then
    .ok (dropCR (line ++ r.buf.takeWhile (· != 10)),
      ⟨(r.buf.dropWhile (· != 10)).tail, r.segs⟩)
  else if size ≤ r.buf.length then
    readLine ⟨keepCR r.buf, r.segs⟩ (line ++ dropCR r.buf)
  else
    match _hfill : r.fill with
    | .error e => .error e
    | .ok r' => r'.readLine line
termination_by (weight r.segs, r.buf.length)
decreasing_by
  · rename_i hfull
    have hkeep := length_keepCR_le r.buf
    have hsize : 1 < r.buf.length := Nat.lt_of_lt_of_le (by decide) hfull
    exact Prod.Lex.right _ (by omega)
  · rename_i hroom
    exact Prod.Lex.left _ _ (advances_fill (by omega) _hfill).weight

section Equations

variable {r r' : Reader} {line : Str}

theorem readLine_of_mem {a b : Str} (ha : 10 ∉ a) (segs : List Str) :
    readLine ⟨a ++ 10 :: b, segs⟩ line = .ok (dropCR (line ++ a), ⟨b, segs⟩) := by
  have hall : ∀ x ∈ a, (x != 10) = true := by
    intro x hx
    have hne : x ≠ 10 := fun h => ha (h ▸ hx)
    simpa using hne
  rw [readLine, if_pos (by simp), List.takeWhile_append_of_pos hall,
    List.dropWhile_append_of_pos hall]
  simp

theorem readLine_of_full (hline : 10 ∉ r.buf) (hfull : size ≤ r.buf.length) :
    r.readLine line = readLine ⟨keepCR r.buf, r.segs⟩ (line ++ dropCR r.buf) := by
  rw [readLine, if_neg hline, if_pos hfull]

theorem readLine_of_fill (hline : 10 ∉ r.buf) (hroom : r.buf.length < size)
    (hfill : r.fill = .ok r') : r.readLine line = r'.readLine line := by
  rw [readLine, if_neg hline, if_neg (by omega)]
  split
  · rename_i herr
    cases hfill.symm.trans herr
  · rename_i hok
    cases hfill.symm.trans hok
    rfl

end Equations

/-- `r'` is `r` after the bytes `t`: the reads that end behind `t` end there for both, as far as
`Advances` says it. -/
structure After (r r' : Reader) (t : Str) : Prop where
  bytes : r.bytes = t ++ r'.bytes
  endsAt : ∀ u, r.EndsAt (t ++ u) → r'.EndsAt u
  exact : ∀ u, (t ++ u).length < size → r'.EndsAt u → r.EndsAt (t ++ u)

theorem After.trans {r₁ r₂ r₃ : Reader} {t u : Str} (h₁ : After r₁ r₂ t) (h₂ : After r₂ r₃ u) :
    After r₁ r₃ (t ++ u) where
  bytes := by rw [h₁.bytes, h₂.bytes, List.append_assoc]
  endsAt v hv := by
    rw [List.append_assoc] at hv
    exact h₂.endsAt v (h₁.endsAt (u ++ v) hv)
  exact v hsize hv := by
    rw [List.append_assoc] at hsize ⊢
    refine h₁.exact (u ++ v) hsize (h₂.exact v ?_ hv)
    rw [List.length_append] at hsize
    omega

theorem after_append (a buf : Str) (segs : List Str) : After ⟨a ++ buf, segs⟩ ⟨buf, segs⟩ a where
  bytes := List.append_assoc a buf segs.flatten
  endsAt _ := endsAt_append_left.mp
  exact _ _ := endsAt_append_left.mpr

theorem Advances.after {r r₁ r' : Reader} {t : Str} (h : Advances r r₁) (hafter : After r₁ r' t)
    (ht : r.buf.length < t.length) : After r r' t where
  bytes := h.bytes.symm.trans hafter.bytes
  endsAt u hu := by
    refine hafter.endsAt u (h.endsAt _ ?_ hu)
    rw [List.length_append]
    omega
  exact u hsize hu := by
    refine h.exact _ ?_ hsize (hafter.exact u hsize hu)
    rw [List.length_append]
    omega

theorem length_lt_of_not_mem {a line x y : Str} (ha : 10 ∉ a)
    (h : a ++ x = (line ++ [10]) ++ y) : a.length < (line ++ [10]).length := by
  by_contra hle
  have hpre : line ++ [10] <+: a :=
    List.prefix_of_prefix_length_le ⟨y, h.symm⟩ (List.prefix_append a x) (by omega)
  exact ha (hpre.subset (by simp))

/-- Whatever the segments, a line is read as it stands in the stream. -/
theorem readLine_eq_ok {r r' : Reader} {acc l : Str} (h : r.readLine acc = .ok (l, r')) :
    ∃ line, 10 ∉ line ∧ l = dropCR (acc ++ line) ∧ After r r' (line ++ [10]) := by
  induction r, acc using readLine.induct with
  | case1 r acc hline =>
      obtain ⟨buf, segs⟩ := r
      obtain ⟨a, b, rfl, ha⟩ := List.eq_append_cons_of_mem hline
      rw [readLine_of_mem ha] at h
      cases h
      have hout : After ⟨(a ++ [10]) ++ b, segs⟩ ⟨b, segs⟩ (a ++ [10]) := after_append _ _ _
      rw [List.append_assoc] at hout
      exact ⟨a, ha, rfl, hout⟩
  | case2 r acc hline hfull ih =>
      rw [readLine_of_full hline hfull] at h
      obtain ⟨rest, hrest, hl, hafter⟩ := ih h
      have hsplit : dropCR r.buf ++ keepCR r.buf = r.buf := dropCR_append_keepCR r.buf
      have hdrop : 10 ∉ dropCR r.buf := fun hmem =>
        hline (hsplit ▸ List.mem_append_left _ hmem)
      have hout : After ⟨dropCR r.buf ++ keepCR r.buf, r.segs⟩ ⟨keepCR r.buf, r.segs⟩
          (dropCR r.buf) := after_append _ _ _
      rw [hsplit] at hout
      refine ⟨dropCR r.buf ++ rest, by simp [hdrop, hrest], by rw [hl, List.append_assoc], ?_⟩
      rw [List.append_assoc]
      exact hout.trans hafter
  | case3 r acc hline hroom e hfill =>
      rw [readLine, if_neg hline, if_neg hroom] at h
      split at h
      · cases h
      · rename_i hok
        cases hfill.symm.trans hok
  | case4 r acc hline hroom r₁ hfill ih =>
      have hlt : r.buf.length < size := by omega
      rw [readLine_of_fill hline hlt hfill] at h
      obtain ⟨line, hnl, hl, hafter⟩ := ih h
      have hadv : Advances r r₁ := advances_fill hlt hfill
      refine ⟨line, hnl, hl, hadv.after hafter ?_⟩
      exact length_lt_of_not_mem hline (hadv.bytes.symm.trans hafter.bytes)

/-! ## The lines of a header -/

def readFields (r : Reader) : Except Stop (List Str × Reader) :=
  match _hline : r.readLine [] with
  | .error e => .error e
  | .ok (l, r') =>
      if l = [] then .ok ([], r')
      else
        match readFields r' with
        | .error e => .error e
        | .ok (ls, r'') => .ok (l :: ls, r'')
termination_by r.bytes.length
decreasing_by
  obtain ⟨line, -, -, hafter⟩ := readLine_eq_ok _hline
  rw [hafter.bytes, List.length_append, List.length_append, List.length_singleton]
  omega

end Reader

/-- Lines that are not empty, as they stand in the stream but for their `\n`, and the empty
line after them. -/
structure Fields where
  lines : List Str
  noNewline : ∀ l ∈ lines, 10 ∉ l
  notEmpty : ∀ l ∈ lines, dropCR l ≠ []
  last : Str
  last_eq : last = [] ∨ last = [13]

def fieldsText (lines : List Str) (last : Str) : Str :=
  (lines.map (· ++ [10])).flatten ++ (last ++ [10])

def Fields.text (f : Fields) : Str := fieldsText f.lines f.last

theorem Fields.not_mem_last (f : Fields) : 10 ∉ f.last := by
  rcases f.last_eq with h | h <;> rw [h] <;> decide

theorem Fields.dropCR_last (f : Fields) : dropCR f.last = [] := by
  rcases f.last_eq with h | h <;> rw [h] <;> rfl

namespace Reader

theorem readFields_of_empty {r r' : Reader} (hread : r.readLine [] = .ok ([], r')) :
    r.readFields = .ok ([], r') := by
  rw [readFields]
  split
  · rename_i herr
    cases hread.symm.trans herr
  · rename_i hok
    cases hread.symm.trans hok
    rfl

theorem readFields_of_line {r r' r'' : Reader} {l : Str} {ls : List Str}
    (hread : r.readLine [] = .ok (l, r')) (hl : l ≠ [])
    (hfields : r'.readFields = .ok (ls, r'')) : r.readFields = .ok (l :: ls, r'') := by
  rw [readFields]
  split
  · rename_i herr
    cases hread.symm.trans herr
  · rename_i hok
    cases hread.symm.trans hok
    rw [if_neg hl, hfields]

theorem readLine_after {r r' : Reader} {line rest l : Str} (hline : 10 ∉ line)
    (hr : r.bytes = (line ++ [10]) ++ rest) (h : r.readLine [] = .ok (l, r')) :
    l = dropCR line ∧ r'.bytes = rest ∧ After r r' (line ++ [10]) := by
  obtain ⟨line', hline', hl, hafter⟩ := readLine_eq_ok h
  have heq : line ++ 10 :: rest = line' ++ 10 :: r'.bytes := by
    have := hr.symm.trans hafter.bytes
    rwa [List.append_assoc, List.append_assoc] at this
  obtain ⟨rfl, rfl⟩ := append_sep_left_inj hline hline' heq
  exact ⟨hl, rfl, hafter⟩

/-- The lines of a header that are read are the lines that stand there. -/
theorem readFields_after {lines ls : List Str} {last d : Str} {r r' : Reader}
    (hnl : ∀ l ∈ lines, 10 ∉ l) (hne : ∀ l ∈ lines, dropCR l ≠ []) (hlast : 10 ∉ last)
    (hempty : dropCR last = []) (hr : r.bytes = fieldsText lines last ++ d)
    (h : r.readFields = .ok (ls, r')) :
    ls = lines.map dropCR ∧ After r r' (fieldsText lines last) := by
  induction lines generalizing r ls with
  | nil =>
      have hr' : r.bytes = (last ++ [10]) ++ d := hr
      rw [readFields] at h
      split at h
      · cases h
      · rename_i l r₁ hread
        obtain ⟨rfl, -, hafter⟩ := readLine_after hlast hr' hread
        rw [if_pos hempty] at h
        cases h
        exact ⟨rfl, hafter⟩
  | cons line lines ih =>
      have hr' : r.bytes = (line ++ [10]) ++ (fieldsText lines last ++ d) := by
        rw [hr]
        simp [fieldsText]
      rw [readFields] at h
      split at h
      · cases h
      · rename_i l r₁ hread
        obtain ⟨rfl, hrest, hafter⟩ := readLine_after (hnl line List.mem_cons_self) hr' hread
        rw [if_neg (hne line List.mem_cons_self)] at h
        split at h
        · cases h
        · rename_i ls' r₂ hfields
          cases h
          obtain ⟨rfl, hafter'⟩ := ih (fun l hl => hnl l (List.mem_cons_of_mem _ hl))
            (fun l hl => hne l (List.mem_cons_of_mem _ hl)) hrest hfields
          refine ⟨rfl, ?_⟩
          have htext : fieldsText (line :: lines) last = (line ++ [10]) ++ fieldsText lines last := by
            simp [fieldsText]
          rw [htext]
          exact hafter.trans hafter'

/-! ## Segments that end with their lines

A stream that comes line by line leaves the buffer empty after each of them, so how much of the
last segment is taken depends on the last line only.
-/

section Segments

variable {b seg : Str} {segs : List Str}

theorem fill_whole (hseg : seg ≠ []) (hle : seg.length ≤ size - b.length) :
    fill ⟨b, seg :: segs⟩ = .ok ⟨b ++ seg, segs⟩ := by
  show fillLoop b (99 + 1) (seg :: segs) = _
  rw [fillLoop, readOnce, if_neg (by omega)]
  cases seg with
  | nil => exact absurd rfl hseg
  | cons x xs => rfl

theorem fill_part (hroom : b.length < size) (hlt : size - b.length < seg.length) :
    fill ⟨b, seg :: segs⟩ =
      .ok ⟨b ++ seg.take (size - b.length), seg.drop (size - b.length) :: segs⟩ := by
  show fillLoop b (99 + 1) (seg :: segs) = _
  rw [fillLoop, readOnce, if_pos hlt]
  cases htake : seg.take (size - b.length) with
  | nil =>
      have hlen := congrArg List.length htake
      rw [List.length_take, List.length_nil] at hlen
      omega
  | cons x xs => rfl

theorem readLine_segment {line acc : Str} (hline : 10 ∉ line) (hroom : b.length < size)
    (hb : 10 ∉ b) (h : b ++ seg = line ++ [10]) :
    readLine ⟨b, seg :: segs⟩ acc = .ok (dropCR (acc ++ line), ⟨[], segs⟩) := by
  induction hn : seg.length using Nat.strong_induction_on generalizing b seg line acc with
  | _ n ih =>
      have hlen : b.length + seg.length = line.length + 1 := by
        simpa using congrArg List.length h
      by_cases hlt : size - b.length < seg.length
      · have hsplit : b ++ seg.take (size - b.length) ++ seg.drop (size - b.length) =
            line ++ [10] := by
          rw [List.append_assoc, List.take_append_drop, h]
        rw [readLine_of_fill hb hroom (fill_part hroom hlt)]
        have hfull : (b ++ seg.take (size - b.length)).length = size := by
          rw [List.length_append, List.length_take]
          omega
        revert hsplit hfull
        generalize b ++ seg.take (size - b.length) = b'
        intro hsplit hfull
        have hpre : b' <+: line :=
          List.prefix_of_prefix_length_le ⟨_, hsplit⟩ (List.prefix_append line [10]) (by omega)
        obtain ⟨m, rfl⟩ := hpre
        have hdrop : seg.drop (size - b.length) = m ++ [10] := by
          rw [List.append_assoc] at hsplit
          exact List.append_cancel_left hsplit
        rw [List.mem_append, not_or] at hline
        rw [readLine_of_full hline.1 (Nat.le_of_eq hfull.symm)]
        have hkeep : 10 ∉ keepCR b' := fun hmem =>
          hline.1 (dropCR_append_keepCR b' ▸ List.mem_append_right _ hmem)
        have hshort := length_keepCR_le b'
        have hless : (seg.drop (size - b.length)).length < n := by
          rw [List.length_drop]
          omega
        have hrec : readLine ⟨keepCR b', seg.drop (size - b.length) :: segs⟩ (acc ++ dropCR b') =
            .ok (dropCR (acc ++ dropCR b' ++ (keepCR b' ++ m)), ⟨[], segs⟩) :=
          ih _ hless (by simp [hkeep, hline.2]) (Nat.lt_of_le_of_lt hshort (by decide)) hkeep
            (by rw [hdrop, List.append_assoc]) rfl
        rw [hrec, ← List.append_assoc, List.append_assoc acc, dropCR_append_keepCR,
          ← List.append_assoc]
      · have hseg : seg ≠ [] := by
          intro hnil
          rw [hnil, List.append_nil] at h
          exact hb (h ▸ List.mem_append_right _ List.mem_cons_self)
        rw [readLine_of_fill hb hroom (fill_whole hseg (by omega)), h, readLine_of_mem hline]

/-- A short line with more behind it in the same segment: some of that is taken along. -/
theorem readLine_overruns {line d : Str} (hline : 10 ∉ line) (hshort : line.length + 1 < size)
    (hd : d ≠ []) (segs : List Str) :
    ∃ r, readLine ⟨[], (line ++ 10 :: d) :: segs⟩ [] = .ok (dropCR line, r) ∧ r.buf ≠ [] := by
  have hempty : (10 : UInt8) ∉ ([] : Str) := List.not_mem_nil
  have hsize : ([] : Str).length < size := by decide
  by_cases hlt : size - ([] : Str).length < (line ++ 10 :: d).length
  · have htake : (line ++ 10 :: d).take (size - ([] : Str).length) =
        line ++ 10 :: d.take (size - line.length - 1) := by
      rw [List.length_nil, Nat.sub_zero, List.take_append, List.take_of_length_le (by omega),
        List.take_cons (by omega)]
    rw [readLine_of_fill hempty hsize (fill_part hsize hlt), htake, List.nil_append,
      readLine_of_mem hline]
    refine ⟨_, rfl, fun hnil => ?_⟩
    rcases List.take_eq_nil_iff.mp hnil with h | h
    · omega
    · exact hd h
  · rw [readLine_of_fill hempty hsize (fill_whole (by simp) (by omega)), List.nil_append,
      readLine_of_mem hline]
    exact ⟨_, rfl, hd⟩

theorem readFields_overruns {lines : List Str} {last d : Str} (hnl : ∀ l ∈ lines, 10 ∉ l)
    (hne : ∀ l ∈ lines, dropCR l ≠ []) (hlast : 10 ∉ last) (hempty : dropCR last = [])
    (hshort : last.length + 1 < size) (hd : d ≠ []) :
    ∃ r, readFields ⟨[], lines.map (· ++ [10]) ++ [last ++ 10 :: d]⟩ =
      .ok (lines.map dropCR, r) ∧ r.buf ≠ [] := by
  induction lines with
  | nil =>
      obtain ⟨r, hread, hbuf⟩ := readLine_overruns hlast hshort hd []
      rw [hempty] at hread
      exact ⟨r, readFields_of_empty hread, hbuf⟩
  | cons line lines ih =>
      obtain ⟨r, hfields, hbuf⟩ := ih (fun l hl => hnl l (List.mem_cons_of_mem _ hl))
        fun l hl => hne l (List.mem_cons_of_mem _ hl)
      have hread : readLine ⟨[], (line ++ [10]) :: (lines.map (· ++ [10]) ++ [last ++ 10 :: d])⟩ [] =
          .ok (dropCR line, ⟨[], lines.map (· ++ [10]) ++ [last ++ 10 :: d]⟩) :=
        readLine_segment (hnl line List.mem_cons_self) (by decide) List.not_mem_nil rfl
      exact ⟨r, readFields_of_line hread (hne line List.mem_cons_self) hfields, hbuf⟩

end Segments

end Reader

end Go.Bufio
