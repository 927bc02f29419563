import Mathlib.Data.List.Basic

/-! # Copying a stream to its end

The loops of `io.CopyBuffer` and of repeated `io.CopyN` over any reader. A reader
is lawful for a content if every read takes the next bytes of it, the end comes
when nothing is left, and a read that brings nothing still uses something up. Then
the loops write the content, and wherever they are cut off a beginning of it.
-/

namespace StreamCopy

variable {σ : Type u} {β : Type v}

/-- What a read, or a copy, takes from a reader: bytes, perhaps together with the end,
and the reader after it. -/
structure Taken (σ : Type u) (β : Type v) where
  bytes : List β
  ended : Bool
  next : σ

def Taken.after (bs : List β) (t : Taken σ β) : Taken σ β := { t with bytes := bs ++ t.bytes }

@[simp] theorem Taken.after_bytes (bs : List β) (t : Taken σ β) :
    (t.after bs).bytes = bs ++ t.bytes := rfl

@[simp] theorem Taken.after_ended (bs : List β) (t : Taken σ β) : (t.after bs).ended = t.ended := rfl

@[simp] theorem Taken.after_next (bs : List β) (t : Taken σ β) : (t.after bs).next = t.next := rfl

/-- `io.CopyBuffer` through a buffer of `n` bytes, cut off after `fuel` reads. -/
def copy (read : σ → Nat → Taken σ β) (n : Nat) : Nat → σ → Taken σ β
  | 0, s => ⟨[], false, s⟩
  | fuel + 1, s =>
      if (read s n).ended then read s n
      else (copy read n fuel (read s n).next).after (read s n).bytes

/-- `io.CopyN` of `limit` bytes, cut off after `fuel` reads. It ends with the source or
when it has its bytes; the error says which. -/
def copyN (read : σ → Nat → Taken σ β) (n : Nat) : Nat → Nat → σ → Taken σ β
  | _, 0, s => ⟨[], true, s⟩
  | 0, _ + 1, s => ⟨[], false, s⟩
  | fuel + 1, limit + 1, s =>
      let t := read s (min n (limit + 1))
      if t.ended then t
      else (copyN read n fuel (limit + 1 - t.bytes.length) t.next).after t.bytes

/-- `io.CopyN` again and again until it has copied less than it should. -/
def copyNLoop (read : σ → Nat → Taken σ β) (n limit fuel : Nat) : Nat → σ → Taken σ β
  | 0, s => ⟨[], false, s⟩
  | rounds + 1, s =>
      let t := copyN read n fuel limit s
      if t.ended && t.bytes.length == limit then (copyNLoop read n limit fuel rounds t.next).after t.bytes
      else t

/-- `t` is the next bytes of the content of `s`, and `weight` bounds the reads that are left. -/
structure Takes (Inv : σ → Prop) (content : σ → List β) (weight : σ → Nat) (s : σ)
    (t : Taken σ β) : Prop where
  inv : Inv t.next
  content_eq : t.bytes ++ content t.next = content s
  weight_le : weight t.next + t.bytes.length ≤ weight s

structure Reads (Inv : σ → Prop) (content : σ → List β) (weight : σ → Nat) (n : Nat) (s : σ)
    (t : Taken σ β) : Prop extends Takes Inv content weight s t where
  length_le : t.bytes.length ≤ n
  ended : t.ended = true → content t.next = []
  progress : t.ended = false → t.bytes = [] → weight t.next < weight s

def Lawful (read : σ → Nat → Taken σ β) (Inv : σ → Prop) (content : σ → List β)
    (weight : σ → Nat) : Prop :=
  ∀ s n, 0 < n → Inv s → Reads Inv content weight n s (read s n)

section Rules

variable {read : σ → Nat → Taken σ β} {Inv : σ → Prop} {content : σ → List β} {weight : σ → Nat}
  {s : σ} {n : Nat}

theorem Takes.after {t : Taken σ β} {bs : List β} {s' : σ} (h : Takes Inv content weight s' t)
    (hcontent : bs ++ content s' = content s) (hweight : weight s' + bs.length ≤ weight s) :
    Takes Inv content weight s (t.after bs) where
  inv := h.inv
  content_eq := by
    rw [Taken.after_bytes, Taken.after_next, List.append_assoc, h.content_eq, hcontent]
  weight_le := by
    have hle := h.weight_le
    rw [Taken.after_bytes, Taken.after_next, List.length_append]
    omega

theorem Takes.none (hs : Inv s) (ended : Bool) :
    Takes Inv content weight s ⟨[], ended, s⟩ :=
  ⟨hs, rfl, Nat.le_refl _⟩

theorem Reads.weight_lt {t : Taken σ β} (h : Reads Inv content weight n s t)
    (hended : t.ended = false) : weight t.next < weight s := by
  have hle := h.weight_le
  by_cases hbytes : t.bytes = []
  · exact h.progress hended hbytes
  · have hpos := List.length_pos_iff.mpr hbytes
    omega

/-! ## One copy -/

theorem Lawful.copy_takes (h : Lawful read Inv content weight) (hn : 0 < n) (fuel : Nat)
    (hs : Inv s) :
    Takes Inv content weight s (copy read n fuel s) ∧
      ((copy read n fuel s).ended = true → content (copy read n fuel s).next = []) ∧
      (weight s < fuel → (copy read n fuel s).ended = true) := by
  induction fuel generalizing s with
  | zero =>
      refine ⟨Takes.none hs false, ?_, ?_⟩
      · intro hended
        cases hended
      · intro hlt
        omega
  | succ fuel ih =>
      rw [copy]
      have hread := h s n hn hs
      cases hended : (read s n).ended with
      | true =>
          rw [if_pos rfl]
          exact ⟨hread.toTakes, fun _ => hread.ended hended, fun _ => hended⟩
      | false =>
          rw [if_neg Bool.false_ne_true]
          have hlt := hread.weight_lt hended
          have hrest := ih hread.inv
          refine ⟨hrest.1.after hread.content_eq hread.weight_le, hrest.2.1, ?_⟩
          intro hfuel
          exact hrest.2.2 (by omega)

/-- With buffers of any length, the reads up to the end bring these bytes. -/
def Produces (read : σ → Nat → Taken σ β) (s : σ) (bs : List β) : Prop :=
  ∀ n, 0 < n → ∃ enough, ∀ fuel, enough ≤ fuel →
    (copy read n fuel s).ended = true ∧ (copy read n fuel s).bytes = bs

theorem Lawful.copy_eq (h : Lawful read Inv content weight) (hn : 0 < n) {fuel : Nat} (hs : Inv s)
    (hfuel : weight s < fuel) :
    (copy read n fuel s).ended = true ∧ (copy read n fuel s).bytes = content s := by
  have hcopy := h.copy_takes hn fuel hs
  have hended := hcopy.2.2 hfuel
  have hcontent := hcopy.1.content_eq
  rw [hcopy.2.1 hended, List.append_nil] at hcontent
  exact ⟨hended, hcontent⟩

theorem Lawful.produces (h : Lawful read Inv content weight) (hs : Inv s) :
    Produces read s (content s) := by
  intro n hn
  refine ⟨weight s + 1, ?_⟩
  intro fuel hfuel
  exact h.copy_eq hn hs hfuel

/-! ## Copies of limited length -/

/-- What a copy of at most `limit` bytes takes; less only if that was all. -/
structure TakesUpTo (Inv : σ → Prop) (content : σ → List β) (weight : σ → Nat) (limit : Nat) (s : σ)
    (t : Taken σ β) : Prop extends Takes Inv content weight s t where
  length_le : t.bytes.length ≤ limit
  all : t.ended = true → t.bytes.length < limit → content t.next = []

theorem Lawful.copyN_takes (h : Lawful read Inv content weight) (hn : 0 < n) (fuel limit : Nat)
    (hs : Inv s) :
    TakesUpTo Inv content weight limit s (copyN read n fuel limit s) ∧
      (weight s < fuel → (copyN read n fuel limit s).ended = true) := by
  induction fuel, limit, s using copyN.induct read n with
  | case1 fuel s =>
      rw [copyN]
      refine ⟨⟨Takes.none hs true, Nat.le_refl _, ?_⟩, fun _ => rfl⟩
      intro _ hlt
      exact absurd hlt (Nat.lt_irrefl _)
  | case2 limit s =>
      rw [copyN]
      refine ⟨⟨Takes.none hs false, Nat.zero_le _, ?_⟩, fun hlt => absurd hlt (Nat.not_lt_zero _)⟩
      intro hended
      cases hended
  | case3 fuel limit s t hended =>
      have hread := h s (min n (limit + 1)) (by omega) hs
      have hlength := hread.length_le
      rw [copyN, if_pos hended]
      exact ⟨⟨hread.toTakes, by omega, fun _ _ => hread.ended hended⟩, fun _ => hended⟩
  | case4 fuel limit s t hgoes ih =>
      have hread := h s (min n (limit + 1)) (by omega) hs
      have hlength := hread.length_le
      have hlt := hread.weight_lt (Bool.eq_false_iff.mpr hgoes)
      have hrest := ih hread.inv
      simp only [t] at hrest
      rw [copyN, if_neg hgoes]
      refine ⟨⟨hrest.1.toTakes.after hread.content_eq hread.weight_le, ?_, ?_⟩, ?_⟩
      · have hle := hrest.1.length_le
        rw [Taken.after_bytes, List.length_append]
        omega
      · intro hend hshort
        rw [Taken.after_bytes, List.length_append] at hshort
        exact hrest.1.all hend (by omega)
      · intro hfuel
        exact hrest.2 (by omega)

theorem Lawful.copyNLoop_takes (h : Lawful read Inv content weight) (hn : 0 < n) {limit : Nat}
    (hlimit : 0 < limit) (fuel rounds : Nat) (hs : Inv s) :
    Takes Inv content weight s (copyNLoop read n limit fuel rounds s) ∧
      (weight s < fuel → weight s < rounds →
        (copyNLoop read n limit fuel rounds s).ended = true ∧
        content (copyNLoop read n limit fuel rounds s).next = []) := by
  induction rounds generalizing s with
  | zero => exact ⟨Takes.none hs false, fun _ hlt => absurd hlt (Nat.not_lt_zero _)⟩
  | succ rounds ih =>
      have hround := h.copyN_takes hn fuel limit hs
      rw [copyNLoop]
      by_cases hfull : ((copyN read n fuel limit s).ended &&
          (copyN read n fuel limit s).bytes.length == limit) = true
      · simp only [hfull, if_true]
        rw [Bool.and_eq_true, beq_iff_eq] at hfull
        have hweight := hround.1.weight_le
        have hrest := ih hround.1.inv
        refine ⟨hrest.1.after hround.1.content_eq hweight, ?_⟩
        intro hfuel hrounds
        exact hrest.2 (by omega) (by omega)
      · simp only [hfull]
        refine ⟨hround.1.toTakes, ?_⟩
        intro hfuel _
        have hended := hround.2 hfuel
        rw [hended, Bool.true_and, beq_iff_eq] at hfull
        have hle := hround.1.length_le
        exact ⟨hended, hround.1.all hended (by omega)⟩

theorem Lawful.copyNLoop_eq (h : Lawful read Inv content weight) (hn : 0 < n) {limit : Nat}
    (hlimit : 0 < limit) {fuel rounds : Nat} (hs : Inv s) (hfuel : weight s < fuel)
    (hrounds : weight s < rounds) :
    (copyNLoop read n limit fuel rounds s).ended = true ∧
      (copyNLoop read n limit fuel rounds s).bytes = content s := by
  have hloop := h.copyNLoop_takes hn hlimit fuel rounds hs
  have hend := hloop.2 hfuel hrounds
  have hcontent := hloop.1.content_eq
  rw [hend.2, List.append_nil] at hcontent
  exact ⟨hend.1, hcontent⟩

end Rules

end StreamCopy
