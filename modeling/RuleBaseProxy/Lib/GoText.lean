import RuleBaseProxy.Lib.GoString

/-! # Trimming and letter case

What `strings.Trim` takes off is blanks on both sides, so that a text in which a
blank less is counted has been trimmed, and the pieces between separators are the
same whether or not the text as a whole was trimmed before.
-/

namespace Go

/-! ## Trimming -/

section Trim

variable {cut : UInt8}

theorem trim_replicate_append (n : Nat) (s : Str) :
    trim (List.replicate n cut ++ s) cut = trim s cut := by
  have hall : ∀ b ∈ List.replicate n cut, (b == cut) = true := fun b hb =>
    beq_iff_eq.mpr (List.eq_of_mem_replicate hb)
  rw [trim, List.dropWhile_append_of_pos hall, trim]

theorem rdropWhile_append_replicate (s : Str) (n : Nat) :
    (s ++ List.replicate n cut).rdropWhile (· == cut) = s.rdropWhile (· == cut) := by
  have hall : ∀ b ∈ List.replicate n cut, (b == cut) = true := fun b hb =>
    beq_iff_eq.mpr (List.eq_of_mem_replicate hb)
  rw [List.rdropWhile, List.reverse_append, List.reverse_replicate,
    List.dropWhile_append_of_pos hall, List.rdropWhile]

theorem trim_append_replicate (s : Str) (n : Nat) :
    trim (s ++ List.replicate n cut) cut = trim s cut := by
  unfold trim
  rw [List.dropWhile_append]
  split
  · rename_i hempty
    have hblank : (List.replicate n cut).dropWhile (· == cut) = [] := by
      rw [List.dropWhile_eq_nil_iff]
      exact fun b hb => beq_iff_eq.mpr (List.eq_of_mem_replicate hb)
    rw [hblank, List.isEmpty_iff.mp hempty]
  · exact rdropWhile_append_replicate _ n

theorem eq_append_trim (s : Str) (cut : UInt8) :
    ∃ m n, s = List.replicate m cut ++ (trim s cut ++ List.replicate n cut) := by
  have hfront : s.takeWhile (· == cut) = List.replicate (s.takeWhile (· == cut)).length cut := by
    refine List.eq_replicate_of_mem fun b hb => ?_
    have hcut := List.mem_takeWhile_imp (p := fun b => b == cut) hb
    exact beq_iff_eq.mp hcut
  have hback : (s.dropWhile (· == cut)).rtakeWhile (· == cut) =
      List.replicate ((s.dropWhile (· == cut)).rtakeWhile (· == cut)).length cut := by
    refine List.eq_replicate_of_mem fun b hb => ?_
    have hcut := List.mem_rtakeWhile_imp (p := fun b => b == cut) hb
    exact beq_iff_eq.mp hcut
  have hsplit : s = s.takeWhile (· == cut) ++
      (trim s cut ++ (s.dropWhile (· == cut)).rtakeWhile (· == cut)) := by
    rw [trim, List.rdropWhile, List.rtakeWhile, ← List.reverse_append,
      List.takeWhile_append_dropWhile, List.reverse_reverse, List.takeWhile_append_dropWhile]
  rw [hfront, hback] at hsplit
  exact ⟨_, _, hsplit⟩

theorem mem_trim {s : Str} {b : UInt8} (hb : b ≠ cut) : b ∈ trim s cut ↔ b ∈ s := by
  rcases eq_append_trim s cut with ⟨m, n, hs⟩
  constructor
  · intro h
    rw [hs]
    simp [h]
  · intro h
    rw [hs] at h
    simpa [List.mem_replicate, hb] using h

theorem count_trim (s : Str) (cut : UInt8) :
    (trim s cut).count cut ≤ s.count cut := by
  rcases eq_append_trim s cut with ⟨m, n, hs⟩
  conv_rhs => rw [hs]
  simp only [List.count_append]
  omega

/-- A text keeps all its blanks only if it is left as it is. -/
theorem trim_eq_self_of_count {s : Str} (h : (trim s cut).count cut = s.count cut) :
    trim s cut = s := by
  rcases eq_append_trim s cut with ⟨m, n, hs⟩
  have hcount : s.count cut = m + ((trim s cut).count cut + n) := by
    conv_lhs => rw [hs]
    simp only [List.count_append, List.count_replicate_self]
  have hm : m = 0 := by omega
  have hn : n = 0 := by omega
  rw [hm, hn] at hs
  simpa using hs.symm

theorem trim_of_not_mem {s : Str} (h : cut ∉ s) : trim s cut = s := by
  have hzero := List.count_eq_zero.mpr h
  have hle := count_trim s cut
  exact trim_eq_self_of_count (by omega)

theorem map_trim_split_append_replicate {sep : UInt8} (hsep : sep ≠ cut) (s : Str) (n : Nat) :
    (split (s ++ List.replicate n cut) sep).map (trim · cut) = (split s sep).map (trim · cut) := by
  have hblank : sep ∉ List.replicate n cut := fun h => hsep (List.eq_of_mem_replicate h)
  by_cases hmem : sep ∈ s
  · rcases List.eq_append_cons_of_mem (List.mem_reverse.mpr hmem) with ⟨last, front, hrev, hlast⟩
    have hs : s = front.reverse ++ sep :: last.reverse := by
      simpa using congrArg List.reverse hrev
    have hnot : sep ∉ last.reverse := fun h => hlast (List.mem_reverse.mp h)
    have hnot' : sep ∉ last.reverse ++ List.replicate n cut := by
      rw [List.mem_append]
      exact fun h => h.elim hnot hblank
    rw [hs, List.append_assoc, List.cons_append, split_append_sep, split_append_sep,
      split_of_not_mem hnot, split_of_not_mem hnot']
    simp [trim_append_replicate]
  · have hmem' : sep ∉ s ++ List.replicate n cut := by
      rw [List.mem_append]
      exact fun h => h.elim hmem hblank
    rw [split_of_not_mem hmem, split_of_not_mem hmem']
    simp [trim_append_replicate]

/-- Trimming before the split takes nothing from the pieces that is not taken after it. -/
theorem map_trim_split_trim {s : Str} {sep : UInt8} (hsep : sep ≠ cut) (h : sep ∈ s) :
    (split (trim s cut) sep).map (trim · cut) = (split s sep).map (trim · cut) := by
  rcases eq_append_trim s cut with ⟨m, n, hs⟩
  rcases List.eq_append_cons_of_mem ((mem_trim hsep).mpr h) with ⟨first, rest, htrim, hfirst⟩
  have hblank : sep ∉ List.replicate m cut ++ first := by
    rw [List.mem_append]
    exact fun h => h.elim (fun h => hsep (List.eq_of_mem_replicate h)) hfirst
  have hs' : s = (List.replicate m cut ++ first) ++ sep :: (rest ++ List.replicate n cut) := by
    rw [htrim] at hs
    simpa using hs
  conv_rhs => rw [hs', split_append_sep, split_of_not_mem hblank]
  rw [htrim, split_append_sep, split_of_not_mem hfirst, List.map_append, List.map_append,
    map_trim_split_append_replicate hsep]
  simp [trim_replicate_append]

end Trim

theorem not_mem_of_mem_split {s p : Str} {sep : UInt8} (h : p ∈ split s sep) : sep ∉ p := by
  induction hn : s.length using Nat.strong_induction_on generalizing s with
  | _ n ih =>
      by_cases hmem : sep ∈ s
      · rcases List.eq_append_cons_of_mem hmem with ⟨first, rest, rfl, hfirst⟩
        rw [split_append_sep, split_of_not_mem hfirst] at h
        rcases List.mem_append.mp h with h | h
        · rw [List.mem_singleton.mp h]
          exact hfirst
        · have hlt : rest.length < n := by
            rw [← hn, List.length_append, List.length_cons]
            omega
          exact ih rest.length hlt h rfl
      · rw [split_of_not_mem hmem] at h
        rw [List.mem_singleton.mp h]
        exact hmem

/-! ## Letter case -/

def isLetter (b : UInt8) : Bool := isUpper b || (97 ≤ b && b ≤ 122)

/-- Case tables that leave alone what is ASCII and no letter, and under which a lower case is
its own lower case. -/
structure CaseTables extends Unicode where
  count_mapLower : ∀ b < 128, isLetter b = false → ∀ s, (mapLower s).count b = s.count b
  mapLower_mapLower : ∀ s, mapLower (mapLower s) = mapLower s

theorem isASCII_map_lowerByte {s : Str} (h : isASCII s = true) : isASCII (s.map lowerByte) = true := by
  have hbyte : ∀ n < 128, lowerByte (UInt8.ofNat n) < 128 := by decide +kernel
  simp only [isASCII, List.all_eq_true, List.mem_map, decide_eq_true_eq] at h ⊢
  rintro _ ⟨b, hb, rfl⟩
  have hb' := hbyte b.toNat (h b hb)
  rwa [UInt8.ofNat_toNat] at hb'

theorem isLetter_lowerByte {b : UInt8} (h : isUpper b = true) : isLetter (lowerByte b) = true := by
  have hall : ∀ n < 256, isUpper (UInt8.ofNat n) = true → isLetter (lowerByte (UInt8.ofNat n)) = true := by
    decide +kernel
  have hb := hall b.toNat b.toNat_lt
  rw [UInt8.ofNat_toNat] at hb
  exact hb h

theorem count_map_lowerByte {b : UInt8} (h : isLetter b = false) (s : Str) :
    (s.map lowerByte).count b = s.count b := by
  have hbyte : ∀ x : UInt8, (lowerByte x == b) = (x == b) := by
    intro x
    cases hx : isUpper x with
    | false => rw [lowerByte_of_not_upper hx]
    | true =>
        have hne : lowerByte x ≠ b := by
          rintro rfl
          rw [isLetter_lowerByte hx] at h
          cases h
        have hne' : x ≠ b := by
          rintro rfl
          rw [isLetter, hx] at h
          cases h
        rw [beq_false_of_ne hne, beq_false_of_ne hne']
  induction s with
  | nil => rfl
  | cons x s ih => rw [List.map_cons, List.count_cons, List.count_cons, ih, hbyte x]

def CaseTables.ascii : CaseTables where
  toUnicode := Unicode.ascii
  count_mapLower _ _ h := count_map_lowerByte h
  mapLower_mapLower s := map_lowerByte_of_not_upper (Unicode.ascii.not_upper_mapLower s)

namespace CaseTables

variable (t : CaseTables)

theorem count_toLower {b : UInt8} (hb : b < 128) (h : isLetter b = false) (s : Str) :
    (toLower t.toUnicode s).count b = s.count b := by
  unfold toLower
  split
  · exact count_map_lowerByte h s
  · exact t.count_mapLower b hb h s

theorem toLower_toLower (s : Str) :
    toLower t.toUnicode (toLower t.toUnicode s) = toLower t.toUnicode s := by
  have hlower := not_upper_toLower t.toUnicode s
  by_cases hascii : isASCII (toLower t.toUnicode s)
  · rw [toLower, if_pos hascii]
    exact map_lowerByte_of_not_upper hlower
  · rw [toLower, if_neg hascii]
    unfold toLower
    split
    · rename_i hs
      exact absurd (isASCII_map_lowerByte hs) (by rwa [toLower, if_pos hs] at hascii)
    · exact t.mapLower_mapLower s

end CaseTables

end Go
