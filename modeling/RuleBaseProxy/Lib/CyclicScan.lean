import Mathlib.Data.List.Rotate

/-! # Scanning in a circle

A cursor steps through `n` positions, one by one and round the end, and stops at
the first one that will do. A whole lap meets every position once. The lap from
the place where a scan stopped is the same lap, rotated, so one scan after
another stops at the good positions in turn.
-/

namespace CyclicScan

def walk (n : Nat) : Nat → Nat → List Nat
  | 0, _ => []
  | k + 1, i => (i + 1) % n :: walk n k ((i + 1) % n)

def lap (n i : Nat) : List Nat := walk n n i

@[simp] theorem walk_length (n k i : Nat) : (walk n k i).length = k := by
  induction k generalizing i with
  | zero => rfl
  | succ k ih => rw [walk, List.length_cons, ih]

theorem walk_getElem? {n k i j : Nat} (hj : j < k) : (walk n k i)[j]? = some ((i + 1 + j) % n) := by
  induction k generalizing i j with
  | zero => omega
  | succ k ih =>
      cases j with
      | zero => rfl
      | succ j =>
          rw [walk, List.getElem?_cons_succ, ih (by omega), Nat.add_assoc, Nat.mod_add_mod]
          congr 2
          omega

theorem lap_eq_rotate (n i : Nat) : lap n i = (List.range n).rotate (i + 1) := by
  apply List.ext_getElem?
  intro j
  by_cases hj : j < n
  · have hmod : (j + (i + 1)) % n < n := Nat.mod_lt _ (by omega)
    rw [lap, walk_getElem? hj, List.getElem?_rotate (by rwa [List.length_range]), List.length_range,
      List.getElem?_range hmod, Nat.add_comm]
  · have hlap : (lap n i).length ≤ j := by
      rw [lap, walk_length]
      omega
    have hrange : ((List.range n).rotate (i + 1)).length ≤ j := by
      rw [List.length_rotate, List.length_range]
      omega
    rw [List.getElem?_eq_none hlap, List.getElem?_eq_none hrange]

theorem mem_lap {n i x : Nat} : x ∈ lap n i ↔ x < n := by
  rw [lap_eq_rotate, List.mem_rotate, List.mem_range]

theorem lap_of_split {n i x : Nat} {before after : List Nat} (h : lap n i = before ++ x :: after) :
    lap n x = after ++ (before ++ [x]) := by
  have hlen : before.length < n := by
    have := congrArg List.length h
    rw [lap, walk_length, List.length_append, List.length_cons] at this
    omega
  have hx : x = (i + 1 + before.length) % n := by
    have hget : (lap n i)[before.length]? = some x := by
      rw [h, List.getElem?_append_right (Nat.le_refl _), Nat.sub_self]
      rfl
    rw [lap, walk_getElem? hlen] at hget
    exact (Option.some.inj hget).symm
  have hstart : lap n x = (lap n i).rotate (before.length + 1) := by
    rw [lap_eq_rotate, lap_eq_rotate, List.rotate_rotate, ← List.rotate_mod,
      ← List.rotate_mod (List.range n) (i + 1 + (before.length + 1)), List.length_range, hx,
      Nat.mod_add_mod]
    congr 2
  have hsplit : before ++ x :: after = (before ++ [x]) ++ after := by simp
  rw [hstart, h, hsplit]
  have hlength : before.length + 1 = (before ++ [x]).length := by simp
  rw [hlength, List.rotate_append_length_eq]

/-- Where a scan stops, and what the scans after it will meet. -/
theorem filter_lap_of_find? {n i x : Nat} {p : Nat → Bool} (h : (lap n i).find? p = some x) :
    ∃ rest, (lap n i).filter p = x :: rest ∧ (lap n x).filter p = rest ++ [x] := by
  rcases List.find?_eq_some_iff_append.mp h with ⟨hx, before, after, hlap, hbefore⟩
  have hnone : before.filter p = [] := by
    apply List.filter_eq_nil_iff.mpr
    intro y hy
    simpa using hbefore y hy
  refine ⟨after.filter p, ?_, ?_⟩
  · rw [hlap, List.filter_append, hnone, List.filter_cons_of_pos hx, List.nil_append]
  · rw [lap_of_split hlap, List.filter_append, List.filter_append, hnone, List.filter_cons_of_pos hx,
      List.filter_nil, List.nil_append]

theorem exists_find?_lap {n i x : Nat} {p : Nat → Bool} (hx : x < n) (hp : p x = true) :
    ∃ y, (lap n i).find? p = some y := by
  apply Option.isSome_iff_exists.mp
  rw [List.find?_isSome]
  exact ⟨x, mem_lap.mpr hx, hp⟩

theorem lap_eq_append {n i : Nat} (hi : i < n) :
    ∃ before, lap n i = before ++ [i] ∧ ∀ x, x ∈ before ↔ x < n ∧ x ≠ i := by
  have htake : (List.range n).take (i + 1) = List.range i ++ [i] := by
    rw [List.take_range, Nat.min_eq_left (by omega), List.range_succ]
  refine ⟨(List.range n).drop (i + 1) ++ List.range i, ?_, ?_⟩
  · rw [lap_eq_rotate, List.rotate_eq_drop_append_take (by rw [List.length_range]; omega), htake,
      List.append_assoc]
  · intro x
    rw [List.mem_append, List.mem_range, List.range_eq_range', List.drop_range', List.mem_range'_1]
    omega

/-- A scan that gives up where it began still stops at a good position if there is one. -/
theorem exists_find?_lap_or_start {n i : Nat} {good : Nat → Bool} (hi : i < n)
    (hgood : ∃ x, x < n ∧ good x = true) :
    ∃ y, (lap n i).find? (fun x => x == i || good x) = some y ∧ y < n ∧ good y = true := by
  rcases lap_eq_append hi with ⟨before, hlap, hmem⟩
  rw [hlap, List.find?_append]
  cases hfind : before.find? (fun x => x == i || good x) with
  | some y =>
      have hy := (hmem y).mp (List.mem_of_find?_eq_some hfind)
      have hstop := List.find?_some hfind
      rw [Bool.or_eq_true, beq_iff_eq] at hstop
      exact ⟨y, rfl, hy.1, hstop.resolve_left hy.2⟩
  | none =>
      rcases hgood with ⟨x, hx, hgood⟩
      have hstart : x = i := by
        by_contra hne
        have hnot := List.find?_eq_none.mp hfind x ((hmem x).mpr ⟨hx, hne⟩)
        rw [hgood, Bool.or_true] at hnot
        exact hnot rfl
      subst hstart
      exact ⟨x, by simp, hx, hgood⟩

/-- A scan that gives up where it began ends there if no position is good. -/
theorem find?_lap_eq_start {n i : Nat} {good : Nat → Bool} (hi : i < n)
    (hbad : ∀ x, x < n → good x = false) :
    (lap n i).find? (fun x => x == i || good x) = some i := by
  rcases lap_eq_append hi with ⟨before, hlap, hmem⟩
  have hnone : before.find? (fun x => x == i || good x) = none := by
    apply List.find?_eq_none.mpr
    intro x hx
    have hin := (hmem x).mp hx
    simp [hin.2, hbad x hin.1]
  rw [hlap, List.find?_append, hnone]
  simp

/-- A lap over the positions of a list is the list, rotated. -/
theorem map_getElem?_lap {α : Type u} (xs : List α) (i : Nat) :
    (lap xs.length i).map (fun j => xs[j]?) = (xs.rotate (i + 1)).map some := by
  have hrange : (List.range xs.length).map (fun j => xs[j]?) = xs.map some := by
    apply List.ext_getElem (by simp)
    intro j hj hj'
    have hlt : j < xs.length := by simpa using hj'
    simp [List.getElem?_eq_getElem hlt]
  rw [lap_eq_rotate, List.map_rotate, hrange, ← List.map_rotate]

end CyclicScan
