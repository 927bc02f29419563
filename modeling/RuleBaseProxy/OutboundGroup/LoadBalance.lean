import RuleBaseProxy.Lib.CyclicScan

/-! # Load balancing by turns

`strategyRoundRobin` keeps the index of the proxy it returned last and goes on
from there, round the end of the list and past the proxies that are not alive.
The index is kept between calls even if the list changes.
-/

namespace RuleBaseProxy.OutboundGroup.LoadBalance

open CyclicScan

section RoundRobin

-- of a proxy only `Alive` is asked
variable {π : Type u} (alive : π → Bool) (proxies : List π)

/-- The loop of `strategyRoundRobin`: what is returned, with the index afterwards. `none`
is the panic of an index outside the list. -/
def roundRobinLoop : Nat → Nat → Option π × Nat
  | 0, idx => (proxies[0]?, idx)
  | i + 1, idx =>
      let idx := (idx + 1) % proxies.length
      match proxies[idx]? with
      | none => (none, idx)
      | some proxy => if alive proxy then (some proxy, idx) else roundRobinLoop i idx

def strategyRoundRobin (idx : Nat) : Option π × Nat :=
  roundRobinLoop alive proxies proxies.length idx

def calls : Nat → Nat → List (Option π)
  | 0, _ => []
  | k + 1, idx =>
      let (proxy, idx) := strategyRoundRobin alive proxies idx
      proxy :: calls k idx

def aliveAt (j : Nat) : Bool := (proxies[j]?).any alive

variable {alive proxies}

theorem roundRobinLoop_eq {k idx x : Nat}
    (h : (walk proxies.length k idx).find? (aliveAt alive proxies) = some x) :
    roundRobinLoop alive proxies k idx = (proxies[x]?, x) := by
  induction k generalizing idx with
  | zero => cases h
  | succ k ih =>
      rw [walk] at h
      rw [roundRobinLoop]
      cases hproxy : proxies[(idx + 1) % proxies.length]? with
      | none =>
          have hempty : proxies = [] := by
            have hlen := List.getElem?_eq_none_iff.mp hproxy
            by_contra hne
            have := Nat.mod_lt (idx + 1) (List.length_pos_of_ne_nil hne)
            omega
          subst hempty
          have hx := List.find?_some h
          simp [aliveAt] at hx
      | some proxy =>
          by_cases hp : alive proxy = true
          · have hat : aliveAt alive proxies ((idx + 1) % proxies.length) = true := by
              simp [aliveAt, hproxy, hp]
            rw [List.find?_cons_of_pos hat] at h
            cases h
            simp [hproxy, hp]
          · have hat : aliveAt alive proxies ((idx + 1) % proxies.length) = false := by
              simp [aliveAt, hproxy, hp]
            rw [List.find?_cons_of_neg (by simp [hat])] at h
            simp only [hp]
            exact ih h

theorem strategyRoundRobin_eq {idx x : Nat}
    (h : (lap proxies.length idx).find? (aliveAt alive proxies) = some x) :
    strategyRoundRobin alive proxies idx = (proxies[x]?, x) := roundRobinLoop_eq h

theorem exists_stop (halive : ∃ p ∈ proxies, alive p = true) (idx : Nat) :
    ∃ x p, (lap proxies.length idx).find? (aliveAt alive proxies) = some x ∧
      proxies[x]? = some p ∧ alive p = true := by
  rcases halive with ⟨q, hq, hqalive⟩
  rcases List.mem_iff_getElem?.mp hq with ⟨j, hj⟩
  have hjlt : j < proxies.length := (List.getElem?_eq_some_iff.mp hj).1
  have hjalive : aliveAt alive proxies j = true := by simp [aliveAt, hj, hqalive]
  rcases exists_find?_lap hjlt hjalive with ⟨x, hx⟩
  have hxalive : aliveAt alive proxies x = true := List.find?_some hx
  cases hp : proxies[x]? with
  | none => simp [aliveAt, hp] at hxalive
  | some p => exact ⟨x, p, hx, hp, by simpa [aliveAt, hp] using hxalive⟩

/-- As long as no proxy has its second turn, the calls follow one lap. -/
theorem calls_eq_take {k idx : Nat}
    (hk : k ≤ ((lap proxies.length idx).filter (aliveAt alive proxies)).length) :
    calls alive proxies k idx =
      (((lap proxies.length idx).filter (aliveAt alive proxies)).take k).map (proxies[·]?) := by
  induction k generalizing idx with
  | zero => rfl
  | succ k ih =>
      cases hfind : (lap proxies.length idx).find? (aliveAt alive proxies) with
      | none =>
          have hnil : (lap proxies.length idx).filter (aliveAt alive proxies) = [] := by
            apply List.filter_eq_nil_iff.mpr
            exact List.find?_eq_none.mp hfind
          rw [hnil, List.length_nil] at hk
          omega
      | some x =>
          rcases filter_lap_of_find? hfind with ⟨rest, hlap, hnext⟩
          rw [hlap, List.length_cons] at hk
          have hle : k ≤ rest.length := by omega
          have hrest := ih (by rw [hnext, List.length_append]; omega)
          rw [hnext, List.take_append_of_le_length hle] at hrest
          rw [calls, strategyRoundRobin_eq hfind, hlap, List.take_succ_cons, List.map_cons, ← hrest]

theorem filter_lap_map (idx : Nat) :
    ((lap proxies.length idx).filter (aliveAt alive proxies)).map (proxies[·]?) =
      ((proxies.rotate (idx + 1)).filter alive).map some := by
  have hcomp : aliveAt alive proxies = (Option.any alive) ∘ (proxies[·]?) := rfl
  rw [hcomp, ← List.filter_map, map_getElem?_lap, List.filter_map]
  rfl

theorem filter_rotate_isRotated (m : Nat) :
    ((proxies.rotate m).filter alive) ~r (proxies.filter alive) := by
  have hsplit : proxies.filter alive =
      (proxies.take (m % proxies.length)).filter alive ++
        (proxies.drop (m % proxies.length)).filter alive := by
    rw [← List.filter_append, List.take_append_drop]
  rw [List.rotate_eq_drop_append_take_mod, List.filter_append, hsplit]
  exact List.isRotated_append

/-- As many calls as there are proxies alive return each of them once, in the order of the
list from the index on and round its end; and no call ever returns a dead one. -/
theorem strategyRoundRobin_fair (alive : π → Bool) (proxies : List π)
    (halive : ∃ p ∈ proxies, alive p = true) (idx : Nat) :
    calls alive proxies (proxies.countP alive) idx =
        ((proxies.rotate (idx + 1)).filter alive).map some ∧
      ((proxies.rotate (idx + 1)).filter alive) ~r (proxies.filter alive) ∧
      ∀ k, ∀ r ∈ calls alive proxies k idx, ∃ p ∈ proxies, alive p = true ∧ r = some p := by
  refine ⟨?_, filter_rotate_isRotated (idx + 1), ?_⟩
  · have hlen : ((lap proxies.length idx).filter (aliveAt alive proxies)).length =
        proxies.countP alive := by
      have hmap : (((lap proxies.length idx).filter (aliveAt alive proxies)).map
          (proxies[·]?)).length = (((proxies.rotate (idx + 1)).filter alive).map some).length :=
        congrArg List.length (filter_lap_map idx)
      rw [List.length_map, List.length_map, (filter_rotate_isRotated (idx + 1)).perm.length_eq] at hmap
      rw [hmap, List.countP_eq_length_filter]
    rw [calls_eq_take (Nat.le_of_eq hlen.symm), ← hlen, List.take_length, filter_lap_map]
  · intro k
    induction k generalizing idx with
    | zero =>
        intro r hr
        cases hr
    | succ k ih =>
        intro r hr
        rcases exists_stop halive idx with ⟨x, p, hfind, hp, hpalive⟩
        rw [calls, strategyRoundRobin_eq hfind] at hr
        rcases List.mem_cons.mp hr with hr | hr
        · exact ⟨p, List.mem_of_getElem? hp, hpalive, by rw [hr, hp]⟩
        · exact ih x r hr

end RoundRobin

/-- Five proxies of which two are dead, and the index a longer list has left. -/
theorem strategyRoundRobin_fair_five :
    (∃ p ∈ [4, 5, 6, 7, 9], decide (p ≠ 5 ∧ p ≠ 7) = true) ∧
      calls (fun p : Nat => decide (p ≠ 5 ∧ p ≠ 7)) [4, 5, 6, 7, 9] 3 7 =
        [some 9, some 4, some 6] := by
  have halive : ∃ p ∈ [4, 5, 6, 7, 9], decide (p ≠ 5 ∧ p ≠ 7) = true := ⟨4, by decide, by decide⟩
  exact ⟨halive, (strategyRoundRobin_fair (fun p : Nat => decide (p ≠ 5 ∧ p ≠ 7)) [4, 5, 6, 7, 9]
    halive 7).1⟩

end RuleBaseProxy.OutboundGroup.LoadBalance
