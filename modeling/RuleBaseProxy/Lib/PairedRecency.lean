import RuleBaseProxy.Lib.RecencyList

/-! # A recency list of pairs inside a recency list

A one-to-one assignment can be kept in one recency list as two entries for each
pair, one under the left half and one under the right half. As long as both
entries of a pair are used together they stand next to each other, so the list
drops them one after the other: it behaves as a recency list of the pairs.
-/

namespace Recency

variable {κ : Type u} {ν : Type v} {α : Type w} {β : Type x}

structure Halves (κ : Type u) (ν : Type v) (α : Type w) (β : Type x) where
  leftKey : α → κ
  rightKey : β → κ
  leftContent : α → β → ν
  rightContent : α → β → ν
  left_inj : ∀ {a a'}, leftKey a = leftKey a' → a = a'
  right_inj : ∀ {b b'}, rightKey b = rightKey b' → b = b'
  disjoint : ∀ a b, leftKey a ≠ rightKey b

namespace Halves

variable (H : Halves κ ν α β)

def leftEntry (x : α × β) : κ × ν := (H.leftKey x.1, H.leftContent x.1 x.2)

def rightEntry (x : α × β) : κ × ν := (H.rightKey x.2, H.rightContent x.1 x.2)

inductive Pairs : List (α × β) → List (κ × ν) → Prop where
  | nil : Pairs [] []
  | leftFirst {x : α × β} {pairs : List (α × β)} {entries : List (κ × ν)} :
      Pairs pairs entries → Pairs (x :: pairs) (H.leftEntry x :: H.rightEntry x :: entries)
  | rightFirst {x : α × β} {pairs : List (α × β)} {entries : List (κ × ν)} :
      Pairs pairs entries → Pairs (x :: pairs) (H.rightEntry x :: H.leftEntry x :: entries)

variable {H} {pairs pairs' : List (α × β)} {entries entries' : List (κ × ν)} {a : α} {b : β}

theorem Pairs.length (h : H.Pairs pairs entries) : entries.length = 2 * pairs.length := by
  induction h with
  | nil => rfl
  | leftFirst _ ih | rightFirst _ ih =>
      simp only [List.length_cons]
      omega

theorem Pairs.append (h : H.Pairs pairs entries) (h' : H.Pairs pairs' entries') :
    H.Pairs (pairs ++ pairs') (entries ++ entries') := by
  induction h with
  | nil => exact h'
  | leftFirst _ ih => exact ih.leftFirst
  | rightFirst _ ih => exact ih.rightFirst

theorem Pairs.drop (h : H.Pairs pairs entries) : H.Pairs (pairs.drop 1) (entries.drop 2) := by
  cases h with
  | nil => exact .nil
  | leftFirst h => exact h
  | rightFirst h => exact h

theorem Pairs.mem_iff (h : H.Pairs pairs entries) {e : κ × ν} :
    e ∈ entries ↔ ∃ x ∈ pairs, e = H.leftEntry x ∨ e = H.rightEntry x := by
  induction h with
  | nil => simp
  | leftFirst _ ih =>
      rw [List.mem_cons, List.mem_cons, ih, List.exists_mem_cons_iff, or_assoc]
  | rightFirst _ ih =>
      rw [List.mem_cons, List.mem_cons, ih, List.exists_mem_cons_iff, or_assoc, or_left_comm]

theorem Pairs.mem_left_iff (h : H.Pairs pairs entries) {v : ν} :
    (H.leftKey a, v) ∈ entries ↔ ∃ b, (a, b) ∈ pairs ∧ v = H.leftContent a b := by
  rw [h.mem_iff]
  constructor
  · intro ⟨x, hx, heq⟩
    rcases heq with hleft | hright
    · cases H.left_inj (congrArg Prod.fst hleft)
      exact ⟨x.2, hx, congrArg Prod.snd hleft⟩
    · exact absurd (congrArg Prod.fst hright) (H.disjoint a x.2)
  · intro ⟨b, hb, hv⟩
    exact ⟨(a, b), hb, Or.inl (by rw [hv, leftEntry])⟩

theorem Pairs.mem_right_iff (h : H.Pairs pairs entries) {v : ν} :
    (H.rightKey b, v) ∈ entries ↔ ∃ a, (a, b) ∈ pairs ∧ v = H.rightContent a b := by
  rw [h.mem_iff]
  constructor
  · intro ⟨x, hx, heq⟩
    rcases heq with hleft | hright
    · exact absurd (congrArg Prod.fst hleft).symm (H.disjoint x.1 b)
    · cases H.right_inj (congrArg Prod.fst hright)
      exact ⟨x.1, hx, congrArg Prod.snd hright⟩
  · intro ⟨a, ha, hv⟩
    exact ⟨(a, b), ha, Or.inr (by rw [hv, rightEntry])⟩

def Apart (H : Halves κ ν α β) (a : α) (b : β) (e : κ × ν) : Prop :=
  e.1 ≠ H.leftKey a ∧ e.1 ≠ H.rightKey b

instance [DecidableEq κ] (a : α) (b : β) (e : κ × ν) : Decidable (H.Apart a b e) :=
  inferInstanceAs (Decidable (_ ∧ _))

theorem apart_left_iff {x : α × β} : H.Apart a b (H.leftEntry x) ↔ x.1 ≠ a := by
  constructor
  · intro hne heq
    exact hne.1 (congrArg H.leftKey heq)
  · intro hne
    exact ⟨fun heq => hne (H.left_inj heq), H.disjoint x.1 b⟩

theorem apart_right_iff {x : α × β} : H.Apart a b (H.rightEntry x) ↔ x.2 ≠ b := by
  constructor
  · intro hne heq
    exact hne.2 (congrArg H.rightKey heq)
  · intro hne
    exact ⟨(H.disjoint a x.2).symm, fun heq => hne (H.right_inj heq)⟩

/-- Without the entries of a pair the others stay as they are. -/
theorem Pairs.erase [DecidableEq κ] [DecidableEq α] (h : H.Pairs pairs entries)
    (hab : ∀ x ∈ pairs, x.1 = a ↔ x.2 = b) :
    H.Pairs (pairs.filter (·.1 ≠ a)) (entries.filter (H.Apart a b ·)) := by
  induction h with
  | nil => exact .nil
  | @leftFirst x pairs entries _ ih | @rightFirst x pairs entries _ ih =>
      have hrest := ih fun y hy => hab y (List.mem_cons_of_mem x hy)
      have hx : x.1 = a ↔ x.2 = b := hab x List.mem_cons_self
      by_cases ha : x.1 = a
      · have hleft : ¬ H.Apart a b (H.leftEntry x) := fun happ => apart_left_iff.mp happ ha
        have hright : ¬ H.Apart a b (H.rightEntry x) := fun happ => apart_right_iff.mp happ (hx.mp ha)
        rw [List.filter_cons_of_neg (by simpa using ha), List.filter_cons_of_neg (by simpa),
          List.filter_cons_of_neg (by simpa)]
        exact hrest
      · have hleft : H.Apart a b (H.leftEntry x) := apart_left_iff.mpr ha
        have hright : H.Apart a b (H.rightEntry x) := apart_right_iff.mpr fun hb => ha (hx.mpr hb)
        rw [List.filter_cons_of_pos (by simpa using ha), List.filter_cons_of_pos (by simpa),
          List.filter_cons_of_pos (by simpa)]
        first
          | exact hrest.leftFirst
          | exact hrest.rightFirst

end Halves

/-! ## The list and the pairs it stands for -/

variable (H : Halves κ ν α β)

/-- The list stands for these pairs. No two of them have the same half. -/
structure Paired (l : RecencyList κ ν) (ps : RecencyList α β) : Prop where
  pairs : H.Pairs ps.entries l.entries
  rights : (ps.entries.map Prod.snd).Nodup

namespace Paired

open RecencyList

variable {H} {l : RecencyList κ ν} {ps : RecencyList α β} {a : α} {b : β}

theorem empty : Paired H RecencyList.empty RecencyList.empty :=
  ⟨.nil, List.nodup_nil⟩

variable [DecidableEq α]

theorem left_unique (h : Paired H l ps) {a' : α} (hab : ps.find a = some b)
    (hab' : ps.find a' = some b) : a = a' := by
  have heq := List.inj_on_of_nodup_map h.rights (find_eq_some_iff.mp hab) (find_eq_some_iff.mp hab') rfl
  exact congrArg Prod.fst heq

theorem halves_iff (h : Paired H l ps) (hab : ps.find a = some b) :
    ∀ x ∈ ps.entries, x.1 = a ↔ x.2 = b := by
  intro x hx
  have hfind := find_eq_some_iff.mpr hx
  constructor
  · intro heq
    rw [heq, hab] at hfind
    exact (Option.some.inj hfind).symm
  · intro heq
    rw [heq] at hfind
    exact h.left_unique hfind hab

theorem rights_touch (h : Paired H l ps) (hb : ∀ a', ps.find a' = some b → a' = a) :
    ((ps.touch a b).entries.map Prod.snd).Nodup := by
  have hentries : (ps.touch a b).entries = ps.entries.filter (·.1 ≠ a) ++ [(a, b)] := rfl
  rw [hentries, List.map_append, List.nodup_append]
  refine ⟨h.rights.sublist (List.filter_sublist.map _), List.nodup_singleton _, ?_⟩
  intro c hc d hd heq
  rcases List.mem_map.mp hc with ⟨x, hx, rfl⟩
  have hd' : d = b := List.mem_singleton.mp hd
  have hmem := List.mem_filter.mp hx
  have hfind : ps.find x.1 = some b := by
    rw [find_eq_some_iff, ← hd', ← heq]
    exact hmem.1
  have hne : x.1 ≠ a := by simpa using hmem.2
  exact hne (hb x.1 hfind)

variable [DecidableEq κ]

theorem find_left (h : Paired H l ps) : l.find (H.leftKey a) = (ps.find a).map (H.leftContent a) := by
  apply Option.ext
  intro v
  rw [find_eq_some_iff, h.pairs.mem_left_iff, Option.map_eq_some_iff]
  apply exists_congr
  intro b
  rw [find_eq_some_iff, eq_comm]

theorem find_right_iff (h : Paired H l ps) {v : ν} :
    l.find (H.rightKey b) = some v ↔ ∃ a, ps.find a = some b ∧ v = H.rightContent a b := by
  rw [find_eq_some_iff, h.pairs.mem_right_iff]
  apply exists_congr
  intro a
  rw [find_eq_some_iff]

theorem find_right_eq_none (h : Paired H l ps) (hb : ∀ a, ps.find a ≠ some b) :
    l.find (H.rightKey b) = none := by
  cases hfind : l.find (H.rightKey b) with
  | none => rfl
  | some v =>
      rcases h.find_right_iff.mp hfind with ⟨a, ha, -⟩
      exact absurd ha (hb a)

theorem left_not_mem (h : Paired H l ps) (ha : ps.find a = none) : H.leftKey a ∉ l.keys := by
  rw [← find_eq_none_iff, h.find_left, ha, Option.map_none]

omit [DecidableEq α] in
theorem touch_touch_entries {k k' : κ} {v v' : ν} (hne : k ≠ k') :
    ((l.touch k v).touch k' v').entries =
      (l.entries.filter fun e => e.1 ≠ k ∧ e.1 ≠ k') ++ [(k, v), (k', v')] := by
  have hentries : ((l.touch k v).touch k' v').entries =
      (l.entries.filter (·.1 ≠ k) ++ [(k, v)]).filter (·.1 ≠ k') ++ [(k', v')] := rfl
  have hkeep : [(k, v)].filter (fun e => decide (e.1 ≠ k')) = [(k, v)] := by simp [hne]
  have hboth : (l.entries.filter (·.1 ≠ k)).filter (·.1 ≠ k') =
      l.entries.filter fun e => e.1 ≠ k ∧ e.1 ≠ k' := by
    rw [List.filter_filter]
    apply List.filter_congr
    intro e _
    rw [← Bool.decide_and, decide_eq_decide, and_comm]
  rw [hentries, List.filter_append, hkeep, hboth, List.append_assoc]
  rfl

/-- Both entries of a pair are used, the left one first. -/
theorem touch_left (h : Paired H l ps) (hab : ps.find a = some b) :
    Paired H ((l.touch (H.leftKey a) (H.leftContent a b)).touch (H.rightKey b) (H.rightContent a b))
      (ps.touch a b) := by
  refine ⟨?_, h.rights_touch fun a' ha' => h.left_unique ha' hab⟩
  rw [touch_touch_entries (H.disjoint a b)]
  exact (h.pairs.erase (h.halves_iff hab)).append (.leftFirst .nil)

/-- Both entries of a pair are used, the right one first. -/
theorem touch_right (h : Paired H l ps) (hab : ps.find a = some b) :
    Paired H ((l.touch (H.rightKey b) (H.rightContent a b)).touch (H.leftKey a) (H.leftContent a b))
      (ps.touch a b) := by
  refine ⟨?_, h.rights_touch fun a' ha' => h.left_unique ha' hab⟩
  have hswap : (l.entries.filter fun e => e.1 ≠ H.rightKey b ∧ e.1 ≠ H.leftKey a) =
      l.entries.filter (H.Apart a b ·) := by
    apply List.filter_congr
    intro e _
    rw [decide_eq_decide, and_comm, Halves.Apart]
  rw [touch_touch_entries (H.disjoint a b).symm, hswap]
  exact (h.pairs.erase (h.halves_iff hab)).append (.rightFirst .nil)

section TwoPuts

omit [DecidableEq α]

variable {k k' : κ} {v v' : ν} {n : Nat}

omit [DecidableEq κ] in
theorem not_mem_keys_append (hk' : k' ∉ l.keys) (hne : k' ≠ k) :
    k' ∉ (l.entries ++ [(k, v)]).map Prod.fst := by
  rw [List.map_append, List.mem_append, not_or]
  exact ⟨hk', fun hmem => hne (List.mem_singleton.mp hmem)⟩

theorem put_put_entries_of_lt (hk : k ∉ l.keys) (hk' : k' ∉ l.keys) (hne : k' ≠ k)
    (hroom : l.entries.length + 1 < n) :
    ((l.put n k v).put n k' v').entries = l.entries ++ [(k, v), (k', v')] := by
  have hfirst : (l.put n k v).entries = l.entries ++ [(k, v)] := put_entries_of_lt hk (by omega)
  have hkey : k' ∉ (l.put n k v).keys := by
    rw [keys, hfirst]
    exact not_mem_keys_append hk' hne
  rw [put_entries_of_lt hkey, hfirst, List.append_assoc]
  · rfl
  · rw [hfirst, List.length_append, List.length_singleton]
    exact hroom

theorem put_put_entries_of_le (hk : k ∉ l.keys) (hk' : k' ∉ l.keys) (hne : k' ≠ k)
    (hpos : 0 < l.entries.length) (hfull : n ≤ l.entries.length) :
    ((l.put n k v).put n k' v').entries = (l.entries ++ [(k, v), (k', v')]).drop 2 := by
  have hfirst : (l.put n k v).entries = (l.entries ++ [(k, v)]).drop 1 := put_entries_of_le hk hfull
  have hkey : k' ∉ (l.put n k v).keys := by
    rw [keys, hfirst]
    intro hmem
    exact not_mem_keys_append hk' hne (List.map_subset _ (List.drop_subset 1 _) hmem)
  rw [put_entries_of_le hkey, hfirst]
  · rw [← List.drop_append_of_le_length, List.drop_drop, List.append_assoc]
    · rfl
    · rw [List.length_append]
      omega
  · rw [hfirst, List.length_drop, List.length_append, List.length_singleton]
    omega

end TwoPuts

/-- A new pair comes in, the right entry first. Where there is no room for it, two entries
go, and they are a pair. -/
theorem put (h : Paired H l ps) {n : Nat} (hn : 0 < n) (hlen : ps.entries.length ≤ n)
    (ha : ps.find a = none) (hb : ∀ a', ps.find a' ≠ some b) :
    Paired H ((l.put (2 * n) (H.rightKey b) (H.rightContent a b)).put (2 * n) (H.leftKey a)
      (H.leftContent a b)) (ps.put n a b) := by
  have hright : H.rightKey b ∉ l.keys := find_eq_none_iff.mp (h.find_right_eq_none hb)
  have hleft : H.leftKey a ∉ l.keys := h.left_not_mem ha
  have hnew : a ∉ ps.keys := find_eq_none_iff.mp ha
  have hadded : H.Pairs (ps.entries ++ [(a, b)])
      (l.entries ++ [(H.rightKey b, H.rightContent a b), (H.leftKey a, H.leftContent a b)]) :=
    h.pairs.append (.rightFirst .nil)
  have hrights : ((ps.entries ++ [(a, b)]).map Prod.snd).Nodup := by
    rw [← touch_entries_of_not_mem hnew]
    exact h.rights_touch fun a' ha' => absurd ha' (hb a')
  have hsize := h.pairs.length
  rcases Nat.lt_or_ge ps.entries.length n with hroom | hfull
  · constructor
    · rw [put_entries_of_lt hnew hroom,
        put_put_entries_of_lt hright hleft (H.disjoint a b) (by omega)]
      exact hadded
    · rw [put_entries_of_lt hnew hroom]
      exact hrights
  · constructor
    · rw [put_entries_of_le hnew hfull,
        put_put_entries_of_le hright hleft (H.disjoint a b) (by omega) (by omega)]
      exact hadded.drop
    · rw [put_entries_of_le hnew hfull]
      exact hrights.sublist ((List.drop_sublist 1 _).map _)

/-! ### A new left half for a right half that is taken

The right entry is overwritten in place of being added, so one entry goes instead of two. -/

omit [DecidableEq α] [DecidableEq κ] in
theorem rights_ne_of_cons (h : Paired H l ps) {x : α × β} {rest : List (α × β)}
    (hps : ps.entries = x :: rest) : ∀ y ∈ rest, y.2 ≠ x.2 := by
  intro y hy heq
  have hrights := h.rights
  rw [hps, List.map_cons, List.nodup_cons] at hrights
  exact hrights.1 (List.mem_map.mpr ⟨y, hy, heq⟩)

omit [DecidableEq α] in
theorem filter_right_of_ne {pairs : List (α × β)} {entries : List (κ × ν)}
    (h : H.Pairs pairs entries) (hb : ∀ x ∈ pairs, x.2 ≠ b) :
    entries.filter (fun e => e.1 ≠ H.rightKey b) = entries := by
  apply List.filter_eq_self.mpr
  intro e he
  rw [decide_eq_true_eq]
  rcases h.mem_iff.mp he with ⟨x, hx, rfl | rfl⟩
  · exact H.disjoint x.1 b
  · exact fun heq => hb x hx (H.right_inj heq)

omit [DecidableEq α] in
/-- The oldest pair loses its right entry to the new one and keeps its left entry in front. -/
theorem touch_right_of_oldest (h : Paired H l ps) {a₀ : α} {rest : List (α × β)}
    (hps : ps.entries = (a₀, b) :: rest) (v : ν) :
    ∃ es, H.Pairs rest es ∧
      (l.touch (H.rightKey b) v).entries = H.leftEntry (a₀, b) :: (es ++ [(H.rightKey b, v)]) := by
  have hrest := h.rights_ne_of_cons hps
  have hpairs := h.pairs
  have htouch : (l.touch (H.rightKey b) v).entries =
      l.entries.filter (fun e => e.1 ≠ H.rightKey b) ++ [(H.rightKey b, v)] := rfl
  have hleft : (H.leftEntry (a₀, b)).1 ≠ H.rightKey b := H.disjoint a₀ b
  have hright : (H.rightEntry (a₀, b)).1 = H.rightKey b := rfl
  rw [hps] at hpairs
  generalize l.entries = entries at hpairs htouch
  cases hpairs with
  | leftFirst hes | rightFirst hes =>
      refine ⟨_, hes, ?_⟩
      rw [htouch]
      simp only [List.filter_cons, hleft, hright, ne_eq, not_false_iff, not_true, decide_true,
        decide_false, if_true, Bool.false_eq_true, if_false, List.cons_append]
      rw [filter_right_of_ne hes hrest]

theorem put_right_of_taken (h : Paired H l ps) {a₀ : α} (hab : ps.find a₀ = some b) (max : Nat)
    (v : ν) : l.put max (H.rightKey b) v = l.touch (H.rightKey b) v := by
  have hright : l.find (H.rightKey b) = some (H.rightContent a₀ b) :=
    h.find_right_iff.mpr ⟨a₀, hab, rfl⟩
  exact if_pos (Or.inl (mem_keys_of_find hright))

theorem left_not_mem_touch (h : Paired H l ps) (ha : ps.find a = none) (v : ν) :
    H.leftKey a ∉ (l.touch (H.rightKey b) v).keys := by
  rw [mem_keys_touch, not_or]
  exact ⟨H.disjoint a b, h.left_not_mem ha⟩

/-- In a full list the oldest pair makes room for the new one. -/
theorem put_oldest (h : Paired H l ps) {n : Nat} {a₀ : α} {rest : List (α × β)}
    (hps : ps.entries = (a₀, b) :: rest) (hfull : ps.entries.length = n) (ha : ps.find a = none) :
    Paired H ((l.put (2 * n) (H.rightKey b) (H.rightContent a b)).put (2 * n) (H.leftKey a)
      (H.leftContent a b)) (ps.put n a b) := by
  have hnew : a ∉ ps.keys := find_eq_none_iff.mp ha
  have hab : ps.find a₀ = some b := find_eq_some_iff.mpr (by rw [hps]; exact List.mem_cons_self)
  rcases h.touch_right_of_oldest hps (H.rightContent a b) with ⟨es, hes, hentries⟩
  have hlength : 2 * n ≤ (l.touch (H.rightKey b) (H.rightContent a b)).entries.length := by
    have hsize := hes.length
    rw [hps, List.length_cons] at hfull
    rw [hentries, List.length_cons, List.length_append, List.length_singleton]
    omega
  have hput : (ps.put n a b).entries = rest ++ [(a, b)] := by
    rw [put_entries_of_le hnew (Nat.le_of_eq hfull.symm), hps]
    rfl
  constructor
  · rw [hput, h.put_right_of_taken hab, put_entries_of_le (h.left_not_mem_touch ha _) hlength, hentries]
    simp only [List.cons_append, List.drop_succ_cons, List.drop_zero, List.append_assoc]
    exact hes.append (.rightFirst .nil)
  · rw [hput, List.map_append, List.nodup_append]
    have hrights := h.rights
    rw [hps, List.map_cons, List.nodup_cons] at hrights
    refine ⟨hrights.2, List.nodup_singleton _, ?_⟩
    intro c hc d hd heq
    rcases List.mem_map.mp hc with ⟨y, hy, rfl⟩
    exact h.rights_ne_of_cons hps y hy (heq.trans (List.mem_singleton.mp hd))

omit [DecidableEq α] [DecidableEq κ] in
theorem exists_front_apart (h : Paired H l ps) {x : α × β} {rest : List (α × β)}
    (hps : ps.entries = x :: rest) {a₀ : α} (hx₁ : x.1 ≠ a₀) (hx₂ : x.2 ≠ b) :
    ∃ e es, l.entries = e :: es ∧ H.Apart a₀ b e := by
  have hpairs := h.pairs
  rw [hps] at hpairs
  generalize l.entries = entries at hpairs
  cases hpairs with
  | leftFirst hes => exact ⟨_, _, rfl, Halves.apart_left_iff.mpr hx₁⟩
  | rightFirst hes => exact ⟨_, _, rfl, Halves.apart_right_iff.mpr hx₂⟩

/-- The one that had the right half keeps its left entry, unless it is the oldest of a full list. -/
theorem find_left_of_taken (h : Paired H l ps) {n : Nat} {a₀ : α} (hab : ps.find a₀ = some b)
    (ha : ps.find a = none)
    (hkeep : ps.entries.length < n ∨ ∃ x rest, ps.entries = x :: rest ∧ x.2 ≠ b) :
    ((l.put (2 * n) (H.rightKey b) (H.rightContent a b)).put (2 * n) (H.leftKey a)
      (H.leftContent a b)).find (H.leftKey a₀) = some (H.leftContent a₀ b) := by
  have hnew := h.left_not_mem_touch (b := b) ha (H.rightContent a b)
  have hmem : (H.leftKey a₀, H.leftContent a₀ b) ∈
      (l.touch (H.rightKey b) (H.rightContent a b)).entries := by
    rw [← find_eq_some_iff, find_touch_of_ne (H.disjoint a₀ b), h.find_left, hab, Option.map_some]
  rw [h.put_right_of_taken hab, find_eq_some_iff]
  rcases hkeep with hroom | ⟨x, rest, hps, hx⟩
  · have hright : l.find (H.rightKey b) = some (H.rightContent a₀ b) :=
      h.find_right_iff.mpr ⟨a₀, hab, rfl⟩
    have hlength := length_touch_of_find hright (b := H.rightContent a b)
    have hsize := h.pairs.length
    rw [put_entries_of_lt hnew (by omega)]
    exact List.mem_append_left _ hmem
  · have hxa : x.1 ≠ a₀ := by
      intro heq
      exact hx ((h.halves_iff hab x (by rw [hps]; exact List.mem_cons_self)).mp heq)
    rcases h.exists_front_apart hps hxa hx with ⟨e, es, hl, hekey⟩
    have hcons : (l.touch (H.rightKey b) (H.rightContent a b)).entries =
        e :: (es.filter (fun e => e.1 ≠ H.rightKey b) ++ [(H.rightKey b, H.rightContent a b)]) := by
      have htouch : (l.touch (H.rightKey b) (H.rightContent a b)).entries =
          l.entries.filter (fun e => e.1 ≠ H.rightKey b) ++
            [(H.rightKey b, H.rightContent a b)] := rfl
      rw [htouch, hl, List.filter_cons_of_pos (by simpa using hekey.2), List.cons_append]
    apply mem_put_of_ne_front hnew hcons hmem
    intro heq
    exact hekey.1 (congrArg Prod.fst heq).symm

end Paired

end Recency
