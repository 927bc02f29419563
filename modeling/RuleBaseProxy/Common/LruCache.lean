import Mathlib.Data.List.Nodup
import Mathlib.Data.List.Infix

/-! # The LRU cache

Map and list of `LruCache` are one list here, the least recently used entry in
front. Times are seconds. Eviction callbacks are left to the caller.
-/

namespace RuleBaseProxy.Cache

structure Entry (ν : Type v) where
  value : ν
  expires : Nat

structure Options where
  maxAge : Nat
  maxSize : Nat
  updateAgeOnGet : Bool
  staleReturn : Bool

structure LruCache (κ : Type u) (ν : Type v) where
  lru : List (κ × Entry ν)
  nodup : (lru.map Prod.fst).Nodup

namespace LruCache

variable {κ : Type u} {ν : Type v} [DecidableEq κ]

def empty : LruCache κ ν := ⟨[], List.nodup_nil⟩

def find (c : LruCache κ ν) (key : κ) : Option (Entry ν) := c.lru.lookup key

def delete (c : LruCache κ ν) (key : κ) : LruCache κ ν where
  lru := c.lru.filter (·.1 ≠ key)
  nodup := (c.nodup.sublist ((List.filter_sublist).map Prod.fst))

def pushBack (c : LruCache κ ν) (key : κ) (e : Entry ν) : LruCache κ ν where
  lru := (c.delete key).lru ++ [(key, e)]
  nodup := by
    rw [List.map_append, List.map_cons, List.map_nil, List.nodup_append]
    refine ⟨(c.delete key).nodup, List.nodup_singleton _, fun k hk k' hk' => ?_⟩
    obtain ⟨x, hx, rfl⟩ := List.mem_map.mp hk
    rw [List.mem_singleton.mp hk']
    simpa using (List.mem_filter.mp hx).2

def deleteFront (c : LruCache κ ν) : LruCache κ ν where
  lru := c.lru.drop 1
  nodup := c.nodup.sublist ((List.drop_sublist 1 c.lru).map Prod.fst)

def maybeDeleteOldest (o : Options) (now : Nat) (c : LruCache κ ν) : LruCache κ ν :=
  if o.staleReturn = false ∧ 0 < o.maxAge then
    ⟨c.lru.dropWhile (·.2.expires ≤ now),
      c.nodup.sublist ((List.dropWhile_sublist _).map Prod.fst)⟩
  else c

def setWithExpire (o : Options) (now : Nat) (c : LruCache κ ν) (key : κ) (value : ν)
    (expires : Nat) : LruCache κ ν :=
  let pushed := c.pushBack key ⟨value, expires⟩
  maybeDeleteOldest o now
    (if (c.find key).isNone ∧ 0 < o.maxSize ∧ o.maxSize < pushed.lru.length then pushed.deleteFront
    else pushed)

def get (o : Options) (now : Nat) (c : LruCache κ ν) (key : κ) : Option (Entry ν) × LruCache κ ν :=
  match c.find key with
  | none => (none, c)
  | some e =>
      if o.staleReturn = false ∧ 0 < o.maxAge ∧ e.expires ≤ now then
        (none, maybeDeleteOldest o now (c.delete key))
      else
        let e := if 0 < o.maxAge ∧ o.updateAgeOnGet then { e with expires := now + o.maxAge } else e
        (some e, c.pushBack key e)

/-! ## What an operation leaves -/

variable {c c' : LruCache κ ν} {key k : κ} {e : Entry ν}

def Shrinks (c' c : LruCache κ ν) (key : κ) : Prop := c'.find key = none ∨ c'.find key = c.find key

theorem find_eq_some_iff : c.find key = some e ↔ (key, e) ∈ c.lru := by
  obtain ⟨lru, nodup⟩ := c
  unfold find
  simp only
  induction lru with
  | nil => simp
  | cons x lru ih =>
      obtain ⟨y, e'⟩ := x
      rw [List.map_cons, List.nodup_cons] at nodup
      rw [List.lookup_cons, List.mem_cons]
      by_cases h : key = y
      · subst h
        have hnot : (key, e) ∉ lru := fun hm => nodup.1 (List.mem_map.mpr ⟨_, hm, rfl⟩)
        simp [hnot, eq_comm]
      · have hbeq : (key == y) = false := by simpa using h
        simp [hbeq, h, ih nodup.2]

theorem shrinks_of_sublist (h : c'.lru.Sublist c.lru) : Shrinks c' c key := by
  cases hfind : c'.find key with
  | none => exact Or.inl hfind
  | some e =>
      refine Or.inr ?_
      rw [hfind, find_eq_some_iff.mpr (h.subset (find_eq_some_iff.mp hfind))]

theorem find_pushBack : (c.pushBack key e).find k = if k = key then some e else c.find k := by
  by_cases h : k = key
  · subst h
    rw [if_pos rfl, find_eq_some_iff]
    exact List.mem_append_right _ List.mem_cons_self
  · rw [if_neg h]
    refine Option.ext fun e' => ?_
    rw [find_eq_some_iff, find_eq_some_iff]
    simp [pushBack, delete, h]

omit [DecidableEq κ] in
theorem maybeDeleteOldest_of_stale {o : Options} (h : o.staleReturn = true) (now : Nat) :
    maybeDeleteOldest o now c = c :=
  if_neg fun hc => by simp [h] at hc

/-- A cache that returns stale entries has an entry for a key that was just set. -/
theorem find_setWithExpire_self {o : Options} (h : o.staleReturn = true) (now : Nat) (value : ν)
    (expires : Nat) :
    (setWithExpire o now c key value expires).find key = some ⟨value, expires⟩ := by
  unfold setWithExpire
  rw [maybeDeleteOldest_of_stale h]
  split
  · rename_i hfull
    rw [find_eq_some_iff]
    have hlen : 1 ≤ (c.delete key).lru.length := by
      have := hfull.2.2
      simp only [pushBack, List.length_append, List.length_cons, List.length_nil] at this
      omega
    simp only [deleteFront, pushBack, List.drop_append_of_le_length hlen]
    exact List.mem_append_right _ List.mem_cons_self
  · rw [find_pushBack, if_pos rfl]

theorem shrinks_setWithExpire {o : Options} (h : o.staleReturn = true) (now : Nat) (value : ν)
    (expires : Nat) (hk : k ≠ key) : Shrinks (setWithExpire o now c key value expires) c k := by
  unfold setWithExpire
  rw [maybeDeleteOldest_of_stale h]
  have hpush : (c.pushBack key ⟨value, expires⟩).find k = c.find k := by
    rw [find_pushBack, if_neg hk]
  split
  · have hfront : Shrinks (c.pushBack key ⟨value, expires⟩).deleteFront
        (c.pushBack key ⟨value, expires⟩) k := shrinks_of_sublist (List.drop_sublist 1 _)
    rwa [Shrinks, hpush] at hfront
  · exact Or.inr hpush

theorem find_get {o : Options} (hstale : o.staleReturn = true) (hage : o.updateAgeOnGet = false)
    (now : Nat) : (get o now c key).2.find k = c.find k := by
  unfold get
  cases hfind : c.find key with
  | none => rfl
  | some e =>
      simp only [hstale, hage, Bool.true_eq_false, false_and, if_false, Bool.false_eq_true,
        and_false, find_pushBack]
      split
      · rename_i heq
        rw [heq, hfind]
      · rfl

theorem get_fst {o : Options} (hstale : o.staleReturn = true) (hage : o.updateAgeOnGet = false)
    (now : Nat) : (get o now c key).1 = c.find key := by
  unfold get
  cases hfind : c.find key with
  | none => rfl
  | some e => simp [hstale, hage]

end LruCache

end RuleBaseProxy.Cache
