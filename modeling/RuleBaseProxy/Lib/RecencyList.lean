import Mathlib.Data.List.Nodup
import Mathlib.Data.List.Infix
import Mathlib.Data.List.Perm.Subperm

/-! # Recency lists

Distinct keys with their contents, ordered by last use, the least recent in
front. The entries that an operation drops are read off the lists before and
after it, so whoever reports them cannot report one twice.
-/

namespace Recency

structure RecencyList (κ : Type u) (α : Type v) where
  entries : List (κ × α)
  nodup : (entries.map Prod.fst).Nodup

namespace RecencyList

variable {κ : Type u} {α : Type v}

@[ext] theorem ext {l l' : RecencyList κ α} (h : l.entries = l'.entries) : l = l' := by
  cases l
  cases l'
  cases h
  rfl

def empty : RecencyList κ α := ⟨[], List.nodup_nil⟩

def keys (l : RecencyList κ α) : List κ := l.entries.map Prod.fst

def tail (l : RecencyList κ α) : RecencyList κ α where
  entries := l.entries.drop 1
  nodup := l.nodup.sublist ((List.drop_sublist 1 l.entries).map Prod.fst)

variable [DecidableEq κ]

def find (l : RecencyList κ α) (key : κ) : Option α := l.entries.lookup key

def erase (l : RecencyList κ α) (key : κ) : RecencyList κ α where
  entries := l.entries.filter (·.1 ≠ key)
  nodup := l.nodup.sublist (List.filter_sublist.map Prod.fst)

def touch (l : RecencyList κ α) (key : κ) (a : α) : RecencyList κ α where
  entries := (l.erase key).entries ++ [(key, a)]
  nodup := by
    rw [List.map_append, List.map_cons, List.map_nil, List.nodup_append]
    refine ⟨(l.erase key).nodup, List.nodup_singleton _, fun k hk k' hk' => ?_⟩
    obtain ⟨x, hx, rfl⟩ := List.mem_map.mp hk
    rw [List.mem_singleton.mp hk']
    simpa using (List.mem_filter.mp hx).2

/-- A new key beyond `max` takes the place of the least recent one. -/
def put (max : Nat) (l : RecencyList κ α) (key : κ) (a : α) : RecencyList κ α :=
  if key ∈ l.keys ∨ l.entries.length < max then l.touch key a else (l.touch key a).tail

/-- A limit of zero is no limit. -/
def insert (max : Nat) (l : RecencyList κ α) (key : κ) (a : α) : RecencyList κ α :=
  if max = 0 then l.touch key a else l.put max key a

/-- A key that is there becomes the most recent one, with its content. -/
def access (l : RecencyList κ α) (key : κ) : RecencyList κ α :=
  match l.find key with
  | none => l
  | some a => l.touch key a

def dropped (before after : RecencyList κ α) : List (κ × α) :=
  before.entries.filter fun x => x.1 ∉ after.keys

inductive Use (κ : Type u) (α : Type v) where
  | put (key : κ) (a : α)
  | access (key : κ)

def Use.key : Use κ α → κ
  | .put key _ => key
  | .access key => key

def use (max : Nat) (l : RecencyList κ α) : Use κ α → RecencyList κ α
  | .put key a => l.put max key a
  | .access key => l.access key

/-- The key is there with this content, and what is more recent is among `ks`. -/
def Recent (l : RecencyList κ α) (key : κ) (a : α) (ks : List κ) : Prop :=
  ∃ before after, l.entries = before ++ (key, a) :: after ∧ ∀ x ∈ after, x.1 ∈ ks

variable {l : RecencyList κ α} {key : κ} {a : α}

omit [DecidableEq κ] in
theorem tail_entries : l.tail.entries = l.entries.drop 1 := rfl

theorem erase_entries : (l.erase key).entries = l.entries.filter (·.1 ≠ key) := rfl

theorem find_eq_some_iff : l.find key = some a ↔ (key, a) ∈ l.entries := by
  obtain ⟨entries, nodup⟩ := l
  unfold find
  simp only
  induction entries with
  | nil => simp
  | cons x entries ih =>
      obtain ⟨k, b⟩ := x
      rw [List.map_cons, List.nodup_cons] at nodup
      rw [List.lookup_cons, List.mem_cons]
      by_cases h : key = k
      · subst h
        have hnot : (key, a) ∉ entries := fun hm => nodup.1 (List.mem_map.mpr ⟨_, hm, rfl⟩)
        simp [hnot, eq_comm]
      · have hbeq : (key == k) = false := by simpa using h
        simp [hbeq, h, ih nodup.2]

theorem mem_keys_of_find (h : l.find key = some a) : key ∈ l.keys :=
  List.mem_map.mpr ⟨_, find_eq_some_iff.mp h, rfl⟩

theorem find_eq_none_iff : l.find key = none ↔ key ∉ l.keys := by
  constructor
  · intro h hmem
    obtain ⟨⟨k, a⟩, hx, rfl⟩ := List.mem_map.mp hmem
    have hfind := find_eq_some_iff.mpr hx
    simp [h] at hfind
  · intro h
    cases hfind : l.find key with
    | none => rfl
    | some a => exact absurd (mem_keys_of_find hfind) h

theorem erase_of_not_mem (h : key ∉ l.keys) : l.erase key = l := by
  ext1
  rw [erase_entries, List.filter_eq_self]
  intro x hx
  have hne : x.1 ≠ key := fun heq => h (List.mem_map.mpr ⟨x, hx, heq⟩)
  simpa using hne

theorem touch_entries_of_not_mem (h : key ∉ l.keys) :
    (l.touch key a).entries = l.entries ++ [(key, a)] :=
  congrArg (fun l' : RecencyList κ α => l'.entries ++ [(key, a)]) (erase_of_not_mem h)

theorem put_entries_of_lt {max : Nat} (h : key ∉ l.keys) (hlt : l.entries.length < max) :
    (l.put max key a).entries = l.entries ++ [(key, a)] := by
  rw [put, if_pos (Or.inr hlt), touch_entries_of_not_mem h]

theorem put_entries_of_le {max : Nat} (h : key ∉ l.keys) (hle : max ≤ l.entries.length) :
    (l.put max key a).entries = (l.entries ++ [(key, a)]).drop 1 := by
  have hnot : ¬ (key ∈ l.keys ∨ l.entries.length < max) := by
    intro hor
    rcases hor with hmem | hlt
    · exact h hmem
    · omega
  rw [put, if_neg hnot, tail_entries, touch_entries_of_not_mem h]

theorem mem_put_of_ne_front {max : Nat} {e x : κ × α} {rest : List (κ × α)} (h : key ∉ l.keys)
    (hl : l.entries = x :: rest) (he : e ∈ l.entries) (hne : e ≠ x) :
    e ∈ (l.put max key a).entries := by
  rcases Nat.lt_or_ge l.entries.length max with hroom | hfull
  · rw [put_entries_of_lt h hroom]
    exact List.mem_append_left _ he
  · rw [put_entries_of_le h hfull, hl, List.cons_append, List.drop_succ_cons, List.drop_zero]
    rw [hl] at he
    exact List.mem_append_left _ ((List.mem_cons.mp he).resolve_left hne)

theorem mem_keys_touch {k : κ} : k ∈ (l.touch key a).keys ↔ k = key ∨ k ∈ l.keys := by
  simp only [keys, touch, erase, List.map_append, List.mem_append, List.mem_map, List.mem_filter,
    List.map_cons, List.map_nil, List.mem_singleton]
  constructor
  · intro h
    obtain ⟨x, ⟨hx, -⟩, rfl⟩ | h := h
    · exact Or.inr ⟨x, hx, rfl⟩
    · exact Or.inl h
  · intro h
    by_cases hk : k = key
    · exact Or.inr hk
    · obtain ⟨x, hx, rfl⟩ := h.resolve_left hk
      exact Or.inl ⟨x, ⟨hx, by simpa using hk⟩, rfl⟩

theorem mem_touch {e : κ × α} :
    e ∈ (l.touch key a).entries ↔ e ∈ l.entries ∧ e.1 ≠ key ∨ e = (key, a) := by
  simp [touch, erase]

theorem mem_touch_of_find (h : l.find key = some a) {e : κ × α} :
    e ∈ (l.touch key a).entries ↔ e ∈ l.entries := by
  rw [mem_touch]
  constructor
  · intro hmem
    rcases hmem with hmem | rfl
    · exact hmem.1
    · exact find_eq_some_iff.mp h
  · intro hmem
    by_cases hkey : e.1 = key
    · have hfind : l.find e.1 = some e.2 := find_eq_some_iff.mpr hmem
      rw [hkey, h] at hfind
      exact Or.inr (Prod.ext hkey (Option.some.inj hfind).symm)
    · exact Or.inl ⟨hmem, hkey⟩

theorem access_of_find (h : l.find key = some a) : l.access key = l.touch key a := by
  rw [access, h]

theorem access_of_find_none (h : l.find key = none) : l.access key = l := by
  rw [access, h]

theorem mem_access {e : κ × α} : e ∈ (l.access key).entries ↔ e ∈ l.entries := by
  cases h : l.find key with
  | none => rw [access_of_find_none h]
  | some a => rw [access_of_find h, mem_touch_of_find h]

theorem mem_of_mem_put {max : Nat} {e : κ × α} (h : e ∈ (l.put max key a).entries) :
    e ∈ l.entries ∨ e = (key, a) := by
  have htouch : e ∈ (l.touch key a).entries := by
    rw [put] at h
    split at h
    · exact h
    · exact List.mem_of_mem_drop h
  exact (mem_touch.mp htouch).imp_left And.left

theorem mem_of_mem_insert {max : Nat} {e : κ × α} (h : e ∈ (l.insert max key a).entries) :
    e ∈ l.entries ∨ e = (key, a) := by
  rw [insert] at h
  split at h
  · exact (mem_touch.mp h).imp_left And.left
  · exact mem_of_mem_put h

theorem length_touch_le_succ : (l.touch key a).entries.length ≤ l.entries.length + 1 := by
  have hle : (l.entries.filter (·.1 ≠ key)).length ≤ l.entries.length := List.length_filter_le _ _
  have hentries : (l.touch key a).entries = l.entries.filter (·.1 ≠ key) ++ [(key, a)] := rfl
  rw [hentries, List.length_append, List.length_singleton]
  omega

theorem length_put_le_succ {max : Nat} : (l.put max key a).entries.length ≤ l.entries.length + 1 := by
  rw [put]
  split
  · exact length_touch_le_succ
  · rw [tail_entries, List.length_drop]
    exact Nat.le_trans (Nat.sub_le _ _) length_touch_le_succ

/-- Without limit, or with this one: the limit is not felt before it is reached. -/
theorem insert_eq_put {max n : Nat} (hn : 0 < n)
    (h : max = n ∨ max = 0 ∧ l.entries.length < n) : l.insert max key a = l.put n key a := by
  rcases h with rfl | ⟨rfl, hlt⟩
  · rw [insert, if_neg (by omega)]
  · rw [insert, if_pos rfl, put, if_pos (Or.inr hlt)]

theorem find_touch_self : (l.touch key a).find key = some a :=
  find_eq_some_iff.mpr (List.mem_append_right _ List.mem_cons_self)

theorem find_touch_of_ne {k : κ} (hk : k ≠ key) : (l.touch key a).find k = l.find k := by
  apply Option.ext
  intro b
  rw [find_eq_some_iff, find_eq_some_iff]
  simp [touch, erase, hk]

theorem find_put_self {max : Nat} (hmax : 0 < max) : (l.put max key a).find key = some a := by
  rw [put]
  split
  · exact find_touch_self
  · rename_i hfull
    rw [not_or, Nat.not_lt] at hfull
    rw [find_eq_some_iff, tail_entries, touch_entries_of_not_mem hfull.1,
      List.drop_append_of_le_length (by omega)]
    exact List.mem_append_right _ List.mem_cons_self

theorem length_touch_of_find (h : l.find key = some a) {b : α} :
    (l.touch key b).entries.length ≤ l.entries.length := by
  have hlt : (l.entries.filter (·.1 ≠ key)).length < l.entries.length := by
    rw [List.length_filter_lt_length_iff_exists]
    exact ⟨(key, a), find_eq_some_iff.mp h, by simp⟩
  have hentries : (l.touch key b).entries = l.entries.filter (·.1 ≠ key) ++ [(key, b)] := rfl
  rw [hentries, List.length_append, List.length_singleton]
  omega

theorem length_put_le {max : Nat} (h : key ∉ l.keys) (hle : l.entries.length ≤ max) :
    (l.put max key a).entries.length ≤ max := by
  rcases Nat.lt_or_ge l.entries.length max with hroom | hfull
  · rw [put_entries_of_lt h hroom, List.length_append, List.length_singleton]
    omega
  · rw [put_entries_of_le h hfull, List.length_drop, List.length_append, List.length_singleton]
    omega

theorem erase_head {x : κ × α} {rest : List (κ × α)} (hl : l.entries = x :: rest) :
    l.erase x.1 = l.tail := by
  have hnodup := l.nodup
  rw [hl, List.map_cons, List.nodup_cons] at hnodup
  ext1
  rw [erase_entries, tail_entries, hl, List.filter_cons_of_neg (by simp), List.drop_one, List.tail_cons,
    List.filter_eq_self]
  intro y hy
  have hne : y.1 ≠ x.1 := fun heq => hnodup.1 (List.mem_map.mpr ⟨y, hy, heq⟩)
  simpa using hne

/-! ## What an operation drops -/

theorem dropped_of_subset {l' : RecencyList κ α} (h : ∀ k ∈ l.keys, k ∈ l'.keys) :
    dropped l l' = [] := by
  rw [dropped, List.filter_eq_nil_iff]
  intro x hx
  simpa using h x.1 (List.mem_map.mpr ⟨x, hx, rfl⟩)

theorem dropped_touch : dropped l (l.touch key a) = [] :=
  dropped_of_subset fun _ hk => mem_keys_touch.mpr (Or.inr hk)

theorem dropped_of_split {l' : RecencyList κ α} {x : κ × α} {as bs : List (κ × α)}
    (hl : l.entries = as ++ x :: bs) (hx : x.1 ∉ l'.keys) (has : ∀ y ∈ as, y.1 ∈ l'.keys)
    (hbs : ∀ y ∈ bs, y.1 ∈ l'.keys) : dropped l l' = [x] := by
  have hkeep : ∀ ys : List (κ × α), (∀ y ∈ ys, y.1 ∈ l'.keys) →
      ys.filter (fun y => y.1 ∉ l'.keys) = [] := by
    intro ys hys
    rw [List.filter_eq_nil_iff]
    intro y hy
    simpa using hys y hy
  rw [dropped, hl, List.filter_append, List.filter_cons_of_pos (by simpa using hx), hkeep as has,
    hkeep bs hbs, List.nil_append]

theorem mem_keys_erase {k : κ} : k ∈ (l.erase key).keys ↔ k ≠ key ∧ k ∈ l.keys := by
  simp only [keys, erase, List.mem_map, List.mem_filter, decide_eq_true_eq]
  constructor
  · intro h
    obtain ⟨x, ⟨hx, hne⟩, rfl⟩ := h
    exact ⟨hne, x, hx, rfl⟩
  · intro h
    obtain ⟨hne, x, hx, rfl⟩ := h
    exact ⟨x, ⟨hx, hne⟩, rfl⟩

theorem dropped_erase (h : l.find key = some a) : dropped l (l.erase key) = [(key, a)] := by
  obtain ⟨as, bs, hl⟩ := List.append_of_mem (find_eq_some_iff.mp h)
  have hnodup := l.nodup
  rw [hl, List.map_append, List.map_cons, List.nodup_append, List.nodup_cons] at hnodup
  obtain ⟨-, ⟨hbs, -⟩, hdisj⟩ := hnodup
  have hmem : ∀ y ∈ as ++ bs, y.1 ∈ l.keys := by
    intro y hy
    rw [keys, hl]
    obtain hy | hy := List.mem_append.mp hy
    · exact List.mem_map.mpr ⟨y, by simp [hy], rfl⟩
    · exact List.mem_map.mpr ⟨y, by simp [hy], rfl⟩
  refine dropped_of_split hl (fun hk => (mem_keys_erase.mp hk).1 rfl) (fun y hy => ?_)
    fun y hy => ?_
  · refine mem_keys_erase.mpr ⟨?_, hmem y (List.mem_append_left _ hy)⟩
    exact hdisj _ (List.mem_map.mpr ⟨y, hy, rfl⟩) _ List.mem_cons_self
  · refine mem_keys_erase.mpr ⟨?_, hmem y (List.mem_append_right _ hy)⟩
    exact fun heq => hbs (List.mem_map.mpr ⟨y, hy, heq⟩)

/-- Beyond the limit the least recent entry goes, and nothing else. -/
theorem dropped_touch_tail {x : κ × α} {rest : List (κ × α)} (hl : l.entries = x :: rest)
    (hkey : key ∉ l.keys) : dropped l (l.touch key a).tail = [x] := by
  have hentries : (l.touch key a).tail.entries = rest ++ [(key, a)] := by
    rw [tail_entries, touch_entries_of_not_mem hkey, hl]
    rfl
  have hnodup := l.nodup
  rw [hl, List.map_cons, List.nodup_cons] at hnodup
  have hsplit : l.entries = [] ++ x :: rest := hl
  refine dropped_of_split hsplit ?_ (fun y hy => nomatch hy) fun y hy => ?_
  · rw [keys, hentries, List.map_append, List.mem_append, not_or]
    refine ⟨hnodup.1, fun hx => hkey ?_⟩
    rw [List.map_cons, List.map_nil, List.mem_singleton] at hx
    rw [keys, hl]
    exact List.mem_map.mpr ⟨x, List.mem_cons_self, hx⟩
  · rw [keys, hentries]
    exact List.mem_map.mpr ⟨y, List.mem_append_left _ hy, rfl⟩

/-! ## How long an entry stays -/

variable {ks : List κ}

theorem Recent.find (h : l.Recent key a ks) : l.find key = some a := by
  obtain ⟨before, after, hl, -⟩ := h
  refine find_eq_some_iff.mpr ?_
  rw [hl]
  exact List.mem_append_right _ List.mem_cons_self

theorem recent_touch (l : RecencyList κ α) (key : κ) (a : α) (ks : List κ) :
    (l.touch key a).Recent key a ks :=
  ⟨(l.erase key).entries, [], rfl, fun _ hx => absurd hx List.not_mem_nil⟩

theorem recent_put {max : Nat} (hmax : 0 < max) (l : RecencyList κ α) (key : κ) (a : α)
    (ks : List κ) : (l.put max key a).Recent key a ks := by
  by_cases hroom : key ∈ l.keys ∨ l.entries.length < max
  · rw [put, if_pos hroom]
    exact recent_touch l key a ks
  · rw [not_or, not_lt] at hroom
    obtain ⟨x, rest, hl⟩ := List.exists_cons_of_length_pos (hmax.trans_le hroom.2)
    refine ⟨rest, [], ?_, fun x hx => absurd hx List.not_mem_nil⟩
    rw [put_entries_of_le hroom.1 hroom.2, hl]
    rfl

theorem Recent.touch_of_ne (h : l.Recent key a ks) {k : κ} (b : α) (hne : k ≠ key)
    (hk : k ∈ ks) : (l.touch k b).Recent key a ks := by
  obtain ⟨before, after, hl, hafter⟩ := h
  refine ⟨before.filter (·.1 ≠ k), after.filter (·.1 ≠ k) ++ [(k, b)], ?_, ?_⟩
  · change l.entries.filter (·.1 ≠ k) ++ [(k, b)] = _
    simp [hl, hne.symm]
  · intro x hx
    rcases List.mem_append.mp hx with hx | hx
    · exact hafter x (List.mem_of_mem_filter hx)
    · rw [List.mem_singleton.mp hx]
      exact hk

/-- With fewer than `max` such keys the entry is not the one that has to go. -/
theorem Recent.put_of_ne {max : Nat} (h : l.Recent key a ks) (hmax : ks.length < max) {k : κ}
    (b : α) (hne : k ≠ key) (hk : k ∈ ks) : (l.put max k b).Recent key a ks := by
  by_cases hroom : k ∈ l.keys ∨ l.entries.length < max
  · rw [put, if_pos hroom]
    exact h.touch_of_ne b hne hk
  · rw [not_or, not_lt] at hroom
    obtain ⟨before, after, hl, hafter⟩ := h
    cases before with
    | cons x before =>
        refine ⟨before, after ++ [(k, b)], ?_, ?_⟩
        · rw [put_entries_of_le hroom.1 hroom.2, hl]
          simp
        · intro y hy
          rcases List.mem_append.mp hy with hy | hy
          · exact hafter y hy
          · rw [List.mem_singleton.mp hy]
            exact hk
    | nil =>
        have hkeys : l.keys = key :: after.map Prod.fst := by rw [keys, hl]; rfl
        have hnodup : (k :: after.map Prod.fst).Nodup := by
          have hl' := l.nodup
          change l.keys.Nodup at hl'
          rw [hkeys, List.nodup_cons] at hl'
          refine List.nodup_cons.mpr ⟨fun hmem => hroom.1 ?_, hl'.2⟩
          rw [hkeys]
          exact List.mem_cons_of_mem key hmem
        have hsub : k :: after.map Prod.fst ⊆ ks := by
          intro y hy
          rcases List.mem_cons.mp hy with rfl | hy
          · exact hk
          · obtain ⟨x, hx, rfl⟩ := List.mem_map.mp hy
            exact hafter x hx
        have hcount := (hnodup.subperm hsub).length_le
        have hfull := hroom.2
        rw [hl] at hfull
        simp only [List.length_cons, List.length_map, List.nil_append] at hcount hfull
        omega

/-- An entry stays while fewer than `max` other keys are used. -/
theorem Recent.use {max : Nat} (h : l.Recent key a ks) (hmax : ks.length < max) {u : Use κ α}
    (hother : u.key ≠ key → u.key ∈ ks) (hput : ∀ b, u ≠ .put key b) :
    (l.use max u).Recent key a ks := by
  cases u with
  | put k b =>
      have hne : k ≠ key := by
        rintro rfl
        exact hput b rfl
      exact h.put_of_ne hmax b hne (hother hne)
  | access k =>
      change (l.access k).Recent key a ks
      by_cases hk : k = key
      · subst hk
        rw [access_of_find h.find]
        exact recent_touch l k a ks
      · cases hfind : l.find k with
        | none => rwa [access_of_find_none hfind]
        | some b =>
            rw [access_of_find hfind]
            exact h.touch_of_ne b hk (hother hk)

end RecencyList

end Recency
