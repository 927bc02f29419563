import Mathlib.Order.Lattice
import Mathlib.Data.List.Basic
import Mathlib.Data.List.Nodup

/-! # Ordered maps

A bucket of an ordered key-value store: entries in strictly ascending order of
their keys, so every key occurs at most once and a full read is sorted.
-/

structure OrderedMap (κ : Type u) (ν : Type v) [LinearOrder κ] where
  entries : List (κ × ν)
  sorted : entries.Pairwise fun a b => a.1 < b.1

namespace OrderedMap

variable {κ : Type u} {ν : Type v} [LinearOrder κ]

def empty : OrderedMap κ ν := ⟨[], List.Pairwise.nil⟩

def insertEntry (k : κ) (v : ν) : List (κ × ν) → List (κ × ν)
  | [] => [(k, v)]
  | e :: es =>
      if k < e.1 then (k, v) :: e :: es
      else if k = e.1 then (k, v) :: es
      else e :: insertEntry k v es

theorem mem_insertEntry_imp {k : κ} {v : ν} {es : List (κ × ν)} {e : κ × ν}
    (h : e ∈ insertEntry k v es) : e = (k, v) ∨ e ∈ es := by
  induction es with
  | nil => simpa [insertEntry] using h
  | cons a es ih =>
      simp only [insertEntry] at h
      split_ifs at h with hlt heq
      · simpa using h
      · rcases List.mem_cons.mp h with h | h
        · exact Or.inl h
        · exact Or.inr (List.mem_cons_of_mem a h)
      · rcases List.mem_cons.mp h with h | h
        · exact Or.inr (h ▸ List.mem_cons_self)
        · exact (ih h).imp_right (List.mem_cons_of_mem a)

theorem sorted_insertEntry (k : κ) (v : ν) {es : List (κ × ν)}
    (h : es.Pairwise fun a b => a.1 < b.1) :
    (insertEntry k v es).Pairwise fun a b => a.1 < b.1 := by
  induction es with
  | nil => exact List.pairwise_singleton _ _
  | cons a es ih =>
      obtain ⟨ha, hes⟩ := List.pairwise_cons.mp h
      simp only [insertEntry]
      split_ifs with hlt heq
      · refine List.pairwise_cons.mpr ⟨fun b hb => ?_, h⟩
        rcases List.mem_cons.mp hb with rfl | hb
        · exact hlt
        · exact lt_trans hlt (ha b hb)
      · exact List.pairwise_cons.mpr ⟨fun b hb => heq ▸ ha b hb, hes⟩
      · refine List.pairwise_cons.mpr ⟨fun b hb => ?_, ih hes⟩
        rcases mem_insertEntry_imp hb with rfl | hb
        · exact lt_of_le_of_ne (not_lt.mp hlt) (Ne.symm heq)
        · exact ha b hb

def put (m : OrderedMap κ ν) (k : κ) (v : ν) : OrderedMap κ ν :=
  ⟨insertEntry k v m.entries, sorted_insertEntry k v m.sorted⟩

def delete (m : OrderedMap κ ν) (k : κ) : OrderedMap κ ν :=
  ⟨m.entries.filter (·.1 ≠ k), m.sorted.filter _⟩

theorem mem_insertEntry {k : κ} {v : ν} {es : List (κ × ν)}
    (hes : es.Pairwise fun a b => a.1 < b.1) {e : κ × ν} :
    e ∈ insertEntry k v es ↔ e = (k, v) ∨ e ∈ es ∧ e.1 ≠ k := by
  induction es with
  | nil => simp [insertEntry]
  | cons a es ih =>
      obtain ⟨ha, hes⟩ := List.pairwise_cons.mp hes
      simp only [insertEntry]
      split_ifs with hlt heq
      · have hne : ∀ b ∈ a :: es, b.1 ≠ k := by
          intro b hb
          rcases List.mem_cons.mp hb with rfl | hb
          · exact (ne_of_lt hlt).symm
          · exact (ne_of_lt (lt_trans hlt (ha b hb))).symm
        constructor
        · intro h
          rcases List.mem_cons.mp h with h | h
          · exact Or.inl h
          · exact Or.inr ⟨h, hne e h⟩
        · rintro (rfl | ⟨h, -⟩)
          · exact List.mem_cons_self
          · exact List.mem_cons_of_mem _ h
      · have hne : ∀ b ∈ es, b.1 ≠ k := fun b hb => heq ▸ (ne_of_lt (ha b hb)).symm
        constructor
        · intro h
          rcases List.mem_cons.mp h with h | h
          · exact Or.inl h
          · exact Or.inr ⟨List.mem_cons_of_mem a h, hne e h⟩
        · rintro (rfl | ⟨h, hk⟩)
          · exact List.mem_cons_self
          · rcases List.mem_cons.mp h with rfl | h
            · exact absurd heq.symm hk
            · exact List.mem_cons_of_mem _ h
      · rw [List.mem_cons, ih hes]
        constructor
        · rintro (rfl | h | ⟨h, hk⟩)
          · exact Or.inr ⟨List.mem_cons_self, fun h => heq h.symm⟩
          · exact Or.inl h
          · exact Or.inr ⟨List.mem_cons_of_mem a h, hk⟩
        · rintro (h | ⟨h, hk⟩)
          · exact Or.inr (Or.inl h)
          · rcases List.mem_cons.mp h with rfl | h
            · exact Or.inl rfl
            · exact Or.inr (Or.inr ⟨h, hk⟩)

@[simp] theorem mem_put {m : OrderedMap κ ν} {k : κ} {v : ν} {e : κ × ν} :
    e ∈ (m.put k v).entries ↔ e = (k, v) ∨ e ∈ m.entries ∧ e.1 ≠ k :=
  mem_insertEntry m.sorted

@[simp] theorem mem_delete {m : OrderedMap κ ν} {k : κ} {e : κ × ν} :
    e ∈ (m.delete k).entries ↔ e ∈ m.entries ∧ e.1 ≠ k := by
  simp [delete]

theorem nodup_keys (m : OrderedMap κ ν) : (m.entries.map Prod.fst).Nodup :=
  List.pairwise_map.mpr (m.sorted.imp ne_of_lt)

theorem eq_of_key_eq (m : OrderedMap κ ν) {e e' : κ × ν} (he : e ∈ m.entries) (he' : e' ∈ m.entries)
    (h : e.1 = e'.1) : e = e' :=
  List.inj_on_of_nodup_map m.nodup_keys he he' h

/-! ## Many updates -/

theorem mem_foldl_put {kvs : List (κ × ν)} (h : (kvs.map Prod.fst).Nodup) (m : OrderedMap κ ν)
    {e : κ × ν} :
    e ∈ (kvs.foldl (fun m kv => m.put kv.1 kv.2) m).entries ↔
      e ∈ kvs ∨ e ∈ m.entries ∧ e.1 ∉ kvs.map Prod.fst := by
  induction kvs generalizing m with
  | nil => simp
  | cons kv kvs ih =>
      rw [List.map_cons, List.nodup_cons] at h
      rw [List.foldl_cons, ih h.2, mem_put, List.map_cons, List.mem_cons, List.mem_cons]
      constructor
      · rintro (hmem | ⟨rfl | ⟨hmem, hne⟩, hnot⟩)
        · exact Or.inl (Or.inr hmem)
        · exact Or.inl (Or.inl rfl)
        · exact Or.inr ⟨hmem, fun hkey => hkey.elim hne hnot⟩
      · rintro ((rfl | hmem) | ⟨hmem, hnot⟩)
        · exact Or.inr ⟨Or.inl rfl, h.1⟩
        · exact Or.inl hmem
        · rw [not_or] at hnot
          exact Or.inr ⟨Or.inr ⟨hmem, hnot.1⟩, hnot.2⟩

theorem mem_foldl_delete (ks : List κ) (m : OrderedMap κ ν) {e : κ × ν} :
    e ∈ (ks.foldl delete m).entries ↔ e ∈ m.entries ∧ e.1 ∉ ks := by
  induction ks generalizing m with
  | nil => simp
  | cons k ks ih =>
      rw [List.foldl_cons, ih, mem_delete, List.mem_cons, not_or, and_assoc]

end OrderedMap

/-- In a list sorted by a relation, an element that satisfies `p` is the first
one that does if no element related to it does. -/
theorem List.find?_eq_some_of_pairwise {α : Type u} {r : α → α → Prop} {l : List α}
    (hl : l.Pairwise r) {p : α → Bool} {a : α} (ha : a ∈ l) (hp : p a = true)
    (hfirst : ∀ b ∈ l, r b a → p b = false) : l.find? p = some a := by
  induction l with
  | nil => cases ha
  | cons b l ih =>
      obtain ⟨hb, hl⟩ := List.pairwise_cons.mp hl
      rcases List.mem_cons.mp ha with rfl | ha
      · exact List.find?_cons_of_pos hp
      · rw [List.find?_cons_of_neg (by simp [hfirst b List.mem_cons_self (hb a ha)])]
        exact ih hl ha fun c hc => hfirst c (List.mem_cons_of_mem b hc)

/-- A list in which an earlier element outranks a later one, and its index: for
every key the first element with it, in key order. The index finds the same
first element for `p` as the list, if `p` depends on the key only and an earlier
element never shares a match with a later one of smaller key. -/
theorem List.find?_index {α : Type u} {κ : Type v} [LinearOrder κ] [DecidableEq κ] (key : α → κ)
    {l : List α} {ks : List κ} (hsorted : ks.Pairwise (· < ·)) (hkeys : ∀ a ∈ l, key a ∈ ks)
    {p : α → Bool} (hp : ∀ a ∈ l, ∀ b ∈ l, key a = key b → p a = p b)
    (hrank : l.Pairwise fun a b => key b < key a → ¬ (p a = true ∧ p b = true)) :
    (ks.filterMap fun k => l.find? (key · = k)).find? p = l.find? p := by
  have hindex : ∀ {k : κ} {a : α}, l.find? (key · = k) = some a → a ∈ l ∧ key a = k := by
    intro k a h
    exact ⟨List.mem_of_find?_eq_some h, by simpa using List.find?_some h⟩
  cases hfind : l.find? p with
  | none =>
      rw [List.find?_eq_none] at hfind ⊢
      intro a ha
      obtain ⟨k, -, hk⟩ := List.mem_filterMap.mp ha
      exact hfind a (hindex hk).1
  | some a =>
      obtain ⟨hpa, pre, post, rfl, hpre⟩ := List.find?_eq_some_iff_append.mp hfind
      have hal : a ∈ pre ++ a :: post := by simp
      have hself : (pre ++ a :: post).find? (key · = key a) = some a := by
        refine List.find?_eq_some_iff_append.mpr ⟨by simp, pre, post, rfl, fun b hb => ?_⟩
        have hbl : b ∈ pre ++ a :: post := List.mem_append_left _ hb
        have hnb := hpre b hb
        by_contra hkey
        rw [hp b hbl a hal (by simpa using hkey), hpa] at hnb
        cases hnb
      have hsortedIndex : (ks.filterMap fun k => (pre ++ a :: post).find? (key · = k)).Pairwise
          fun b c => key b < key c := by
        refine List.Pairwise.filterMap _ (fun k k' hlt b hb c hc => ?_) hsorted
        rw [(hindex hb).2, (hindex hc).2]
        exact hlt
      refine List.find?_eq_some_of_pairwise hsortedIndex
        (List.mem_filterMap.mpr ⟨key a, hkeys a hal, hself⟩) hpa fun b hb hlt => ?_
      obtain ⟨k, -, hk⟩ := List.mem_filterMap.mp hb
      rcases List.mem_append.mp (hindex hk).1 with hb | hb
      · simpa using hpre b hb
      · rcases List.mem_cons.mp hb with rfl | hb
        · exact absurd hlt (lt_irrefl _)
        · have hab := (List.pairwise_cons.mp (List.pairwise_append.mp hrank).2.1).1 b hb hlt
          simpa [hpa] using hab
