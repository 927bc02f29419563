import RuleBaseProxy.Common.LinkedLru

/-! # Caches cloned into one another

`CloneTo` gives another cache a list and a map of its own, but the entries stay
those of the original: it copies the pointers. So the entries belong to no cache
here, and a cache is a map and a list over them. An insertion evicts at most one
entry; a cache outgrows its bound exactly where it is given more entries than it
may hold.
-/

namespace RuleBaseProxy.Cache

open Recency TransitionSystem

structure Part (κ : Type u) where
  cache : κ → Option Nat
  lru : List Nat

structure Caches (ι : Type u) (κ : Type v) (ν : Type w) (σ : Type x) where
  parts : ι → Part κ
  elems : Nat → Option (ListEntry κ ν)
  next : Nat
  world : σ

inductive Action (ι : Type u) (κ : Type v) (ν : Type w) where
  | call (c : ι) (op : Op κ ν)
  | cloneTo (c n : ι)

/-- The loop of `CloneTo`: each entry goes to the back of the new list and into the new map. -/
def cloneElems {κ : Type u} {ν : Type v} [DecidableEq κ] (elems : Nat → Option (ListEntry κ ν)) :
    List Nat → Part κ → Option (Part κ)
  | [], n => some n
  | le :: rest, n =>
      (elems le).bind fun e =>
        cloneElems elems rest ⟨Function.update n.cache e.key (some le), n.lru ++ [le]⟩

namespace Caches

variable {ι : Type u} {κ : Type v} {ν : Type w} {σ : Type x} [DecidableEq ι] [DecidableEq κ]

def empty (world : σ) : Caches ι κ ν σ := ⟨fun _ => ⟨fun _ => none, []⟩, fun _ => none, 0, world⟩

def view (s : Caches ι κ ν σ) (c : ι) : LinkedLru κ ν σ :=
  ⟨(s.parts c).cache, (s.parts c).lru, s.elems, s.next, s.world⟩

def put (s : Caches ι κ ν σ) (c : ι) (l : LinkedLru κ ν σ) : Caches ι κ ν σ :=
  ⟨Function.update s.parts c ⟨l.cache, l.lru⟩, l.elems, l.next, l.world⟩

/-- `c.CloneTo(n)`. A cache cloned to itself waits for its own lock for ever. -/
def cloneTo (s : Caches ι κ ν σ) (c n : ι) : Option (Caches ι κ ν σ) :=
  if c = n then none
  else
    (cloneElems s.elems (s.parts c).lru ⟨fun _ => none, []⟩).map fun part =>
      { s with parts := Function.update s.parts n part }

end Caches

section Runs

variable {ι : Type u} {κ : Type v} {ν : Type w} {σ : Type x} [DecidableEq ι] [DecidableEq κ]

/-- Each cache with its own options and its own callback. -/
def caches (o : ι → Options) (onEvict : ι → κ → ν → σ → σ) :
    System (Caches ι κ ν σ) (Action ι κ ν) where
  step s
    | .call c op => ((s.view c).call (o c) (onEvict c) op).map fun r => s.put c r.1
    | .cloneTo c n => s.cloneTo c n

def Bounded (o : ι → Options) (s : Caches ι κ ν σ) : Prop :=
  ∀ c, 0 < (o c).maxSize → (s.parts c).lru.length ≤ (o c).maxSize

def Fits (o : ι → Options) (s : Caches ι κ ν σ) : Action ι κ ν → Prop
  | .call _ _ => True
  | .cloneTo c n => 0 < (o n).maxSize → (s.parts c).lru.length ≤ (o n).maxSize

end Runs

/-! ## The size after a call -/

namespace LinkedLru

variable {κ : Type u} {ν : Type v} {σ : Type w} [DecidableEq κ]
  {c c' : LinkedLru κ ν σ} {o : Options} {onEvict : κ → ν → σ → σ}

omit [DecidableEq κ] in
theorem length_moveToBack (c : LinkedLru κ ν σ) (le : Nat) :
    (c.moveToBack le).lru.length = c.lru.length := by
  unfold moveToBack
  split
  · rename_i hle
    have hpos := List.length_pos_of_mem hle
    simp only [List.length_append, List.length_singleton, List.length_erase_of_mem hle]
    omega
  · rfl

theorem length_deleteElement {le : Nat} (h : c.deleteElement onEvict le = some c') :
    c'.lru.length ≤ c.lru.length := by
  rcases Option.map_eq_some_iff.mp h with ⟨e, -, rfl⟩
  exact List.length_erase_le

theorem length_deleteExpired {now : Int} {n : Nat}
    (h : deleteExpired onEvict now n c = some c') : c'.lru.length ≤ c.lru.length := by
  induction n generalizing c with
  | zero =>
      cases h
      exact Nat.le_refl _
  | succ n ih =>
      unfold deleteExpired at h
      split at h
      · cases h
        exact Nat.le_refl _
      · rcases Option.bind_eq_some_iff.mp h with ⟨e, -, h⟩
        split at h
        · rcases Option.bind_eq_some_iff.mp h with ⟨c₁, hdel, h⟩
          exact (ih h).trans (length_deleteElement hdel)
        · cases h
          exact Nat.le_refl _

theorem length_maybeDeleteOldest {now : Int} (h : c.maybeDeleteOldest o onEvict now = some c') :
    c'.lru.length ≤ c.lru.length := by
  unfold maybeDeleteOldest at h
  split at h
  · exact length_deleteExpired h
  · cases h
    exact Nat.le_refl _

/-- A new entry beyond the size is paid for with one other entry. -/
theorem length_setWithExpire {key : κ} {value : ν} {expires now : Int}
    (h : c.setWithExpire o onEvict key value expires now = some c') (hsize : 0 < o.maxSize)
    (hle : c.lru.length ≤ o.maxSize) : c'.lru.length ≤ o.maxSize := by
  cases hcache : c.cache key with
  | some le =>
      simp only [setWithExpire, hcache] at h
      rcases Option.bind_eq_some_iff.mp h with ⟨e, -, h⟩
      have hlen := length_maybeDeleteOldest h
      rw [store, length_moveToBack] at hlen
      omega
  | none =>
      rw [setWithExpire_of_none hcache] at h
      rcases Option.bind_eq_some_iff.mp h with ⟨c₁, hpush, h⟩
      have hlen := length_maybeDeleteOldest h
      have hpushed := length_pushed c key value expires
      by_cases hfull : o.maxSize < (c.pushed key value expires).lru.length
      · rw [if_pos ⟨hsize, hfull⟩] at hpush
        rcases Option.bind_eq_some_iff.mp hpush with ⟨le, hfront, hdel⟩
        rcases Option.map_eq_some_iff.mp hdel with ⟨e, -, rfl⟩
        rw [List.length_erase_of_mem (List.mem_of_mem_head? hfront)] at hlen
        omega
      · rw [if_neg fun hboth => hfull hboth.2] at hpush
        cases hpush
        omega

theorem length_get {key : κ} {now later : Int} {e : Option (ListEntry κ ν)}
    (h : c.get o onEvict key now later = some (c', e)) : c'.lru.length ≤ c.lru.length := by
  unfold get at h
  split at h
  · cases h
    exact Nat.le_refl _
  · rcases Option.bind_eq_some_iff.mp h with ⟨e₀, -, h⟩
    split at h
    · rcases Option.bind_eq_some_iff.mp h with ⟨c₁, hdel, h⟩
      rcases Option.map_eq_some_iff.mp h with ⟨c₂, hold, h⟩
      cases h
      exact (length_maybeDeleteOldest hold).trans (length_deleteElement hdel)
    · cases h
      exact Nat.le_of_eq (length_moveToBack c _)

theorem length_delete {key : κ} (h : c.delete onEvict key = some c') :
    c'.lru.length ≤ c.lru.length := by
  unfold delete at h
  split at h
  · exact length_deleteElement h
  · cases h
    exact Nat.le_refl _

theorem length_call {op : Op κ ν} {out : Output ν} (h : c.call o onEvict op = some (c', out))
    (hsize : 0 < o.maxSize) (hle : c.lru.length ≤ o.maxSize) : c'.lru.length ≤ o.maxSize := by
  cases op with
  | set | setWithExpire =>
      rcases Option.map_eq_some_iff.mp h with ⟨c₁, hset, h⟩
      cases h
      exact length_setWithExpire hset hsize hle
  | get | getWithExpire =>
      rcases Option.map_eq_some_iff.mp h with ⟨⟨c₁, e⟩, hget, h⟩
      cases h
      exact (length_get hget).trans hle
  | exist =>
      cases h
      exact hle
  | delete =>
      rcases Option.map_eq_some_iff.mp h with ⟨c₁, hdel, h⟩
      cases h
      exact (length_delete hdel).trans hle

/-! ## What a call leaves of the entries -/

omit [DecidableEq κ] in
theorem Linked.nodup_keys (h : c.Linked) : (c.entries.map Prod.fst).Nodup := by
  rw [entries, List.map_filterMap]
  apply List.Pairwise.filterMap _ _ (List.Pairwise.and_mem.mp h.nodup)
  rintro le le' ⟨hle, hle', hne⟩ key hkey key' hkey' heq
  obtain ⟨e, he, -⟩ := h.live le hle
  obtain ⟨e', he', -⟩ := h.live le' hle'
  rw [he] at hkey
  rw [he'] at hkey'
  cases hkey
  cases hkey'
  exact hne (h.eq_of_key_eq hle hle' he he' heq)

omit [DecidableEq κ] in
/-- Map and list that agree stand for some recency list. -/
theorem Linked.exists_refines (h : c.Linked) : ∃ l, c.Refines l :=
  ⟨⟨c.entries, h.nodup_keys⟩, h, rfl⟩

structure Keeps (c c' : LinkedLru κ ν σ) : Prop where
  next : c.next ≤ c'.next
  key : ∀ le < c.next, ∀ e, c.elems le = some e → ∃ e', c'.elems le = some e' ∧ e'.key = e.key

omit [DecidableEq κ] in
theorem Keeps.refl (c : LinkedLru κ ν σ) : c.Keeps c :=
  ⟨Nat.le_refl _, fun _ _ e he => ⟨e, he, rfl⟩⟩

omit [DecidableEq κ] in
theorem Keeps.trans {c₁ : LinkedLru κ ν σ} (h : c.Keeps c₁) (h' : c₁.Keeps c') : c.Keeps c' where
  next := h.next.trans h'.next
  key le hle e he := by
    rcases h.key le hle e he with ⟨e₁, he₁, hk₁⟩
    rcases h'.key le (hle.trans_le h.next) e₁ he₁ with ⟨e₂, he₂, hk₂⟩
    exact ⟨e₂, he₂, hk₂.trans hk₁⟩

omit [DecidableEq κ] in
theorem keeps_touch {le : Nat} {e e' : ListEntry κ ν} (hle : le ∈ c.lru)
    (he : c.elems le = some e) (hkey : e'.key = e.key) :
    c.Keeps ((c.moveToBack le).store le e') := by
  rw [moveToBack_store hle]
  refine ⟨Nat.le_refl _, fun le' _ e₀ he₀ => ?_⟩
  by_cases heq : le' = le
  · subst heq
    cases he.symm.trans he₀
    exact ⟨e', Function.update_self .., hkey⟩
  · exact ⟨e₀, (Function.update_of_ne heq _ _).trans he₀, rfl⟩

theorem keeps_pushed (c : LinkedLru κ ν σ) (key : κ) (value : ν) (expires : Int) :
    c.Keeps (c.pushed key value expires) where
  next := Nat.le_succ _
  key _ hle e he := ⟨e, (Function.update_of_ne (Nat.ne_of_lt hle) _ _).trans he, rfl⟩

/-- The operation returns, with map and list in agreement and all entries kept. -/
def Sound (c : LinkedLru κ ν σ) (result : Option (LinkedLru κ ν σ)) : Prop :=
  ∃ c', result = some c' ∧ c'.Linked ∧ c.Keeps c'

omit [DecidableEq κ] in
theorem Linked.sound (h : c.Linked) : c.Sound (some c) := ⟨c, rfl, h, Keeps.refl c⟩

omit [DecidableEq κ] in
theorem Sound.after {c₁ : LinkedLru κ ν σ} {result : Option (LinkedLru κ ν σ)}
    (hkeeps : c.Keeps c₁) (h : c₁.Sound result) : c.Sound result := by
  rcases h with ⟨c₂, hc₂, hlinked, hkeeps₂⟩
  exact ⟨c₂, hc₂, hlinked, hkeeps.trans hkeeps₂⟩

omit [DecidableEq κ] in
theorem Sound.bind {result : Option (LinkedLru κ ν σ)}
    {f : LinkedLru κ ν σ → Option (LinkedLru κ ν σ)} (h : c.Sound result)
    (hf : ∀ c₁ : LinkedLru κ ν σ, c₁.Linked → c₁.Sound (f c₁)) : c.Sound (result.bind f) := by
  rcases h with ⟨c₁, rfl, hlinked, hkeeps⟩
  exact Sound.after hkeeps (hf c₁ hlinked)

theorem Linked.sound_deleteElement (h : c.Linked) (onEvict : κ → ν → σ → σ) {le : Nat}
    (hle : le ∈ c.lru) : c.Sound (c.deleteElement onEvict le) := by
  rcases h.exists_refines with ⟨l, hl⟩
  rcases h.live le hle with ⟨e, he, -⟩
  rcases hl.deleteElement onEvict hle he with ⟨c', hc', href, -⟩
  refine ⟨c', hc', href.toLinked, ?_⟩
  rcases Option.map_eq_some_iff.mp hc' with ⟨_, -, rfl⟩
  exact ⟨Nat.le_refl _, fun _ _ e he => ⟨e, he, rfl⟩⟩

theorem Linked.sound_deleteExpired (onEvict : κ → ν → σ → σ) (now : Int) (n : Nat)
    {c : LinkedLru κ ν σ} (h : c.Linked) : c.Sound (deleteExpired onEvict now n c) := by
  induction n generalizing c with
  | zero => exact h.sound
  | succ n ih =>
      unfold deleteExpired
      split
      · exact h.sound
      · rename_i le rest hlru
        have hle : le ∈ c.lru := by simp [hlru]
        rcases h.live le hle with ⟨e, he, -⟩
        rw [he, Option.bind_some]
        split
        · exact (h.sound_deleteElement onEvict hle).bind fun c₁ h₁ => ih h₁
        · exact h.sound

theorem Linked.sound_maybeDeleteOldest (h : c.Linked) (o : Options) (onEvict : κ → ν → σ → σ)
    (now : Int) : c.Sound (c.maybeDeleteOldest o onEvict now) := by
  unfold maybeDeleteOldest
  split
  · exact h.sound_deleteExpired onEvict now _
  · exact h.sound

theorem Linked.sound_touch (h : c.Linked) {le : Nat} {e e' : ListEntry κ ν} (hle : le ∈ c.lru)
    (he : c.elems le = some e) (hkey : e'.key = e.key) :
    c.Sound (some ((c.moveToBack le).store le e')) := by
  rcases h.exists_refines with ⟨l, hl⟩
  exact ⟨_, rfl, (hl.touch hle he hkey).toLinked, keeps_touch hle he hkey⟩

theorem Linked.sound_setWithExpire (h : c.Linked) (o : Options) (onEvict : κ → ν → σ → σ) (key : κ)
    (value : ν) (expires now : Int) :
    c.Sound (c.setWithExpire o onEvict key value expires now) := by
  cases hcache : c.cache key with
  | some le =>
      rcases h.listed key le hcache with ⟨hle, e, he, -⟩
      have htouch : c.Sound (some ((c.moveToBack le).store le
          { e with value := value, expires := expires })) := h.sound_touch hle he rfl
      rw [setWithExpire_of_some hcache hle he]
      exact htouch.bind fun c₁ h₁ => h₁.sound_maybeDeleteOldest o onEvict now
  | none =>
      rcases h.exists_refines with ⟨l, hl⟩
      have hlinked : (c.pushed key value expires).Linked :=
        (hl.pushBack hcache value expires).toLinked
      have hkeeps := keeps_pushed c key value expires
      rw [setWithExpire_of_none hcache]
      refine Sound.bind ?_ fun c₁ h₁ => h₁.sound_maybeDeleteOldest o onEvict now
      split
      · rename_i hfull
        have hpos : 0 < (c.pushed key value expires).lru.length := by omega
        rcases List.exists_cons_of_length_pos hpos with ⟨le, rest, hlru⟩
        rw [hlru, List.head?_cons, Option.bind_some]
        exact Sound.after hkeeps (hlinked.sound_deleteElement onEvict (by simp [hlru]))
      · exact Sound.after hkeeps hlinked.sound

theorem Linked.exists_get (h : c.Linked) (o : Options) (onEvict : κ → ν → σ → σ) (key : κ)
    (now later : Int) :
    ∃ c' e, c.get o onEvict key now later = some (c', e) ∧ c'.Linked ∧ c.Keeps c' := by
  cases hcache : c.cache key with
  | none => exact ⟨c, none, by rw [LinkedLru.get, hcache], h, Keeps.refl c⟩
  | some le =>
      rcases h.listed key le hcache with ⟨hle, e, he, -⟩
      simp only [LinkedLru.get, hcache, he, Option.bind_some]
      split
      · rcases (h.sound_deleteElement onEvict hle).bind
          fun c₁ h₁ => h₁.sound_maybeDeleteOldest o onEvict later with ⟨c', hc', hlinked, hkeeps⟩
        rcases Option.bind_eq_some_iff.mp hc' with ⟨c₁, hdel, hold⟩
        exact ⟨c', none, by rw [hdel, Option.bind_some, hold, Option.map_some], hlinked, hkeeps⟩
      · have htouch : c.Sound (some ((c.moveToBack le).store le
            { e with expires := getExpires o later e.expires })) := h.sound_touch hle he rfl
        rcases htouch with ⟨c', hc', hlinked, hkeeps⟩
        cases hc'
        exact ⟨_, _, rfl, hlinked, hkeeps⟩

theorem Linked.sound_delete (h : c.Linked) (onEvict : κ → ν → σ → σ) (key : κ) :
    c.Sound (c.delete onEvict key) := by
  unfold LinkedLru.delete
  split
  · rename_i le hcache
    exact h.sound_deleteElement onEvict (h.listed key le hcache).1
  · exact h.sound

theorem Linked.call (h : c.Linked) (o : Options) (onEvict : κ → ν → σ → σ) (op : Op κ ν) :
    ∃ c' out, c.call o onEvict op = some (c', out) ∧ c'.Linked ∧ c.Keeps c' := by
  cases op with
  | set key value now later =>
      rcases h.sound_setWithExpire o onEvict key value (setExpires o now) later with ⟨c', hc', hcall⟩
      exact ⟨c', .done, by rw [LinkedLru.call, hc', Option.map_some], hcall⟩
  | setWithExpire key value expires now =>
      rcases h.sound_setWithExpire o onEvict key value expires now with ⟨c', hc', hcall⟩
      exact ⟨c', .done, by rw [LinkedLru.call, hc', Option.map_some], hcall⟩
  | get key now later | getWithExpire key now later =>
      rcases h.exists_get o onEvict key now later with ⟨c', e, hc', hcall⟩
      exact ⟨c', _, by rw [LinkedLru.call, hc', Option.map_some], hcall⟩
  | exist key => exact ⟨c, _, rfl, h, Keeps.refl c⟩
  | delete key =>
      rcases h.sound_delete onEvict key with ⟨c', hc', hcall⟩
      exact ⟨c', .done, by rw [LinkedLru.call, hc', Option.map_some], hcall⟩

omit [DecidableEq κ] in
/-- A cache that another one's call does not touch still agrees with itself. -/
theorem Linked.of_keeps (h : c.Linked) (hkeeps : c.Keeps c') :
    (⟨c.cache, c.lru, c'.elems, c'.next, c'.world⟩ : LinkedLru κ ν σ).Linked where
  live le hle := by
    rcases h.live le hle with ⟨e, he, hcache⟩
    rcases hkeeps.key le (h.fresh le hle) e he with ⟨e', he', hkey⟩
    exact ⟨e', he', by rw [hkey, hcache]⟩
  listed key le hcache := by
    rcases h.listed key le hcache with ⟨hle, e, he, hkey⟩
    rcases hkeeps.key le (h.fresh le hle) e he with ⟨e', he', hkey'⟩
    exact ⟨hle, e', he', hkey'.trans hkey⟩
  nodup := h.nodup
  fresh le hle := (h.fresh le hle).trans_le hkeeps.next

/-! ## A clone is a copy of map and list -/

def cloned (c : LinkedLru κ ν σ) (done : List Nat) (key : κ) : Option Nat :=
  (c.cache key).filter (· ∈ done)

omit [DecidableEq κ] in
theorem Linked.cloned_lru (h : c.Linked) : c.cloned c.lru = c.cache := by
  funext key
  unfold cloned
  cases hcache : c.cache key with
  | none => rfl
  | some le => simp [(h.listed key le hcache).1]

/-- One turn of the loop enters the element under its key and changes nothing else. -/
theorem Linked.cloned_append (h : c.Linked) {le : Nat} {e : ListEntry κ ν} (hle : le ∈ c.lru)
    (he : c.elems le = some e) (done : List Nat) :
    Function.update (c.cloned done) e.key (some le) = c.cloned (done ++ [le]) := by
  rcases h.live le hle with ⟨e₀, he₀, hcache⟩
  cases he.symm.trans he₀
  funext key
  by_cases hkey : key = e.key
  · rw [hkey, Function.update_self, cloned, hcache]
    simp [Option.filter]
  · rw [Function.update_of_ne hkey]
    unfold cloned
    cases hother : c.cache key with
    | none => rfl
    | some le' =>
        have hne : le' ≠ le := by
          rintro rfl
          rcases h.listed key le' hother with ⟨-, e', he', hkey'⟩
          cases he.symm.trans he'
          exact hkey hkey'.symm
        simp [Option.filter, hne]

theorem Linked.cloneElems_eq (h : c.Linked) : ∀ (done rest : List Nat), c.lru = done ++ rest →
    cloneElems c.elems rest ⟨c.cloned done, done⟩ = some ⟨c.cache, c.lru⟩
  | done, [], hlru => by
      rw [List.append_nil] at hlru
      rw [cloneElems, ← hlru, h.cloned_lru]
  | done, le :: rest, hlru => by
      have hle : le ∈ c.lru := by simp [hlru]
      rcases h.live le hle with ⟨e, he, -⟩
      rw [cloneElems, he, Option.bind_some, h.cloned_append hle he]
      exact h.cloneElems_eq (done ++ [le]) rest (by rw [hlru, List.append_assoc, List.singleton_append])

end LinkedLru

/-! ## Runs -/

section Runs

variable {ι : Type u} {κ : Type v} {ν : Type w} {σ : Type x} [DecidableEq ι] [DecidableEq κ]
  {o : ι → Options} {onEvict : ι → κ → ν → σ → σ} {s t : Caches ι κ ν σ}

def AllLinked (s : Caches ι κ ν σ) : Prop := ∀ c, (s.view c).Linked

theorem AllLinked.cloneTo_eq (h : AllLinked s) {c n : ι} (hne : c ≠ n) :
    s.cloneTo c n = some { s with parts := Function.update s.parts n (s.parts c) } := by
  have hempty : (s.view c).cloned [] = fun _ => none := by
    funext key
    unfold LinkedLru.cloned
    cases (s.view c).cache key <;> simp [Option.filter]
  have hclone := (h c).cloneElems_eq [] (s.parts c).lru rfl
  rw [hempty] at hclone
  rw [Caches.cloneTo, if_neg hne]
  exact congrArg _ hclone

omit [DecidableEq κ] in
theorem AllLinked.put (h : AllLinked s) {c : ι} {l : LinkedLru κ ν σ} (hl : l.Linked)
    (hkeeps : (s.view c).Keeps l) : AllLinked (s.put c l) := by
  intro i
  by_cases hi : i = c
  · subst hi
    simpa [Caches.view, Caches.put] using hl
  · have hother : (s.view i).Keeps l := ⟨hkeeps.next, hkeeps.key⟩
    have hframe := (h i).of_keeps hother
    simpa [Caches.view, Caches.put, Function.update_of_ne hi] using hframe

omit [DecidableEq κ] in
theorem AllLinked.clone (h : AllLinked s) (c n : ι) :
    AllLinked { s with parts := Function.update s.parts n (s.parts c) } := by
  intro i
  by_cases hi : i = n
  · subst hi
    simpa [Caches.view] using h c
  · simpa [Caches.view, Function.update_of_ne hi] using h i

omit [DecidableEq ι] [DecidableEq κ] in
theorem allLinked_empty (world : σ) : AllLinked (Caches.empty world : Caches ι κ ν σ) :=
  fun _ => ⟨nofun, nofun, List.nodup_nil, nofun⟩

/-- What a step does, from caches in which map and list agree. -/
theorem step_cases (h : AllLinked s) {a : Action ι κ ν} (hstep : (caches o onEvict).step s a = some t) :
    (∃ c op l out, a = .call c op ∧ (s.view c).call (o c) (onEvict c) op = some (l, out) ∧
      l.Linked ∧ (s.view c).Keeps l ∧ t = s.put c l) ∨
    ∃ c n, a = .cloneTo c n ∧ c ≠ n ∧
      t = { s with parts := Function.update s.parts n (s.parts c) } := by
  cases a with
  | call c op =>
      rcases (h c).call (o c) (onEvict c) op with ⟨l, out, hcall, hlinked, hkeeps⟩
      simp only [caches, hcall, Option.map_some, Option.some.injEq] at hstep
      exact Or.inl ⟨c, op, l, out, rfl, hcall, hlinked, hkeeps, hstep.symm⟩
  | cloneTo c n =>
      have hne : c ≠ n := by
        rintro rfl
        simp [caches, Caches.cloneTo] at hstep
      simp only [caches, h.cloneTo_eq hne, Option.some.injEq] at hstep
      exact Or.inr ⟨c, n, rfl, hne, hstep.symm⟩

theorem AllLinked.step (h : AllLinked s) {a : Action ι κ ν}
    (hstep : (caches o onEvict).step s a = some t) : AllLinked t := by
  rcases step_cases h hstep with ⟨c, op, l, out, -, -, hlinked, hkeeps, rfl⟩ | ⟨c, n, -, -, rfl⟩
  · exact h.put hlinked hkeeps
  · exact h.clone c n

/-- Every run returns in which no cache is cloned to itself. -/
theorem exists_run (h : AllLinked s) (as : List (Action ι κ ν)) (hself : ∀ c, .cloneTo c c ∉ as) :
    ∃ t, (caches o onEvict).run s as = some t := by
  induction as generalizing s with
  | nil => exact ⟨s, rfl⟩
  | cons a as ih =>
      have hnext : ∃ t, (caches o onEvict).step s a = some t := by
        cases a with
        | call c op =>
            rcases (h c).call (o c) (onEvict c) op with ⟨l, out, hcall, -⟩
            exact ⟨s.put c l, by simp only [caches, hcall, Option.map_some]⟩
        | cloneTo c n =>
            have hne : c ≠ n := by
              rintro rfl
              exact hself c List.mem_cons_self
            exact ⟨_, h.cloneTo_eq hne⟩
      rcases hnext with ⟨t, ht⟩
      rcases ih (h.step ht) (fun c hc => hself c (List.mem_cons_of_mem a hc)) with ⟨t', ht'⟩
      exact ⟨t', by rw [System.run, ht, Option.bind_some, ht']⟩

/-- A bounded step needs the guard at a clone and nothing anywhere else. -/
theorem bounded_step_iff (h : AllLinked s) (hb : Bounded o s) {a : Action ι κ ν}
    (hstep : (caches o onEvict).step s a = some t) : Bounded o t ↔ Fits o s a := by
  rcases step_cases h hstep with ⟨c, op, l, out, rfl, hcall, -, -, rfl⟩ | ⟨c, n, rfl, -, rfl⟩
  · refine iff_of_true (fun i hsize => ?_) trivial
    by_cases hi : i = c
    · subst hi
      simpa [Caches.put] using LinkedLru.length_call hcall hsize (hb i hsize)
    · simpa [Caches.put, Function.update_of_ne hi] using hb i hsize
  · constructor
    · intro hbounded hsize
      simpa using hbounded n hsize
    · intro hfits i hsize
      by_cases hi : i = n
      · subst hi
        simpa using hfits hsize
      · simpa [Function.update_of_ne hi] using hb i hsize

/-- From empty caches every cache stays within its size exactly as long as every
`CloneTo` copies no more than fits. -/
theorem cloneTo_bounded_iff (o : ι → Options) (onEvict : ι → κ → ν → σ → σ) (world : σ)
    (as : List (Action ι κ ν)) :
    (caches o onEvict).Always (Bounded o) (Caches.empty world) as ↔
      (caches o onEvict).Guarded (Fits o) (Caches.empty world) as := by
  have hInv : ∀ (s : Caches ι κ ν σ) a t, AllLinked s → Bounded o s →
      (caches o onEvict).step s a = some t → Fits o s a → AllLinked t :=
    fun s a t hs _ hstep _ => hs.step hstep
  have hP : ∀ (s : Caches ι κ ν σ) a t, AllLinked s → Bounded o s →
      (caches o onEvict).step s a = some t → (Bounded o t ↔ Fits o s a) :=
    fun s a t hs hb hstep => bounded_step_iff hs hb hstep
  have hempty : Bounded o (Caches.empty world : Caches ι κ ν σ) := fun c _ => Nat.zero_le _
  exact System.always_iff_guarded _ hInv hP as (allLinked_empty world) hempty

/-- Three entries of a cache of ten, cloned into a cache of two. -/
theorem cloneTo_overfills :
    let o : Bool → Options := fun c => ⟨0, if c then 10 else 2, false, false⟩
    ∃ t, (caches o fun _ _ _ (w : Unit) => w).run (Caches.empty ())
        [.call true (.set "1" 1 0 0), .call true (.set "2" 2 0 0), .call true (.set "3" 3 0 0),
          .cloneTo true false, .call false (.set "4" 4 0 0)] = some t ∧
      (t.parts false).lru.length = 3 ∧ ¬ Bounded o t := by
  refine ⟨_, rfl, rfl, ?_⟩
  intro h
  have hle := h false (by decide)
  exact absurd hle (by decide)

/-- Caches of one size, as `PatchFrom` clones them, stay within it. -/
theorem bounded_of_same_size {size : Nat} (hsize : ∀ c, (o c).maxSize = size) (world : σ)
    (as : List (Action ι κ ν)) :
    (caches o onEvict).Always (Bounded o) (Caches.empty world) as := by
  have hstep : ∀ (s : Caches ι κ ν σ) a t, AllLinked s ∧ Bounded o s →
      (caches o onEvict).step s a = some t → AllLinked t ∧ Bounded o t := by
    rintro s a t ⟨hs, hb⟩ hstep
    refine ⟨hs.step hstep, (bounded_step_iff hs hb hstep).mpr ?_⟩
    cases a with
    | call c op => trivial
    | cloneTo c n =>
        intro hpos
        have hle := hb c (by rw [hsize, ← hsize n]; exact hpos)
        rwa [hsize, ← hsize n] at hle
  have hempty : Bounded o (Caches.empty world : Caches ι κ ν σ) := fun c _ => Nat.zero_le _
  exact (System.always_of_step _ hstep as ⟨allLinked_empty world, hempty⟩).mono _ fun s hs => hs.2

end Runs

end RuleBaseProxy.Cache
